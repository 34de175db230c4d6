import SymmetricKey.Proofs.BuiltInCiphers
import SymmetricKey.Proofs.InverseSteps

/-!
Ciphers that change a part of the block by a function of the rest, which is
therefore never inverted itself. What is different is how the way back is found:
the same rounds between two turns of the block (CAST-128, SM4), rounds and
reverse rounds in exchanged roles (CAST-256), or cycles that subtract what was
added, as long as the running sum starts where it ended (TEA, XTEA).
-/

namespace SymmetricKey

open BlockPermutation (Reversible)

namespace Cast128

open Cast (RoundKey)

theorem round_turned (halves : Halves) (key : RoundKey) :
    round (round halves key).swap key = halves.swap := by
  simp [round, Halves.swap]

theorem crypt_taken_back (keys : List RoundKey) (block : Block 8) :
    crypt keys.reverse (crypt keys block) = block := by
  rw [crypt, crypt, Halves.of_big_endian_written,
    rounds_turned_back round Halves.swap (fun _ => rfl) round_turned, Halves.big_endian_read]

theorem reversible (cipher : Cast128) : Reversible cipher where
  undone := crypt_taken_back cipher.keys
  redone block := by
    have redone := crypt_taken_back cipher.keys.reverse block
    rwa [List.reverse_reverse] at redone

theorem subkeys_length (words : Quad) (taps : List Taps) (four : taps.length = 4) :
    (subkeys words taps).length = 4 := by
  rw [subkeys, List.length_zipWith, four]
  rfl

theorem sixteen_subkeys_length (words : Quad) : (sixteenSubkeys words).1.length = 16 := by
  have ascends (a b c d : Fin 16) : (ascending a b c d).length = 4 := rfl
  have descends (a b c d : Fin 16) : (descending a b c d).length = 4 := rfl
  simp [sixteenSubkeys, subkeys_length, ascends, descends]

theorem round_keys_length (key : Bytes) : (roundKeys key).length = 16 := by
  simp [roundKeys, sixteen_subkeys_length]

theorem expand_exact (key : Bytes) (accepted : 5 ≤ key.length ∧ key.length ≤ 16) :
    ∃ cipher, expand key = .ok cipher ∧ cipher.rounds = if key.length ≤ 10 then 12 else 16 := by
  refine ⟨_, if_pos accepted, ?_⟩
  rw [rounds, List.length_take, round_keys_length]
  split <;> rfl

end Cast128

namespace Sm4

theorem round_turned (words : Quad) (key : UInt32) :
    round (round words key).reversed key = words.reversed := by
  have order : words.w3 ^^^ words.w2 ^^^ words.w1 = words.w1 ^^^ words.w2 ^^^ words.w3 := by ac_rfl
  simp [round, Quad.reversed, order]

theorem crypt_taken_back (keys : List UInt32) (block : Block 16) :
    crypt keys.reverse (crypt keys block) = block := by
  rw [crypt, crypt, Quad.of_big_endian_written,
    rounds_turned_back round Quad.reversed (fun _ => rfl) round_turned, Quad.big_endian_read]

theorem reversible (cipher : Sm4) : Reversible cipher where
  undone := crypt_taken_back cipher.keys
  redone block := by
    have redone := crypt_taken_back cipher.keys.reverse block
    rwa [List.reverse_reverse] at redone

theorem round_keys_length (count index : Nat) (words : Quad) :
    (roundKeys count index words).length = count := by
  induction count generalizing index words with
  | zero => rfl
  | succ count ih => rw [roundKeys, List.length_cons, ih]

theorem expand_exact (key : Bytes) (whole : key.length = 16) :
    ∃ cipher, expand key = .ok cipher ∧ cipher.keys.length = 32 := by
  obtain ⟨block, read⟩ := Block.of_bytes_made 16 key whole
  rw [expand, read]
  exact ⟨_, rfl, round_keys_length 32 0 _⟩

end Sm4

namespace Cast256

open Cast (QuadKey)

theorem forward_undone (key : QuadKey) (words : Quad) :
    key.backward (key.forward words) = words := by
  simp [QuadKey.forward, QuadKey.backward]

theorem backward_undone (key : QuadKey) (words : Quad) :
    key.forward (key.backward words) = words := by
  simp [QuadKey.forward, QuadKey.backward]

-- On the way back the keys of the reverse rounds run forward first, from the last one on.
theorem crypt_taken_back (outward homeward : List QuadKey) (block : Block 16) :
    crypt homeward.reverse outward.reverse (crypt outward homeward block) = block := by
  have home := rounds_undone QuadKey.backward QuadKey.forward backward_undone homeward
  have out := rounds_undone QuadKey.forward QuadKey.backward forward_undone outward
  rw [crypt, crypt, Quad.of_big_endian_written, List.foldl_reverse, List.foldl_reverse]
  rw [home, out, Quad.big_endian_read]

theorem reversible (cipher : Cast256) : Reversible cipher where
  undone := crypt_taken_back cipher.outward cipher.homeward
  redone block := by
    have redone := crypt_taken_back cipher.homeward.reverse cipher.outward.reverse block
    rwa [List.reverse_reverse, List.reverse_reverse] at redone

theorem quad_keys_length (count index : Nat) (words : Octet) :
    (quadKeys count index words).length = count := by
  induction count generalizing index words with
  | zero => rfl
  | succ count ih => rw [quadKeys, List.length_cons, ih]

theorem expand_exact (key : Bytes) (listed : key.length ∈ [16, 20, 24, 28, 32]) :
    ∃ cipher, expand key = .ok cipher ∧ cipher.outward.length = 6 ∧ cipher.homeward.length = 6 := by
  have accepted : 16 ≤ key.length ∧ key.length ≤ 32 ∧ key.length % 4 = 0 := by
    simp at listed
    omega
  refine ⟨_, if_pos accepted, ?_, ?_⟩
  · rw [List.length_take, quad_keys_length]
    rfl
  · rw [List.length_drop, quad_keys_length]

end Cast256

namespace Tea

theorem of_block_written (state : State) : State.ofBlock state.sum state.toBlock = state := by
  rw [State.ofBlock, State.toBlock, Halves.of_big_endian_written]

theorem block_written (sum : UInt32) (block : Block 8) :
    (State.ofBlock sum block).toBlock = block := by
  rw [State.ofBlock, State.toBlock, Halves.big_endian_read]

theorem sum_moved (step : State → State) (amount : UInt32)
    (moved : ∀ state, (step state).sum = state.sum + amount) (count : Nat) (state : State) :
    (Nat.repeat step count state).sum = state.sum + amount * UInt32.ofNat count := by
  induction count with
  | zero => simp [Nat.repeat]
  | succ count ih =>
      rw [Nat.repeat, moved, ih, UInt32.ofNat_add, UInt32.mul_add, UInt32.add_assoc]
      simp

theorem cycles_taken_back (forth back : State → State) (amount start final : UInt32)
    (undone : ∀ state, back (forth state) = state)
    (moved : ∀ state, (forth state).sum = state.sum + amount)
    (met : start + amount * UInt32.ofNat cycles = final) (block : Block 8) :
    (Nat.repeat back cycles (State.ofBlock final
      (Nat.repeat forth cycles (State.ofBlock start block)).toBlock)).toBlock = block := by
  -- The block is written without the sum, so the way back has to start from the very sum that
  -- the way there ended with.
  have reached : (Nat.repeat forth cycles (State.ofBlock start block)).sum = final := by
    rw [sum_moved forth amount moved]
    exact met
  rw [← reached, of_block_written, repeat_undone forth back undone, block_written]

theorem cycle_undone (key : Quad) (state : State) : uncycle key (cycle key state) = state := by
  simp [cycle, uncycle]

theorem cycle_redone (key : Quad) (state : State) : cycle key (uncycle key state) = state := by
  simp [cycle, uncycle]

theorem reversible (cipher : Tea) : Reversible cipher where
  undone := cycles_taken_back (cycle cipher.key) (uncycle cipher.key) delta 0 finalSum
    (cycle_undone cipher.key) (fun _ => rfl) (by decide)
  redone := cycles_taken_back (uncycle cipher.key) (cycle cipher.key) (-delta) finalSum 0
    (cycle_redone cipher.key) (fun _ => UInt32.sub_eq_add_neg _ _) (by decide)

end Tea

namespace Xtea

theorem cycle_undone (key : Quad) (state : Tea.State) : uncycle key (cycle key state) = state := by
  simp [cycle, uncycle]

theorem cycle_redone (key : Quad) (state : Tea.State) : cycle key (uncycle key state) = state := by
  simp [cycle, uncycle]

theorem reversible (cipher : Xtea) : Reversible cipher where
  undone := Tea.cycles_taken_back (cycle cipher.key) (uncycle cipher.key) Tea.delta 0 Tea.finalSum
    (cycle_undone cipher.key) (fun _ => rfl) (by decide)
  redone :=
    Tea.cycles_taken_back (uncycle cipher.key) (cycle cipher.key) (-Tea.delta) Tea.finalSum 0
    (cycle_redone cipher.key) (fun _ => UInt32.sub_eq_add_neg _ _) (by decide)

end Xtea

/-- A key of each accepted length is expanded to as many rounds as belong to it, and the directions
of the cipher undo each other. -/
theorem accepted_keys_undone :
    (∀ key : Bytes, 5 ≤ key.length ∧ key.length ≤ 16 →
        ∃ cipher, Cast128.expand key = .ok cipher ∧
          cipher.rounds = (if key.length ≤ 10 then 12 else 16) ∧ Reversible cipher) ∧
      (∀ key : Bytes, key.length ∈ [16, 20, 24, 28, 32] →
        ∃ cipher, Cast256.expand key = .ok cipher ∧
          (cipher.outward.length = 6 ∧ cipher.homeward.length = 6) ∧ Reversible cipher) ∧
      ∀ key : Bytes, key.length = 16 →
        (∃ cipher, Sm4.expand key = .ok cipher ∧ cipher.keys.length = 32 ∧ Reversible cipher) ∧
          (∃ cipher, Tea.expand key = .ok cipher ∧ Reversible cipher) ∧
          ∃ cipher, Xtea.expand key = .ok cipher ∧ Reversible cipher := by
  refine ⟨?cast128, ?cast256, ?others⟩
  case cast128 =>
    intro key accepted
    obtain ⟨cipher, expanded, rounds⟩ := Cast128.expand_exact key accepted
    exact ⟨cipher, expanded, rounds, cipher.reversible⟩
  case cast256 =>
    intro key listed
    obtain ⟨cipher, expanded, rounds⟩ := Cast256.expand_exact key listed
    exact ⟨cipher, expanded, rounds, cipher.reversible⟩
  case others =>
    intro key whole
    obtain ⟨cipher, expanded, rounds⟩ := Sm4.expand_exact key whole
    obtain ⟨quad, read⟩ := Tea.key_of_bytes_made key whole
    refine ⟨⟨cipher, expanded, rounds, cipher.reversible⟩, ?tea, ?xtea⟩
    case tea => exact ⟨_, congrArg (Except.map _) read, Tea.reversible _⟩
    case xtea => exact ⟨_, congrArg (Except.map _) read, Xtea.reversible _⟩

theorem deciphered {C : Type} [BlockPermutation C] (outcome : Except Error C) (cipher : C)
    (made : outcome = .ok cipher) (back : Reversible cipher)
    (block enciphered : Block (BlockPermutation.size C))
    (computed : outcome.map (BlockPermutation.encrypt · block) = .ok enciphered) :
    BlockPermutation.decrypt cipher enciphered = block := by
  rw [made] at computed
  obtain rfl : BlockPermutation.encrypt cipher block = enciphered := Except.ok.inj computed
  exact back.undone block

/-- Keys of ten and of twenty bytes, and published examples for the keys of sixteen. -/
theorem published_examples_undone :
    let key4 :=
      [0x01, 0x23, 0x45, 0x67, 0x89, 0xab, 0xcd, 0xef, 0xfe, 0xdc, 0xba, 0x98, 0x76, 0x54, 0x32,
        0x10]
    let counted := (List.range 16).map UInt8.ofNat
    let letters := Block.ofFront 8 [0x41, 0x42, 0x43, 0x44, 0x45, 0x46, 0x47, 0x48]
    (∃ cipher, Cast128.expand (Bytes.zeros 10) = .ok cipher ∧ cipher.rounds = 12 ∧
        ∀ block, Cast128.decrypt cipher (Cast128.encrypt cipher block) = block) ∧
      (∃ cipher, Cast256.expand (Bytes.zeros 20) = .ok cipher ∧
        ∀ block, Cast256.encrypt cipher (Cast256.decrypt cipher block) = block) ∧
      (∃ cipher, Sm4.expand key4 = .ok cipher ∧
        Sm4.decrypt cipher (Block.ofFront 16
          [0x68, 0x1e, 0xdf, 0x34, 0xd2, 0x06, 0x96, 0x5e, 0x86, 0xb3, 0xe9, 0x4f, 0x53, 0x6e,
            0x42, 0x46]) = Block.ofFront 16 key4) ∧
      (∃ cipher, Tea.expand counted = .ok cipher ∧
        Tea.decrypt cipher (Block.ofFront 8 [0xdf, 0x25, 0xfc, 0x42, 0x79, 0xb8, 0xf9, 0x29]) =
          letters) ∧
      ∃ cipher, Xtea.expand counted = .ok cipher ∧
        Xtea.decrypt cipher (Block.ofFront 8 [0x49, 0x7d, 0xf3, 0xd0, 0x72, 0x61, 0x2c, 0xb5]) =
          letters := by
  intro key4 counted letters
  obtain ⟨cast128, cast256, others⟩ := accepted_keys_undone
  obtain ⟨cipher128, expanded128, rounds, back128⟩ := cast128 (Bytes.zeros 10) (by decide)
  obtain ⟨cipher256, expanded256, _, back256⟩ := cast256 (Bytes.zeros 20) (by decide)
  obtain ⟨⟨cipher4, expanded4, _, back4⟩, _⟩ := others key4 (by decide)
  obtain ⟨_, ⟨tea, expandedTea, backTea⟩, ⟨xtea, expandedXtea, backXtea⟩⟩ :=
    others counted (by decide)
  refine ⟨⟨cipher128, expanded128, rounds, back128.undone⟩,
    ⟨cipher256, expanded256, back256.redone⟩,
    ⟨cipher4, expanded4, ?_⟩, ⟨tea, expandedTea, ?_⟩, ⟨xtea, expandedXtea, ?_⟩⟩
  · exact deciphered _ _ expanded4 back4 _ _ (by decide +kernel)
  · exact deciphered _ _ expandedTea backTea _ _ (by decide +kernel)
  · exact deciphered _ _ expandedXtea backXtea _ _ (by decide +kernel)

end SymmetricKey
