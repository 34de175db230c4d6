import SymmetricKey.BlockCipher.Twofish
import SymmetricKey.Proofs.InverseSteps

/-!
Twofish takes back what it did, whatever stands in its subkeys and tables. Of
two rounds the first reads two words and changes the other two, and the second
reads those. On the way back the words that were read last still stand there, so
the same sums come out, and each changed word loses its sum on the side of its
rotation on which it got it.
-/

namespace SymmetricKey

namespace Twofish

section Word
variable (word sum : UInt32)

theorem added_then_rotated : rotateLeft32 (rotateRight32 (word ^^^ sum) 1) 1 ^^^ sum = word := by
  rw [rotate_left_right _ _ (by decide) (by decide)]
  simp

theorem rotated_then_added : rotateRight32 (rotateLeft32 word 1 ^^^ sum ^^^ sum) 1 = word := by
  have bare : rotateLeft32 word 1 ^^^ sum ^^^ sum = rotateLeft32 word 1 := by simp
  rw [bare, rotate_right_left _ _ (by decide) (by decide)]

end Word

-- Each direction reads a word only while it stands as the other direction read it.
theorem Tables.forward_undone (tables : Tables) (keys words : Quad) :
    tables.backward keys (tables.forward words keys) = words := by
  simp only [Tables.backward, Tables.forward, added_then_rotated, rotated_then_added]

theorem Tables.backward_redone (tables : Tables) (keys words : Quad) :
    tables.forward (tables.backward keys words) keys = words := by
  simp only [Tables.backward, Tables.forward, added_then_rotated, rotated_then_added]

theorem exchange_twice (words : Quad) : exchange (exchange words) = words := rfl

theorem reversible (cipher : Twofish) : BlockPermutation.Reversible cipher where
  undone block := by
    have undone := rounds_undone (fun keys words => cipher.tables.forward words keys)
      cipher.tables.backward cipher.tables.forward_undone cipher.roundKeys
    change decrypt cipher (encrypt cipher block) = block
    rw [decrypt, encrypt, Quad.of_little_endian_written, Quad.xor_undone, exchange_twice, undone,
      Quad.xor_undone, Quad.little_endian_read]
  redone block := by
    have redone := rounds_redone (fun keys words => cipher.tables.forward words keys)
      cipher.tables.backward cipher.tables.backward_redone cipher.roundKeys
    change encrypt cipher (decrypt cipher block) = block
    rw [decrypt, encrypt, Quad.of_little_endian_written, Quad.xor_undone, redone, exchange_twice,
      Quad.xor_undone, Quad.little_endian_read]

theorem quads_length : (words : List UInt32) → (quads words).length = words.length / 4
  | _ :: _ :: _ :: _ :: rest => by
      rw [quads, List.length_cons, quads_length rest]
      simp only [List.length_cons]
      omega
  | [] | [_] | [_, _] | [_, _, _] => by simp [quads]

theorem pairs_length (even odd : KeyBytes) (count : Nat) :
    ((List.range count).flatMap (keyPair even odd)).length = 2 * count := by
  induction count with
  | zero => rfl
  | succ count ih =>
      rw [List.range_succ, List.flatMap_append, List.length_append, ih]
      rfl

theorem round_keys_length (key : Bytes) : (ofKey key).roundKeys.length = 8 := by
  -- Forty subkeys are ten quads, two of which mask the input and the output.
  change ((quads _).drop 2).length = 8
  rw [List.length_drop, quads_length, pairs_length]

/-- Whatever stands in the subkeys and in the tables, the two directions undo each other. A key of
each size is expanded to forty subkeys. -/
theorem any_subkeys_undone :
    (∀ (cipher : Twofish) (block : Block 16), decrypt cipher (encrypt cipher block) = block ∧
        encrypt cipher (decrypt cipher block) = block) ∧
      ∀ key : Bytes, key.length = 16 ∨ key.length = 24 ∨ key.length = 32 →
        ∃ cipher, expand key = .ok cipher ∧ cipher.roundKeys.length = 8 ∧
          ∀ block, decrypt cipher (encrypt cipher block) = block ∧
            encrypt cipher (decrypt cipher block) = block := by
  constructor
  · intro cipher block
    exact ⟨(reversible cipher).undone block, (reversible cipher).redone block⟩
  · intro key accepted
    refine ⟨ofKey key, if_pos accepted, round_keys_length key, ?_⟩
    intro block
    exact ⟨(reversible _).undone block, (reversible _).redone block⟩

/-- The zero key, with the first subkey that is known for it, and subkeys and tables of nobody's
schedule. -/
theorem zero_key_and_other_content_undone :
    (∃ cipher, expand (Bytes.zeros 16) = .ok cipher ∧ cipher.inputKey.w0 = 0x52C54DDE ∧
        cipher.roundKeys.length = 8 ∧ ∀ block, decrypt cipher (encrypt cipher block) = block) ∧
      let table : WordTable := Vector.ofFn fun byte => UInt32.ofNat (byte.val * 0x9E3779B1)
      let cipher : Twofish :=
        { inputKey := ⟨1, 2, 3, 4⟩, outputKey := ⟨5, 6, 7, 8⟩
          roundKeys := [⟨9, 10, 11, 12⟩, ⟨13, 14, 15, 16⟩], tables := ⟨table, table, table, table⟩ }
      let enciphered := Block.ofFront 16
        [0x55, 0x6e, 0x37, 0x8b, 0xed, 0x25, 0x9c, 0x5c, 0x48, 0xf7, 0xb1, 0x21, 0x10, 0xea,
          0x26, 0xeb]
      encrypt cipher (Block.ofFront 16 [1, 2, 3]) = enciphered ∧
        decrypt cipher enciphered = Block.ofFront 16 [1, 2, 3] := by
  constructor
  · obtain ⟨cipher, expanded, rounds, undone⟩ := any_subkeys_undone.2 (Bytes.zeros 16) (by decide)
    have first : (expand (Bytes.zeros 16)).map (·.inputKey.w0) = .ok 0x52C54DDE := by decide +kernel
    rw [expanded] at first
    exact ⟨cipher, expanded, Except.ok.inj first, rounds, fun block => (undone block).1⟩
  · intro table cipher enciphered
    have forth : encrypt cipher (Block.ofFront 16 [1, 2, 3]) = enciphered := by decide +kernel
    refine ⟨forth, ?_⟩
    rw [← forth]
    exact (any_subkeys_undone.1 cipher _).1

end Twofish

end SymmetricKey
