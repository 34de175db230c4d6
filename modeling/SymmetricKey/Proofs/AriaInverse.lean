import SymmetricKey.BlockCipher.Aria
import SymmetricKey.Proofs.AesInverse

/-!
ARIA is taken back by ARIA itself. The matrix between the layers is its own
inverse and is linear, so a round key can be moved through it; each layer holds
the boxes that undo the other one. What is left is to go through the keys from
the other end, with an eye on which layer stands where.
-/

namespace SymmetricKey

namespace Aria

def sumAt (block : Block 16) (positions : List (Fin 16)) : UInt8 :=
  positions.foldl (fun sum position => sum ^^^ block.get position) 0

section Sums
variable (block : Block 16)

theorem sum_from (start : UInt8) (positions : List (Fin 16)) :
    positions.foldl (fun sum position => sum ^^^ block.get position) start =
      start ^^^ sumAt block positions := by
  induction positions generalizing start with
  | nil => simp [sumAt]
  | cons position rest ih =>
      rw [sumAt, List.foldl_cons, List.foldl_cons, ih, ih, UInt8.zero_xor, UInt8.xor_assoc]

theorem sum_cons (position : Fin 16) (rest : List (Fin 16)) :
    sumAt block (position :: rest) = block.get position ^^^ sumAt block rest := by
  rw [sumAt, List.foldl_cons, sum_from, UInt8.zero_xor]

theorem sum_append (front back : List (Fin 16)) :
    sumAt block (front ++ back) = sumAt block front ^^^ sumAt block back := by
  rw [sumAt, List.foldl_append, sum_from]
  rfl

theorem sum_perm (left right : List (Fin 16)) (same : left.Perm right) :
    sumAt block left = sumAt block right :=
  same.foldl_eq' (fun _ _ _ _ _ => by ac_rfl) 0

theorem diffuse_get (position : Fin 16) :
    (diffuse block).get position = sumAt block (diffusion.get position) := Vector.getElem_map _ _

theorem sum_diffused (positions : List (Fin 16)) :
    sumAt (diffuse block) positions = sumAt block (positions.flatMap diffusion.get) := by
  induction positions with
  | nil => rfl
  | cons position rest ih => rw [sum_cons, diffuse_get, List.flatMap_cons, sum_append, ih]

theorem sum_xor (left right : Block 16) (positions : List (Fin 16)) :
    sumAt (left ^^^ right) positions = sumAt left positions ^^^ sumAt right positions := by
  induction positions with
  | nil => simp [sumAt]
  | cons position rest ih =>
      rw [sum_cons, sum_cons, sum_cons, Block.get_xor, ih]
      ac_rfl

end Sums

/-- Half of the ways that lead back to a position in two steps, without the one that counts. -/
def detours (position : Fin 16) : List (Fin 16) :=
  (List.finRange 16).flatMap fun other =>
    List.replicate (((diffusion.get position).flatMap diffusion.get).count other / 2) other

theorem reached_in_pairs (position : Fin 16) :
    ((diffusion.get position).flatMap diffusion.get).Perm
      (position :: (detours position ++ detours position)) := by
  -- In two steps a position is reached from itself an odd number of times, and from every
  -- other one an even number of times.
  revert position
  decide +kernel

theorem diffuse_twice (block : Block 16) : diffuse (diffuse block) = block := by
  apply Block.get_inj
  intro position
  rw [diffuse_get, sum_diffused, sum_perm _ _ _ (reached_in_pairs position), sum_cons, sum_append,
    UInt8.xor_self, UInt8.xor_zero]

theorem diffuse_xor (left right : Block 16) :
    diffuse (left ^^^ right) = diffuse left ^^^ diffuse right := by
  apply Block.get_inj
  intro position
  rw [Block.get_xor, diffuse_get, diffuse_get, diffuse_get, sum_xor]

@[simp] theorem next_next (layer : Layer) : layer.next.next = layer := by
  cases layer <;> rfl

theorem next_commutes (count : Nat) (layer : Layer) :
    Layer.next^[count] layer.next = (Layer.next^[count] layer).next :=
  (Function.Commute.refl Layer.next).iterate_left count layer

-- As many layers on again, it is the first one's turn.
theorem next_doubled (count : Nat) (layer : Layer) :
    Layer.next^[count] (Layer.next^[count] layer) = layer := by
  induction count with
  | zero => rfl
  | succ count ih =>
      rw [Function.iterate_succ_apply, Function.iterate_succ_apply', next_next]
      exact ih

theorem second_box_full : Substitution.valueSet secondBox.toList = 2 ^ 256 - 1 := by decide +kernel

theorem box_undone (layer : Layer) (lane : Nat) (byte : UInt8) :
    (layer.next.box lane).apply ((layer.box lane).apply byte) = byte := by
  match layer, lane with
  | .odd, 0 | .even, 2 => exact Substitution.inverse_apply aesBox Aes.box_full byte
  | .odd, 1 | .even, _ + 3 => exact Substitution.inverse_apply secondBox second_box_full byte
  | .odd, 2 | .even, 0 => exact Substitution.apply_inverse aesBox Aes.box_full byte
  | .odd, _ + 3 | .even, 1 => exact Substitution.apply_inverse secondBox second_box_full byte

theorem substitute_undone (layer : Layer) (block : Block 16) :
    substitute layer.next (substitute layer block) = block := by
  apply Block.get_inj
  intro position
  rw [substitute, Block.get_of_fn, substitute, Block.get_of_fn, box_undone]

/-- What lies between the first key and the last layer: a layer, the matrix and a key at a time. -/
def advance : Layer → List (Block 16) → Block 16 → Block 16
  | _, [], state => state
  | layer, key :: keys, state => advance layer.next keys (diffuse (substitute layer state) ^^^ key)

theorem advance_append (layer : Layer) (front back : List (Block 16)) (state : Block 16) :
    advance layer (front ++ back) state =
      advance (Layer.next^[front.length] layer) back (advance layer front state) := by
  induction front generalizing layer state with
  | nil => rfl
  | cons key front ih =>
      rw [List.cons_append, advance, ih, advance, List.length_cons, Function.iterate_succ_apply]

theorem crypt_exact (layer : Layer) (first final : Block 16) (middle : List (Block 16))
    (block : Block 16) :
    crypt layer (first :: (middle ++ [final])) block =
      substitute (Layer.next^[middle.length] layer) (advance layer middle (block ^^^ first)) ^^^
        final := by
  induction middle generalizing layer first block with
  | nil => rfl
  | cons key middle ih =>
      -- Two keys or more are left, so this is not the round without the matrix.
      have more : ∀ last, key :: (middle ++ [final]) = [last] → False := by simp
      rw [List.cons_append, crypt.eq_3 _ _ _ _ more, ih, List.length_cons,
        Function.iterate_succ_apply, advance, round]

theorem advance_undone (layer : Layer) (keys : List (Block 16)) (state : Block 16) :
    advance (Layer.next^[keys.length] layer).next (keys.reverse.map diffuse)
        (substitute (Layer.next^[keys.length] layer) (advance layer keys state)) =
      substitute layer state := by
  -- The keys diffused and from the other end, behind the last layer, lead back to the first
  -- one.
  induction keys generalizing layer state with
  | nil => rfl
  | cons key keys ih =>
      -- Backwards the first key comes last, and all others are taken back before it.
      have turn : Layer.next^[keys.length] (Layer.next^[keys.length] layer.next).next = layer := by
        rw [← next_commutes, next_next, next_doubled]
      have back :
          substitute layer (substitute layer.next (diffuse (substitute layer state) ^^^ key)) =
          diffuse (substitute layer state) ^^^ key := by
        have undone := substitute_undone layer.next (diffuse (substitute layer state) ^^^ key)
        rwa [next_next] at undone
      have through : diffuse (diffuse (substitute layer state) ^^^ key) ^^^ diffuse key =
          substitute layer state := by
        rw [diffuse_xor, diffuse_twice, Block.xor_undone]
      rw [List.length_cons, Function.iterate_succ_apply, List.reverse_cons, List.map_append,
        advance_append, advance, ih, List.length_map, List.length_reverse, turn, List.map_singleton,
        advance, advance, back, through]

theorem inverse_keys_exact (first final : Block 16) (middle : List (Block 16)) :
    inverseKeys (first :: (middle ++ [final])) =
      final :: (middle.reverse.map diffuse ++ [first]) := by
  simp [inverseKeys]

theorem inverse_keys_twice (first final : Block 16) (middle : List (Block 16)) :
    inverseKeys (inverseKeys (first :: (middle ++ [final]))) = first :: (middle ++ [final]) := by
  have twice : diffuse ∘ diffuse = id := funext diffuse_twice
  rw [inverse_keys_exact, inverse_keys_exact, ← List.map_reverse, List.reverse_reverse,
    List.map_map, twice, List.map_id]

theorem crypt_undone (layer : Layer) (first final : Block 16) (middle : List (Block 16))
    (block : Block 16) :
    crypt (Layer.next^[middle.length] layer).next (inverseKeys (first :: (middle ++ [final])))
      (crypt layer (first :: (middle ++ [final])) block) = block := by
  rw [inverse_keys_exact, crypt_exact, crypt_exact, Block.xor_undone, advance_undone,
    List.length_map, List.length_reverse, ← next_commutes, next_doubled, substitute_undone,
    Block.xor_undone]

-- An even number of rounds ends with the layer that the first one undoes.
theorem crypt_taken_back (first final : Block 16) (middle : List (Block 16))
    (even : (middle.length + 1) % 2 = 0) (block : Block 16) :
    crypt .odd (inverseKeys (first :: (middle ++ [final])))
      (crypt .odd (first :: (middle ++ [final])) block) = block := by
  have halves : middle.length + 1 = (middle.length + 1) / 2 + (middle.length + 1) / 2 := by omega
  have start : (Layer.next^[middle.length] .odd).next = .odd := by
    rw [← Function.iterate_succ_apply' Layer.next, Nat.succ_eq_add_one, halves,
      Function.iterate_add_apply, next_doubled]
  have undone := crypt_undone .odd first final middle block
  rwa [start] at undone

theorem ends_of_keys (keys : List (Block 16)) (some : 0 < (ofRoundKeys keys).rounds) :
    ∃ first middle final, keys = first :: (middle ++ [final]) ∧
      (ofRoundKeys keys).rounds = middle.length + 1 := by
  cases keys with
  | nil => cases some
  | cons first rest =>
      have inner : rest ≠ [] := List.length_pos_iff.mp some
      refine ⟨first, rest.dropLast, rest.getLast inner, ?_, ?_⟩
      · rw [List.dropLast_append_getLast]
      · rw [List.length_dropLast]
        exact (Nat.sub_add_cancel some).symm

theorem reversible (keys : List (Block 16)) (some : 0 < (ofRoundKeys keys).rounds)
    (even : (ofRoundKeys keys).rounds % 2 = 0) :
    BlockPermutation.Reversible (ofRoundKeys keys) := by
  obtain ⟨first, middle, final, rfl, count⟩ := ends_of_keys keys some
  rw [count] at even
  have odd : (middle.reverse.map diffuse).length = middle.length := by
    rw [List.length_map, List.length_reverse]
  constructor
  · exact crypt_taken_back first final middle even
  · intro block
    have redone :=
      crypt_taken_back final first (middle.reverse.map diffuse) (by rw [odd, even]) block
    rwa [← inverse_keys_exact, inverse_keys_twice] at redone

theorem expand_exact (key : Bytes)
    (accepted : key.length = 16 ∨ key.length = 24 ∨ key.length = 32) :
    ∃ keys, expand key = .ok (ofRoundKeys keys) ∧
      (ofRoundKeys keys).rounds = key.length / 4 + 8 := by
  have count (start : Nat) : (roundKeys start key).length = 20 := rfl
  have rounds (start taken : Nat) (inside : taken ≤ 20) :
      (ofRoundKeys ((roundKeys start key).take taken)).rounds = taken - 1 := by
    change ((roundKeys start key).take taken).length - 1 = taken - 1
    rw [List.length_take, count, Nat.min_eq_left inside]
  rw [expand]
  rcases accepted with size | size | size
  · rw [size]
    exact ⟨_, rfl, rounds 0 13 (by decide)⟩
  · rw [size]
    exact ⟨_, rfl, rounds 1 15 (by decide)⟩
  · rw [size]
    exact ⟨_, rfl, rounds 2 17 (by decide)⟩

/-- Whatever stands in the round keys of an even number of rounds, the routine run with the
inverse keys takes back what it did, and the other way round. A key of each size is expanded to
such keys. -/
theorem even_rounds_undone :
    (∀ keys : List (Block 16), 0 < (ofRoundKeys keys).rounds → (ofRoundKeys keys).rounds % 2 = 0 →
        ∀ block, crypt .odd (inverseKeys keys) (crypt .odd keys block) = block ∧
          crypt .odd keys (crypt .odd (inverseKeys keys) block) = block) ∧
      ∀ key : Bytes, key.length = 16 ∨ key.length = 24 ∨ key.length = 32 →
        ∃ keys, expand key = .ok (ofRoundKeys keys) ∧
          (ofRoundKeys keys).rounds = key.length / 4 + 8 ∧
          ∀ block, decrypt (ofRoundKeys keys) (encrypt (ofRoundKeys keys) block) = block ∧
            encrypt (ofRoundKeys keys) (decrypt (ofRoundKeys keys) block) = block := by
  constructor
  · intro keys some even block
    have both := reversible keys some even
    exact ⟨both.undone block, both.redone block⟩
  · intro key accepted
    obtain ⟨keys, expanded, rounds⟩ := expand_exact key accepted
    have both := reversible keys (by omega) (by omega)
    exact ⟨keys, expanded, rounds, fun block => ⟨both.undone block, both.redone block⟩⟩

/-- A key of counted bytes, and two rounds with keys of nobody's schedule. -/
theorem scheduled_and_other_keys_undone :
    (∃ cipher, expand ((List.range 16).map UInt8.ofNat) = .ok cipher ∧ cipher.rounds = 12 ∧
      ∀ block, decrypt cipher (encrypt cipher block) = block) ∧
    ∀ block,
    crypt .odd (inverseKeys [Block.ofFront 16 [1], Block.ofFront 16 [2], Block.ofFront 16 [3]])
      (crypt .odd [Block.ofFront 16 [1], Block.ofFront 16 [2], Block.ofFront 16 [3]] block) =
        block := by
  constructor
  · obtain ⟨keys, expanded, rounds, undone⟩ :=
      even_rounds_undone.2 ((List.range 16).map UInt8.ofNat) (by decide)
    exact ⟨_, expanded, rounds, fun block => (undone block).1⟩
  · intro block
    exact (even_rounds_undone.1 [Block.ofFront 16 [1], Block.ofFront 16 [2], Block.ofFront 16 [3]]
      (by decide) (by decide) block).1

end Aria

end SymmetricKey
