import SymmetricKey.BlockCipher.Serpent
import SymmetricKey.Proofs.InverseSteps
import Mathlib.Data.Fintype.Pi

/-!
Serpent takes back what it did, whatever its round keys are. A box reaches every
bit through the column it is in, so the four words are read here as 32 columns;
the linear map is taken apart in the order of its steps.
-/

namespace SymmetricKey

namespace Serpent

def bit (words : Quad) (place : Nat) : Fin 4 → Bool
  | 0 => words.w0.toBitVec.getLsbD place
  | 1 => words.w1.toBitVec.getLsbD place
  | 2 => words.w2.toBitVec.getLsbD place
  | 3 => words.w3.toBitVec.getLsbD place

def nibble (bits : Fin 4 → Bool) : Fin 16 :=
  ⟨(List.ofFn fun row => (bits row).toNat <<< row.val).sum % 16, Nat.mod_lt _ (Nat.zero_lt_succ 15)⟩

theorem nibble_bit (bits : Fin 4 → Bool) (row : Fin 4) :
    (nibble bits).val.testBit row.val = bits row := by
  revert bits row
  decide +kernel

theorem nibble_of_bits (value : Fin 16) :
    nibble (fun row => value.val.testBit row.val) = value := by
  revert value
  decide +kernel

def column (words : Quad) (place : Nat) : Fin 16 := nibble (bit words place)

theorem column_bit (words : Quad) (place : Nat) (row : Fin 4) :
    (column words place).val.testBit row.val = bit words place row := nibble_bit _ _

theorem word_inj (left right : UInt32)
    (same : ∀ place, place < 32 → left.toBitVec.getLsbD place = right.toBitVec.getLsbD place) :
    left = right := UInt32.toBitVec_inj.mp (BitVec.eq_of_getLsbD_eq same)

theorem columns_inj (left right : Quad)
    (same : ∀ place, place < 32 → column left place = column right place) : left = right := by
  have bits (row : Fin 4) (place : Nat) (inside : place < 32) :
      bit left place row = bit right place row := by
    rw [← column_bit, ← column_bit, same place inside]
  cases left with
  | mk l0 l1 l2 l3 =>
      cases right with
      | mk r0 r1 r2 r3 =>
          rw [word_inj l0 r0 (bits 0), word_inj l1 r1 (bits 1), word_inj l2 r2 (bits 2),
            word_inj l3 r3 (bits 3)]

theorem literal_bit (value : Fin 16) (row place : Nat) (word : UInt32) (inside : place < 32) :
    (literal value row word).toBitVec.getLsbD place =
      (value.val.testBit row == word.toBitVec.getLsbD place) := by
  rw [literal]
  split
  · next set => rw [set, Bool.true_beq]
  · next clear =>
      rw [Bool.not_eq_true] at clear
      rw [clear, Bool.false_beq, UInt32.toBitVec_not, BitVec.getLsbD_not, decide_eq_true inside,
        Bool.true_and]

theorem columns_with_bit (value : Fin 16) (words : Quad) (place : Nat) (inside : place < 32) :
    (columnsWith value words).toBitVec.getLsbD place = decide (value = column words place) := by
  have found :
      ∀ bits : Fin 4 → Bool, ((value.val.testBit 0 == bits 0 && value.val.testBit 1 == bits 1 &&
      value.val.testBit 2 == bits 2 && value.val.testBit 3 == bits 3) =
        decide (value = nibble bits)) := by
    revert value
    decide +kernel
  rw [columnsWith, UInt32.toBitVec_and, UInt32.toBitVec_and, UInt32.toBitVec_and,
    BitVec.getLsbD_and, BitVec.getLsbD_and, BitVec.getLsbD_and, literal_bit _ _ _ _ inside,
    literal_bit _ _ _ _ inside, literal_bit _ _ _ _ inside, literal_bit _ _ _ _ inside]
  exact found (bit words place)

theorem joined_bit (left right : Quad) (place : Nat) (row : Fin 4) :
    bit (joined left right) place row = (bit left place row || bit right place row) := by
  match row with
  | 0 | 1 | 2 | 3 => simp [bit, joined]

theorem spread_bit (value : Fin 16) (columns : UInt32) (place : Nat) (row : Fin 4) :
    bit (spread value columns) place row =
      (value.val.testBit row.val && columns.toBitVec.getLsbD place) := by
  have word (set : Bool) : (if set = true then columns else 0).toBitVec.getLsbD place =
      (set && columns.toBitVec.getLsbD place) := by
    cases set <;> simp
  match row with
  | 0 | 1 | 2 | 3 => exact word _

theorem joined_all_bit (parts : List (Fin 16)) (part : Fin 16 → Quad) (start : Quad) (place : Nat)
    (row : Fin 4) :
    bit (parts.foldl (fun sum value => joined sum (part value)) start) place row =
      (bit start place row || parts.any fun value => bit (part value) place row) := by
  induction parts generalizing start with
  | nil => simp
  | cons value rest ih => rw [List.foldl_cons, ih, joined_bit, List.any_cons, Bool.or_assoc]

-- The box looks every column up by itself.
theorem substitute_column (box : NibbleBox) (words : Quad) (place : Nat) (inside : place < 32) :
    column (substitute box words) place = box.get (column words place) := by
  have bits (row : Fin 4) : bit (substitute box words) place row =
      (box.get (column words place)).val.testBit row.val := by
    have nothing : bit Quad.zero place row = false := by
      match row with
      | 0 | 1 | 2 | 3 => simp [bit, Quad.zero]
    rw [substitute, joined_all_bit, nothing, Bool.false_or]
    -- Of all the parts that are joined, one alone reaches this column.
    simp only [spread_bit, columns_with_bit _ words place inside]
    apply Bool.eq_iff_iff.mpr
    simp
  rw [column, funext bits, nibble_of_bits]

theorem substitute_undone (box back : NibbleBox)
    (undone : ∀ value, back.get (box.get value) = value) (words : Quad) :
    substitute back (substitute box words) = words := by
  apply columns_inj
  intro place inside
  rw [substitute_column _ _ _ inside, substitute_column _ _ _ inside, undone]

theorem boxes_undone (box : Fin 8) (words : Quad) :
    substitute (inverseBoxes.get box) (substitute (boxes.get box) words) = words := by
  apply substitute_undone
  revert box
  decide +kernel

theorem boxes_redone (box : Fin 8) (words : Quad) :
    substitute (boxes.get box) (substitute (inverseBoxes.get box) words) = words := by
  apply substitute_undone
  revert box
  decide +kernel

theorem pair_undone (word left right : UInt32) :
    word ^^^ left ^^^ right ^^^ left ^^^ right = word := by
  have moved : word ^^^ left ^^^ right ^^^ left ^^^ right =
      word ^^^ (left ^^^ left) ^^^ (right ^^^ right) := by ac_rfl
  rw [moved, UInt32.xor_self, UInt32.xor_self, UInt32.xor_zero, UInt32.xor_zero]

theorem mix_undone (words : Quad) : unmix (mix words) = words := by
  simp (disch := decide) only [mix, unmix, rotate_right_left, pair_undone]

theorem mix_redone (words : Quad) : mix (unmix words) = words := by
  simp (disch := decide) only [mix, unmix, rotate_left_right, pair_undone]

theorem forward_undone (round : Round) (words : Quad) :
    round.backward (round.forward words) = words := by
  rw [Round.backward, Round.forward, boxes_undone, Quad.xor_undone]

theorem backward_redone (round : Round) (words : Quad) :
    round.forward (round.backward words) = words := by
  rw [Round.forward, Round.backward, Quad.xor_undone, boxes_redone]

theorem reversible (cipher : Serpent) : BlockPermutation.Reversible cipher where
  undone block := by
    have undone (round : Round) (words : Quad) :
        round.backward (unmix (mix (round.forward words))) = words := by
      rw [mix_undone, forward_undone]
    change decrypt cipher (encrypt cipher block) = block
    rw [decrypt, encrypt, Quad.of_little_endian_written, Quad.xor_undone, forward_undone,
      rounds_undone (fun round words => mix (Round.forward round words))
        (fun round words => round.backward (unmix words)) undone, Quad.little_endian_read]
  redone block := by
    have redone (round : Round) (words : Quad) :
        mix (round.forward (round.backward (unmix words))) = words := by
      rw [backward_redone, mix_redone]
    change encrypt cipher (decrypt cipher block) = block
    rw [encrypt, decrypt, Quad.of_little_endian_written,
      rounds_redone (fun round words => mix (Round.forward round words))
        (fun round words => round.backward (unmix words)) redone, backward_redone, Quad.xor_undone,
      Quad.little_endian_read]

theorem prekeys_length (count : Nat) (index : UInt32) (window : Octet) :
    (prekeys count index window).length = count := by
  induction count generalizing index window with
  | zero => rfl
  | succ count ih => rw [prekeys, List.length_cons, ih]

theorem keys_length :
    (box : Fin 8) → (words : List UInt32) → (keysOf box words).length = words.length / 4
  | box, _ :: _ :: _ :: _ :: rest => by
      rw [keysOf, List.length_cons, keys_length (box - 1) rest]
      simp only [List.length_cons]
      omega
  | _, [] | _, [_] | _, [_, _] | _, [_, _, _] => by simp [keysOf]

theorem round_keys_length (key : Bytes) : (roundKeys key).length = 33 := by
  rw [roundKeys, keys_length, prekeys_length]

/-- Whatever stands in the round keys, the two directions undo each other, and so do the steps that
they are made of on every state. A key of each size is expanded to 33 round keys. -/
theorem any_keys_taken_back :
    (∀ box words, substitute (inverseBoxes.get box) (substitute (boxes.get box) words) = words ∧
        substitute (boxes.get box) (substitute (inverseBoxes.get box) words) = words) ∧
      (∀ words, unmix (mix words) = words ∧ mix (unmix words) = words) ∧
      (∀ keys block, decrypt (ofRoundKeys keys) (encrypt (ofRoundKeys keys) block) = block ∧
        encrypt (ofRoundKeys keys) (decrypt (ofRoundKeys keys) block) = block) ∧
      ∀ key : Bytes, key.length = 16 ∨ key.length = 24 ∨ key.length = 32 →
        ∃ keys, keys.length = 33 ∧ expand key = .ok (ofRoundKeys keys) := by
  refine ⟨?boxes, ?map, ?blocks, ?keys⟩
  case boxes => exact fun box words => ⟨boxes_undone box words, boxes_redone box words⟩
  case map => exact fun words => ⟨mix_undone words, mix_redone words⟩
  case blocks =>
    intro keys block
    exact ⟨(reversible _).undone block, (reversible _).redone block⟩
  case keys =>
    intro key accepted
    exact ⟨roundKeys key, round_keys_length key, if_pos accepted⟩

/-- One of the NESSIE vectors, back from what it is enciphered to. -/
theorem known_example_taken_back :
    let key := (List.range 16).map UInt8.ofNat
    let block := Block.ofFront 16 ((List.range 16).map fun index => UInt8.ofNat (17 * index))
    let enciphered := Block.ofFront 16
      [0x56, 0x3e, 0x2c, 0xf8, 0x74, 0x0a, 0x27, 0xc1, 0x64, 0x80, 0x45, 0x60, 0x39, 0x1e,
        0x9b, 0x27]
    ∃ cipher, expand key = .ok cipher ∧ encrypt cipher block = enciphered ∧
      decrypt cipher enciphered = block := by
  intro key block enciphered
  obtain ⟨_, _, undone, accepted⟩ := any_keys_taken_back
  obtain ⟨keys, _, expanded⟩ := accepted key (by decide)
  have computed : (expand key).map (encrypt · block) = .ok enciphered := by decide +kernel
  rw [expanded] at computed
  have forth : encrypt (ofRoundKeys keys) block = enciphered := Except.ok.inj computed
  refine ⟨_, expanded, forth, ?_⟩
  rw [← forth]
  exact (undone keys block).1

end Serpent

end SymmetricKey
