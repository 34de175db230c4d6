import SymmetricKey.BlockCipher
import SymmetricKey.Substitution
import SymmetricKey.Proofs.WordStrings
import Mathlib.Data.FinEnum
import Mathlib.Data.LawfulXor.Basic
import Mathlib.Tactic.FinCases

/-!
Steps that ciphers are made of, and the steps that take them back: keys added to
blocks, tables looked up the other way, rotations, words read from a block, and
rounds gone through from the last one to the first.
-/

namespace SymmetricKey

/-- Each direction takes back what the other one did. -/
structure BlockPermutation.Reversible {C : Type} [BlockPermutation C] (cipher : C) : Prop where
  undone : ∀ block, decrypt cipher (encrypt cipher block) = block
  redone : ∀ block, encrypt cipher (decrypt cipher block) = block

section Rounds
variable {Round State : Type} (forward backward : Round → State → State)

theorem rounds_undone (undone : ∀ round state, backward round (forward round state) = state)
    (rounds : List Round) (state : State) :
    rounds.foldr backward (rounds.foldl (fun state round => forward round state) state) =
      state := by
  induction rounds generalizing state with
  | nil => rfl
  | cons round rest ih => rw [List.foldl_cons, List.foldr_cons, ih, undone]

theorem rounds_redone (redone : ∀ round state, forward round (backward round state) = state)
    (rounds : List Round) (state : State) :
    rounds.foldl (fun state round => forward round state) (rounds.foldr backward state) =
      state := by
  induction rounds with
  | nil => rfl
  | cons round rest ih => rw [List.foldr_cons, List.foldl_cons, redone, ih]

end Rounds

section Turns
variable {Round State : Type} (step : State → Round → State) (turn : State → State)

theorem rounds_turned_back (twice : ∀ state, turn (turn state) = state)
    (undone : ∀ state round, step (turn (step state round)) round = turn state)
    (rounds : List Round) (state : State) :
    turn (rounds.reverse.foldl step (turn (rounds.foldl step state))) = state := by
  -- Rounds that undo themselves on the turned state are taken back by the same rounds from the
  -- other end.
  induction rounds generalizing state with
  | nil => exact twice state
  | cons round rest ih =>
      have back : rest.reverse.foldl step (turn (rest.foldl step (step state round))) =
          turn (step state round) := by
        rw [← twice (rest.reverse.foldl step _), ih]
      rw [List.reverse_cons, List.foldl_append, List.foldl_cons, List.foldl_nil, List.foldl_cons,
        back, undone, twice]

end Turns

section Repetition
variable {State : Type} (forth back : State → State)

theorem repeat_first (count : Nat) (state : State) :
    Nat.repeat forth count (forth state) = forth (Nat.repeat forth count state) := by
  induction count with
  | zero => rfl
  | succ count ih => rw [Nat.repeat, ih, Nat.repeat]

theorem repeat_undone (undone : ∀ state, back (forth state) = state) (count : Nat) (state : State) :
    Nat.repeat back count (Nat.repeat forth count state) = state := by
  induction count generalizing state with
  | zero => rfl
  | succ count ih => rw [Nat.repeat, Nat.repeat, ← repeat_first forth, ih, undone]

end Repetition

namespace Block

variable {size : Nat}

theorem get_inj {left right : Block size}
    (same : ∀ position, left.get position = right.get position) :
    left = right := by
  apply Vector.ext
  intro index inside
  exact same ⟨index, inside⟩

@[simp] theorem get_of_fn (byte : Fin size → UInt8) (position : Fin size) :
    Vector.get (Vector.ofFn byte) position = byte position := Vector.getElem_ofFn _

@[simp] theorem get_map (change : UInt8 → UInt8) (block : Block size) (position : Fin size) :
    Vector.get (block.map change) position = change (block.get position) := Vector.getElem_map _ _

@[simp] theorem get_xor (left right : Block size) (position : Fin size) :
    (left ^^^ right).get position = left.get position ^^^ right.get position :=
  Vector.getElem_zipWith _

@[simp] theorem xor_undone (block key : Block size) : block ^^^ key ^^^ key = block := by
  apply get_inj
  simp

end Block

namespace Halves

theorem of_big_endian_written (halves : Halves) : ofBigEndian halves.toBigEndian = halves := by
  simp only [ofBigEndian, toBigEndian, Vector.getElem_ofFn, BigEndian.bytes32, List.cons_append,
    List.nil_append, List.getD_cons_zero, List.getD_cons_succ, BigEndian.word_bytes]

theorem big_endian_read (block : Block 8) : (ofBigEndian block).toBigEndian = block := by
  apply Block.get_inj
  intro position
  simp only [ofBigEndian, toBigEndian, BigEndian.bytes32_word, List.cons_append, List.nil_append,
    Block.get_of_fn]
  fin_cases position <;> rfl

end Halves

namespace Quad

@[simp] theorem xor_undone (quad key : Quad) : quad ^^^ key ^^^ key = quad := by
  change (quad.xor key).xor key = quad
  simp [xor]

theorem of_little_endian_written (quad : Quad) : ofLittleEndian quad.toLittleEndian = quad := by
  simp only [ofLittleEndian, toLittleEndian, toWords, Block.ofFront, Vector.getElem_ofFn,
    List.flatMap_cons, List.flatMap_nil, LittleEndian.bytes32, List.cons_append, List.nil_append,
    List.getD_cons_zero, List.getD_cons_succ, LittleEndian.word_bytes]

theorem little_endian_read (block : Block 16) : (ofLittleEndian block).toLittleEndian = block := by
  apply Block.get_inj
  intro position
  simp only [ofLittleEndian, toLittleEndian, toWords, Block.ofFront, List.flatMap_cons,
    List.flatMap_nil, LittleEndian.bytes32_word, List.cons_append, List.nil_append, Block.get_of_fn]
  fin_cases position <;> rfl

theorem of_big_endian_written (quad : Quad) : ofBigEndian quad.toBigEndian = quad := by
  simp only [ofBigEndian, toBigEndian, toWords, Block.ofFront, Vector.getElem_ofFn,
    List.flatMap_cons, List.flatMap_nil, BigEndian.bytes32, List.cons_append, List.nil_append,
    List.getD_cons_zero, List.getD_cons_succ, BigEndian.word_bytes]

theorem big_endian_read (block : Block 16) : (ofBigEndian block).toBigEndian = block := by
  apply Block.get_inj
  intro position
  simp only [ofBigEndian, toBigEndian, toWords, Block.ofFront, List.flatMap_cons, List.flatMap_nil,
    BigEndian.bytes32_word, List.cons_append, List.nil_append, Block.get_of_fn]
  fin_cases position <;> rfl

end Quad

namespace Substitution

theorem apply_exact (box : Substitution) (byte : UInt8) :
    box.apply byte = box.toList.get ⟨byte.toNat, by simpa using byte.toNat_lt⟩ := by
  simp [apply, entry, Vector.get]

theorem inverse_exact (box : Substitution) (byte : UInt8) :
    box.inverse.apply byte = UInt8.ofNat (box.toList.idxOf byte) := by
  have same : UInt8.ofNat byte.toFin.val = byte := UInt8.ofNat_toNat
  rw [inverse, apply, entry, Block.get_of_fn, same]

-- The bytes of a string as the bits of a number, so that a whole table is looked through at
-- once.
def valueSet (bytes : Bytes) : Nat := bytes.foldr (fun byte values => 1 <<< byte.toNat ||| values) 0

theorem value_set_exact (bytes : Bytes) (byte : UInt8) :
    (valueSet bytes).testBit byte.toNat = true ↔ byte ∈ bytes := by
  induction bytes with
  | nil => simp [valueSet]
  | cons first rest ih =>
      rw [valueSet, List.foldr_cons, ← valueSet, Nat.testBit_or, Bool.or_eq_true, ih, List.mem_cons,
        Nat.one_shiftLeft, Nat.testBit_two_pow, decide_eq_true_iff, UInt8.toNat_inj, eq_comm]

variable (box : Substitution) (full : valueSet box.toList = 2 ^ 256 - 1)
include full

theorem value_listed (byte : UInt8) : byte ∈ box.toList := by
  rw [← value_set_exact, full, Nat.testBit_two_pow_sub_one, decide_eq_true_iff]
  exact byte.toNat_lt

theorem apply_inverse (byte : UInt8) : box.apply (box.inverse.apply byte) = byte := by
  have place : box.toList.idxOf byte < box.toList.length :=
    List.idxOf_lt_length_of_mem (value_listed box full byte)
  have index : (UInt8.ofNat (box.toList.idxOf byte)).toNat = box.toList.idxOf byte := by
    rw [Vector.length_toList] at place
    simpa using place
  rw [apply_exact]
  simp only [inverse_exact, index]
  exact List.getElem_idxOf place

theorem inverse_apply (byte : UInt8) : box.inverse.apply (box.apply byte) = byte := by
  -- There are as many places as bytes, so no byte has two.
  have onto : Function.Surjective box.apply := fun byte => ⟨_, apply_inverse box full byte⟩
  apply Finite.injective_iff_surjective.mpr onto
  rw [apply_inverse box full]

end Substitution

section Rotations
variable (value amount : UInt32) (some : 0 < amount.toNat) (inside : amount.toNat < 32)
include some inside

theorem rotate_left_bits :
    (rotateLeft32 value amount).toBitVec = value.toBitVec.rotateLeft amount.toNat := by
  rw [BitVec.rotateLeft_def, rotateLeft32, UInt32.toBitVec_or, UInt32.toBitVec_shiftLeft,
    UInt32.toBitVec_shiftRight, BitVec.shiftLeft_eq', BitVec.ushiftRight_eq']
  congr 2
  simp [BitVec.toNat_umod]
  omega

theorem rotate_right_bits :
    (rotateRight32 value amount).toBitVec = value.toBitVec.rotateRight amount.toNat := by
  rw [BitVec.rotateRight_def, rotateRight32, UInt32.toBitVec_or, UInt32.toBitVec_shiftLeft,
    UInt32.toBitVec_shiftRight, BitVec.shiftLeft_eq', BitVec.ushiftRight_eq']
  congr 2
  simp [BitVec.toNat_umod]
  omega

theorem rotate_right_left : rotateRight32 (rotateLeft32 value amount) amount = value := by
  apply UInt32.toBitVec_inj.mp
  rw [rotate_right_bits _ _ some inside, rotate_left_bits _ _ some inside]
  apply BitVec.eq_of_getLsbD_eq
  intro place within
  -- A bit that went over the top is found below the amount.
  by_cases low : place < 32 - amount.toNat
  · rw [BitVec.getLsbD_rotateRight_of_lt inside, decide_eq_true low, cond_true,
      BitVec.getLsbD_rotateLeft_of_le inside]
    simp
    omega
  · rw [BitVec.getLsbD_rotateRight_of_lt inside, decide_eq_false low, cond_false,
      BitVec.getLsbD_rotateLeft_of_le inside]
    have below : place - (32 - amount.toNat) < amount.toNat := by omega
    have back : 32 - amount.toNat + (place - (32 - amount.toNat)) = place := by omega
    simp [within, below, back]

theorem rotate_left_right : rotateLeft32 (rotateRight32 value amount) amount = value := by
  apply UInt32.toBitVec_inj.mp
  rw [rotate_left_bits _ _ some inside, rotate_right_bits _ _ some inside]
  apply BitVec.eq_of_getLsbD_eq
  intro place within
  by_cases low : place < amount.toNat
  · have back : 32 - amount.toNat + place - (32 - amount.toNat) = place := by omega
    rw [BitVec.getLsbD_rotateLeft_of_le inside, decide_eq_true low, cond_true,
      BitVec.getLsbD_rotateRight_of_lt inside]
    simp [back]
    omega
  · have below : place - amount.toNat < 32 - amount.toNat := by omega
    have back : amount.toNat + (place - amount.toNat) = place := by omega
    rw [BitVec.getLsbD_rotateLeft_of_le inside, decide_eq_false low, cond_false,
      BitVec.getLsbD_rotateRight_of_lt inside]
    simp [within, below, back]

end Rotations

end SymmetricKey
