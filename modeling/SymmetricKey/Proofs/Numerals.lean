import SymmetricKey.Endian
import Mathlib.Data.List.Induction
import Mathlib.Data.Nat.ModEq
import Mathlib.Tactic.Ring

/-!
Byte strings as numbers. A string of a given length and a number below the
matching power of 256 determine each other, in both byte orders; a numeral
keeps of a larger number what its width can hold.
-/

namespace SymmetricKey

namespace LittleEndian

def number : Bytes → Nat
  | [] => 0
  | byte :: rest => byte.toNat + 256 * number rest

/-- The lowest `width` digits to the base 256, the lowest first. -/
def numeral : Nat → Nat → Bytes
  | 0, _ => []
  | width + 1, value => UInt8.ofNat value :: numeral width (value / 256)

@[simp] theorem numeral_length (width value : Nat) : (numeral width value).length = width := by
  induction width generalizing value with
  | zero => rfl
  | succ width ih => simp [numeral, ih]

theorem number_numeral (width value : Nat) :
    number (numeral width value) = value % 256 ^ width := by
  induction width generalizing value with
  | zero => simp [numeral, number, Nat.mod_one]
  | succ width ih =>
      have digit : (UInt8.ofNat value).toNat = value % 256 := by simp
      have split : value % 256 ^ (width + 1) = value % 256 + 256 * (value / 256 % 256 ^ width) := by
        rw [pow_succ', Nat.mod_mul]
      rw [numeral, number, ih, digit, split]

theorem numeral_number (bytes : Bytes) : numeral bytes.length (number bytes) = bytes := by
  induction bytes with
  | nil => rfl
  | cons byte rest ih =>
      have digit := byte.toNat_lt
      have lowest : UInt8.ofNat (byte.toNat + 256 * number rest) = byte := by
        apply UInt8.toNat_inj.mp
        simp
      have higher : (byte.toNat + 256 * number rest) / 256 = number rest := by omega
      rw [List.length_cons, number, numeral, lowest, higher, ih]

theorem numeral_mod (width value : Nat) :
    numeral width (value % 256 ^ width) = numeral width value := by
  have back := numeral_number (numeral width value)
  rwa [numeral_length, number_numeral] at back

theorem numeral_digit (width value index : Nat) (inside : index < width) :
    (numeral width value)[index]? = some (UInt8.ofNat (value / 256 ^ index)) := by
  induction width generalizing value index with
  | zero => omega
  | succ width ih =>
      cases index with
      | zero => simp [numeral]
      | succ index =>
          have tail := ih (value / 256) index (by omega)
          rw [numeral, List.getElem?_cons_succ, tail, Nat.div_div_eq_div_mul, ← pow_succ']

theorem numeral_zero (width : Nat) : numeral width 0 = Bytes.zeros width := by
  induction width with
  | zero => rfl
  | succ width ih =>
      rw [numeral, Nat.zero_div, ih]
      rfl

theorem numeral_wide (width more value : Nat) (bounded : value < 256 ^ width) :
    numeral (width + more) value = numeral width value ++ Bytes.zeros more := by
  induction width generalizing value with
  | zero =>
      have none : value = 0 := by omega
      rw [none, Nat.zero_add, numeral_zero]
      rfl
  | succ width ih =>
      have lower : value / 256 < 256 ^ width := by
        rw [pow_succ] at bounded
        omega
      rw [Nat.succ_add_eq_add_succ, Nat.add_succ, numeral, ih _ lower, numeral, List.cons_append]

theorem numeral_top (width value : Nat) :
    numeral (width + 1) value = numeral width value ++ [UInt8.ofNat (value / 256 ^ width)] := by
  induction width generalizing value with
  | zero => simp [numeral]
  | succ width ih =>
      rw [numeral, ih, numeral, List.cons_append, Nat.div_div_eq_div_mul, ← pow_succ']

end LittleEndian

namespace BigEndian

def number (bytes : Bytes) : Nat := LittleEndian.number bytes.reverse

/-- The lowest `width` digits to the base 256, the lowest last. -/
def numeral (width value : Nat) : Bytes := (LittleEndian.numeral width value).reverse

@[simp] theorem numeral_length (width value : Nat) : (numeral width value).length = width := by
  simp [numeral]

theorem number_numeral (width value : Nat) :
    number (numeral width value) = value % 256 ^ width := by
  rw [number, numeral, List.reverse_reverse, LittleEndian.number_numeral]

theorem numeral_number (bytes : Bytes) : numeral bytes.length (number bytes) = bytes := by
  have back := LittleEndian.numeral_number bytes.reverse
  rw [List.length_reverse] at back
  rw [numeral, number, back, List.reverse_reverse]

theorem numeral_mod (width value : Nat) :
    numeral width (value % 256 ^ width) = numeral width value := by
  rw [numeral, LittleEndian.numeral_mod, numeral]

theorem number_snoc (bytes : Bytes) (last : UInt8) :
    number (bytes ++ [last]) = 256 * number bytes + last.toNat := by
  simp [number, LittleEndian.number, Nat.add_comm]

theorem numeral_wide (width more value : Nat) (bounded : value < 256 ^ width) :
    numeral (width + more) value = Bytes.zeros more ++ numeral width value := by
  rw [numeral, LittleEndian.numeral_wide width more value bounded, List.reverse_append, numeral,
    Bytes.zeros, List.reverse_replicate]

theorem numeral_top (width value : Nat) :
    numeral (width + 1) value = UInt8.ofNat (value / 256 ^ width) :: numeral width value := by
  rw [numeral, LittleEndian.numeral_top, List.reverse_append, numeral]
  rfl

theorem numeral_digit (width value index : Nat) (inside : index < width) :
    (numeral width value)[index]? = some (UInt8.ofNat (value / 256 ^ (width - 1 - index))) := by
  have mirrored : width - 1 - index < width := by omega
  rw [numeral, List.getElem?_reverse (by simpa using inside), LittleEndian.numeral_length,
    LittleEndian.numeral_digit width value _ mirrored]

theorem bytes32_exact (value : UInt32) : bytes32 value = numeral 4 value.toNat := by
  simp only [bytes32, numeral, LittleEndian.numeral, List.reverse_cons, List.reverse_nil,
    List.nil_append, List.cons_append, List.cons.injEq, ← UInt8.toNat_inj]
  simp [Nat.shiftRight_eq_div_pow]
  omega

theorem bytes64_exact (value : UInt64) : bytes64 value = numeral 8 value.toNat := by
  have bound := value.toNat_lt
  simp only [bytes64, bytes32, numeral, LittleEndian.numeral, List.reverse_cons, List.reverse_nil,
    List.nil_append, List.cons_append, List.cons.injEq, ← UInt8.toNat_inj]
  simp [Nat.shiftRight_eq_div_pow]
  omega

-- A count of bits wraps round in the word where eight bytes of its numeral do.
theorem bytes64_bits (length : Nat) :
    bytes64 (UInt64.ofNat length * 8) = numeral 8 (8 * length) := by
  have wrapped : (UInt64.ofNat length * 8).toNat = 8 * length % 256 ^ 8 := by
    simp only [UInt64.toNat_mul, UInt64.toNat_ofNat', UInt64.reduceToNat]
    omega
  rw [bytes64_exact, wrapped, numeral_mod]

theorem number128_exact (bytes : Bytes) : number128 bytes = BitVec.ofNat 128 (number bytes) := by
  induction bytes using List.reverseRecOn with
  | nil => rfl
  | append_singleton bytes last ih =>
      have digit := last.toNat_lt
      rw [number128] at ih ⊢
      have apart : BitVec.ofNat 128 (number bytes) <<< 8 &&& last.toBitVec.setWidth 128 =
          0#128 := by
        apply BitVec.eq_of_getLsbD_eq
        intro index _
        by_cases low : index < 8
        · simp [low]
        · have none : last.toBitVec.getLsbD index = false := BitVec.getLsbD_of_ge _ _ (by omega)
          simp [none]
      rw [List.foldl_append, ih, number_snoc, List.foldl_cons, List.foldl_nil,
        ← BitVec.add_eq_or_of_and_eq_zero _ _ apart]
      apply BitVec.eq_of_toNat_eq
      simp only [BitVec.toNat_add, BitVec.toNat_shiftLeft, BitVec.toNat_ofNat,
        BitVec.toNat_setWidth, Nat.shiftLeft_eq, UInt8.toNat_toBitVec]
      omega

theorem bytes128_exact (value : BitVec 128) : bytes128 value = numeral 16 value.toNat := by
  apply List.ext_getElem?
  intro index
  by_cases inside : index < 16
  · have place : (256 : Nat) ^ (16 - 1 - index) = 2 ^ (8 * (15 - index)) := by
      rw [Nat.pow_mul]
    rw [numeral_digit 16 value.toNat index inside]
    simp [bytes128, inside, place, ← UInt8.toNat_inj, Nat.shiftRight_eq_div_pow]
  · have past : ∀ bytes : Bytes, bytes.length = 16 → bytes[index]? = none := by
      intro bytes whole
      exact List.getElem?_eq_none (by omega)
    rw [past _ (by simp [bytes128]), past _ (numeral_length 16 _)]

end BigEndian

end SymmetricKey
