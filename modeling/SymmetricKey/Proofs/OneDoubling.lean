import SymmetricKey.Proofs.BlockDoubling
import SymmetricKey.Proofs.QuotientField

/-!
Three loops that double a block: forward from byte to byte, backward with a masked
reduction, and one shift to the right of a number in reflected order. Read in its own
order each of them multiplies by `x` and divides by the same modulus, so that they are
one operation up to the order of bits and bytes. None of them makes two blocks equal.
-/

namespace SymmetricKey.Field

open Polynomial

theorem carry_joined (byte top : UInt8) :
    (byte <<< 1) ||| (top >>> 7) = (byte <<< 1) ^^^ (top >>> 7) := by
  rcases BigEndian.carry_bit top with clear | set
  · rw [clear, UInt8.or_zero, UInt8.xor_zero]
  · rw [set]
    revert byte
    decide +kernel

theorem masked_reduction (top reduction : UInt8) :
    reduction &&& ((0 : UInt8) - (top >>> 7)) = carryOf top reduction := by
  rcases BigEndian.carry_bit top with clear | set
  · rw [carryOf, clear, if_pos rfl]
    exact UInt8.and_zero
  · rw [carryOf, set, if_neg (by decide)]
    exact UInt8.and_neg_one

namespace LittleEndian

/-- The bytes moved by one bit from the first one on, and the bit that is left over. -/
def carried : UInt8 → Bytes → Bytes × UInt8
  | carry, [] => ([], carry)
  | carry, byte :: rest =>
      let (moved, out) := carried (byte >>> 7) rest
      (((byte <<< 1) ||| carry) :: moved, out)

def doubleInPlace (reduction : UInt8) (block : Bytes) : Bytes :=
  let (moved, carry) := carried 0 block
  if carry ≠ 0 then moved.modify 0 (· ^^^ reduction) else moved

theorem carried_exact (before byte : UInt8) (rest : Bytes) :
    carried (before >>> 7) (byte :: rest) =
      (shift (before >>> 7) (byte :: rest), (byte :: rest).getLastD 0 >>> 7) := by
  induction rest generalizing before byte with
  | nil => rw [carried, carried, carry_joined, shift, shift, List.getLastD_cons, List.getLastD_nil]
  | cons next rest ih =>
      rw [carried, ih, carry_joined, List.getLastD_cons, List.getLastD_cons, List.getLastD_cons]
      rfl

theorem double_in_place (reduction : UInt8) (block : Bytes) (some : block ≠ []) :
    doubleInPlace reduction block = double reduction block := by
  cases block with
  | nil => exact absurd rfl some
  | cons byte rest =>
      have loop : carried 0 (byte :: rest) =
          (shift 0 (byte :: rest), (byte :: rest).getLastD 0 >>> 7) := carried_exact 0 byte rest
      rw [doubleInPlace, loop, double, carryOf]
      by_cases clear : (byte :: rest).getLastD 0 >>> 7 = 0
      · rw [if_pos clear]
        exact if_neg (not_not_intro clear)
      · have first : (shift 0 (byte :: rest)).modify 0 (· ^^^ reduction) =
            shift reduction (byte :: rest) := by
          rw [shift, shift, List.modify_zero_cons, UInt8.xor_zero]
        rw [if_neg clear, ← first]
        exact if_pos clear

end LittleEndian

namespace BigEndian

def carried : Bytes → Bytes × UInt8
  | [] => ([], 0)
  | byte :: rest =>
      let (moved, out) := carried rest
      (((byte <<< 1) ||| out) :: moved, byte >>> 7)

def doubleInPlace (reduction : UInt8) (block : Bytes) : Bytes :=
  let top := block.headD 0 >>> 7
  (carried block).1.modify (block.length - 1) (· ^^^ (reduction &&& ((0 : UInt8) - top)))

theorem carried_exact (byte : UInt8) (rest : Bytes) :
    carried (byte :: rest) = (shift 0 (byte :: rest), byte >>> 7) := by
  induction rest generalizing byte with
  | nil => exact congrArg (fun low => ([low], byte >>> 7)) (UInt8.or_zero.trans UInt8.xor_zero.symm)
  | cons next rest ih =>
      rw [carried, ih]
      exact congrArg (fun high => (high :: shift 0 (next :: rest), byte >>> 7))
        (carry_joined byte next)

-- The last byte takes a carry afterwards as it would have taken it at first.
theorem last_changed (carry byte : UInt8) (rest : Bytes) :
    (shift 0 (byte :: rest)).modify rest.length (· ^^^ carry) = shift carry (byte :: rest) := by
  induction rest generalizing byte with
  | nil => rw [shift, shift, List.length_nil, List.modify_zero_cons, UInt8.xor_zero]
  | cons next rest ih => rw [shift, shift, List.length_cons, List.modify_succ_cons, ih]

theorem double_in_place (reduction : UInt8) (block : Bytes) (some : block ≠ []) :
    doubleInPlace reduction block = double reduction block := by
  cases block with
  | nil => exact absurd rfl some
  | cons byte rest =>
      simp only [doubleInPlace, List.headD_cons, masked_reduction, carried_exact, List.length_cons,
        Nat.add_sub_cancel]
      rw [last_changed, double, List.headD_cons]

end BigEndian

/-- Values that are read as remainders, each as another one, are multiplied by `x` and reduced. No
two of them are made equal. -/
structure MultipliesByX {Value : Type} (valid : Value → Prop) (polynomial : Value → (ZMod 2)[X])
    (modulus : (ZMod 2)[X]) (double : Value → Value) : Prop where
  reduced : ∀ value, valid value → (polynomial value).degree < modulus.degree
  faithful : ∀ left right, valid left → valid right → polynomial left = polynomial right →
  left = right
  stays : ∀ value, valid value → valid (double value)
  exact : ∀ value, valid value → polynomial (double value) = (X * polynomial value) %ₘ modulus
  injective : ∀ left right, valid left → valid right → double left = double right → left = right

theorem coprime_of_constant (modulus : (ZMod 2)[X]) (constant : modulus.coeff 0 = 1) :
    IsCoprime X modulus := by
  have split := divX_mul_X_add modulus
  rw [constant, map_one] at split
  exact ⟨-modulus.divX, 1, by linear_combination -split⟩

theorem factor_divided_out (modulus left right : (ZMod 2)[X]) (monic : modulus.Monic)
    (constant : modulus.coeff 0 = 1) (leftReduced : left.degree < modulus.degree)
    (rightReduced : right.degree < modulus.degree)
    (same : (X * left) %ₘ modulus = (X * right) %ₘ modulus) : left = right := by
  -- Where the modulus has a constant term, `x` can be divided out of remainders.
  have divides : modulus ∣ X * (left - right) := by
    rw [← modByMonic_eq_zero_iff_dvd monic, mul_sub, sub_modByMonic, same, sub_self]
  have factor : modulus ∣ left - right :=
    (coprime_of_constant modulus constant).symm.dvd_of_dvd_mul_left divides
  by_contra different
  exact monic.not_dvd_of_degree_lt (sub_ne_zero.mpr different)
    ((degree_sub_le _ _).trans_lt (max_lt leftReduced rightReduced)) factor

section Doubling
variable {Value : Type} {valid : Value → Prop} {polynomial : Value → (ZMod 2)[X]}
variable {modulus : (ZMod 2)[X]} {double : Value → Value}

theorem MultipliesByX.of_exact (monic : modulus.Monic) (constant : modulus.coeff 0 = 1)
    (reduced : ∀ value, valid value → (polynomial value).degree < modulus.degree)
    (faithful : ∀ left right, valid left → valid right → polynomial left = polynomial right →
      left = right)
    (stays : ∀ value, valid value → valid (double value))
    (exact : ∀ value, valid value → polynomial (double value) = (X * polynomial value) %ₘ modulus) :
    MultipliesByX valid polynomial modulus double where
  reduced := reduced
  faithful := faithful
  stays := stays
  exact := exact
  injective left right validLeft validRight same := by
    apply faithful left right validLeft validRight
    apply factor_divided_out modulus _ _ monic constant (reduced left validLeft)
      (reduced right validRight)
    rw [← exact left validLeft, ← exact right validRight, same]

theorem MultipliesByX.along {Other : Type} {validOther : Other → Prop}
    {polynomialOther : Other → (ZMod 2)[X]} {other : Other → Other}
    (doubles : MultipliesByX valid polynomial modulus double) (view : Other → Value)
    (view_injective : Function.Injective view)
    (inside : ∀ value, validOther value ↔ valid (view value))
    (read : ∀ value, polynomialOther value = polynomial (view value))
    (viewed : ∀ value, validOther value → view (other value) = double (view value)) :
    MultipliesByX validOther polynomialOther modulus other where
  reduced value within := read value ▸ doubles.reduced _ ((inside value).mp within)
  faithful left right within otherWithin same := by
    rw [read, read] at same
    exact view_injective
      (doubles.faithful _ _ ((inside left).mp within) ((inside right).mp otherWithin) same)
  stays value within := by
    rw [inside, viewed value within]
    exact doubles.stays _ ((inside value).mp within)
  exact value within := by
    rw [read, read, viewed value within]
    exact doubles.exact _ ((inside value).mp within)
  injective left right within otherWithin same := by
    have same := congrArg view same
    rw [viewed left within, viewed right otherWithin] at same
    exact view_injective
      (doubles.injective _ _ ((inside left).mp within) ((inside right).mp otherWithin) same)

end Doubling

namespace BigEndian

theorem modulus_constant (size : Nat) (positive : 0 < size) (reduction : UInt8)
    (odd : reduction.toBitVec.getLsbD 0 = true) : (modulus size reduction).coeff 0 = 1 := by
  have high : 0 ≠ 8 * size := by omega
  rw [modulus, coeff_add, coeff_X_pow, if_neg high, byte_coeff, if_pos odd, zero_add]

theorem double_multiplies (size : Nat) (positive : 0 < size) (reduction : UInt8)
    (odd : reduction.toBitVec.getLsbD 0 = true) :
    MultipliesByX (fun block : Bytes => block.length = size) polynomial (modulus size reduction)
      (doubleInPlace reduction) := by
  have some (block : Bytes) (whole : block.length = size) : block ≠ [] :=
    List.length_pos_iff.mp (whole ▸ positive)
  apply MultipliesByX.of_exact (modulus_monic size positive reduction)
    (modulus_constant size positive reduction odd)
  · intro block whole
    rw [modulus_degree size positive, ← whole]
    exact polynomial_degree block
  · intro left right whole otherWhole
    exact polynomial_injective left right (whole.trans otherWhole.symm)
  · intro block whole
    rw [double_in_place reduction block (some block whole), double_length, whole]
  · intro block whole
    have exact := double_exact reduction block (some block whole)
    rw [double_in_place reduction block (some block whole), exact, whole]

end BigEndian

namespace LittleEndian

theorem double_turned (reduction : UInt8) (block : Bytes) (some : block ≠ []) :
    (doubleInPlace reduction block).reverse = BigEndian.doubleInPlace reduction block.reverse := by
  have turned : block.reverse ≠ [] := List.reverse_ne_nil_iff.mpr some
  have mirrored := double_reverse reduction block.reverse
  rw [List.reverse_reverse] at mirrored
  rw [double_in_place _ _ some, BigEndian.double_in_place _ _ turned, mirrored,
    List.reverse_reverse]

theorem double_multiplies (size : Nat) (positive : 0 < size) (reduction : UInt8)
    (odd : reduction.toBitVec.getLsbD 0 = true) :
    MultipliesByX (fun block : Bytes => block.length = size) polynomial
      (BigEndian.modulus size reduction) (doubleInPlace reduction) := by
  apply (BigEndian.double_multiplies size positive reduction odd).along List.reverse
    List.reverse_injective
  · intro block
    rw [List.length_reverse]
  · intro block
    rw [← polynomial_reverse, List.reverse_reverse]
  · intro block whole
    exact double_turned reduction block (List.length_pos_iff.mp (whole ▸ positive))

/-- Coefficient `power` of a block whose first byte holds the lowest ones. -/
def coefficient (block : Bytes) (power : Nat) : Bool :=
  (block.getD (power / 8) 0).toBitVec.getLsbD (power % 8)

theorem polynomial_coeff (block : Bytes) (power : Nat) :
    (polynomial block).coeff power = if coefficient block power then 1 else 0 := by
  induction block generalizing power with
  | nil => simp [polynomial, coefficient]
  | cons byte rest ih =>
      rw [polynomial, coeff_add, BigEndian.byte_coeff, coeff_X_pow_mul']
      by_cases first : power < 8
      · have row : power / 8 = 0 := by omega
        have column : power % 8 = power := by omega
        rw [if_neg (by omega : ¬8 ≤ power), add_zero, coefficient, row, column, List.getD_cons_zero]
      · have row : power / 8 = (power - 8) / 8 + 1 := by omega
        have column : power % 8 = (power - 8) % 8 := by omega
        have outside : byte.toBitVec.getLsbD power = false := BitVec.getLsbD_of_ge _ _ (by omega)
        rw [outside, if_neg Bool.false_ne_true, zero_add, if_pos (by omega), ih, coefficient,
          coefficient, row, column, List.getD_cons_succ]

end LittleEndian

namespace Reflected

theorem double_exact (value : BitVec 128) :
    polynomial (double value) = (X * polynomial value) %ₘ modulus128 := by
  have residues := residue_double value
  rw [residue, residue, ← AdjoinRoot.mk_X, ← map_mul] at residues
  have low : (polynomial (double value)).degree < modulus128.degree :=
    degree_lt_degree ((polynomial_degree _).trans_eq modulus128_degree.symm)
  rw [← (modByMonic_eq_self_iff modulus128_monic).mpr low]
  exact modByMonic_eq_of_dvd_sub modulus128_monic (AdjoinRoot.mk_eq_mk.mp residues)

theorem polynomial_injective : Function.Injective polynomial := by
  intro left right same
  apply residue_injective
  rw [residue, residue, same]

theorem double_multiplies : MultipliesByX (fun _ => True) polynomial modulus128 double := by
  apply MultipliesByX.of_exact modulus128_monic modulus128_constant
  · intro value _
    exact degree_lt_degree ((polynomial_degree _).trans_eq modulus128_degree.symm)
  · intro left right _ _ same
    exact polynomial_injective same
  · exact fun _ _ => trivial
  · exact fun value _ => double_exact value

/-- The number whose bit `127 - k` is coefficient `k` of the block. -/
def ofBlock (block : Bytes) : BitVec 128 :=
  BitVec.ofFnBE fun power : Fin 128 => LittleEndian.coefficient block power.val

theorem of_block_bit (block : Bytes) (power : Nat) (inside : power < 128) :
    (ofBlock block).getLsbD (127 - power) = LittleEndian.coefficient block power := by
  have place : 127 - power < 128 := by omega
  rw [BitVec.getLsbD_eq_getElem place, ofBlock, BitVec.getElem_ofFnBE, Fin.val_rev]
  congr 1
  simp only
  omega

theorem of_block_polynomial (block : Bytes) (whole : block.length = 16) :
    polynomial (ofBlock block) = LittleEndian.polynomial block := by
  ext power
  rw [polynomial_coeff, LittleEndian.polynomial_coeff]
  by_cases inside : power < 128
  · have bit : (ofBlock block).getMsbD power = LittleEndian.coefficient block power := by
      rw [BitVec.getMsbD_eq_getLsbD, decide_eq_true inside, Bool.true_and]
      exact of_block_bit block power inside
    rw [bit]
  · have behind : (ofBlock block).getMsbD power = false := by simp [BitVec.getMsbD, inside]
    have missing : LittleEndian.coefficient block power = false := by
      rw [LittleEndian.coefficient, List.getD_eq_default _ _ (by omega)]
      exact BitVec.getLsbD_zero
    rw [behind, missing]

end Reflected

-- Between the reflected order and that of a string the doublings go over into one another.
theorem double_of_block (block : Bytes) (whole : block.length = 16) :
    Reflected.double (Reflected.ofBlock block) =
      Reflected.ofBlock (LittleEndian.doubleInPlace reduction128 block) := by
  have doubled := LittleEndian.double_multiplies 16 (by decide) reduction128 (by decide)
  apply Reflected.polynomial_injective
  rw [Reflected.double_exact, Reflected.of_block_polynomial block whole,
    Reflected.of_block_polynomial _ (doubled.stays block whole), doubled.exact block whole,
    BigEndian.modulus_of_reduction128]

theorem doublings_are_one :
    MultipliesByX (fun block : Bytes => block.length = 16) LittleEndian.polynomial modulus128
      (LittleEndian.doubleInPlace reduction128) ∧
    MultipliesByX (fun block : Bytes => block.length = 16) BigEndian.polynomial modulus128
      (BigEndian.doubleInPlace reduction128) ∧
    MultipliesByX (fun _ => True) Reflected.polynomial modulus128 Reflected.double ∧
    MultipliesByX (fun block : Bytes => block.length = 8) BigEndian.polynomial modulus64
      (BigEndian.doubleInPlace reduction64) ∧
    (∀ block : Bytes, block.length = 16 →
      BigEndian.doubleInPlace reduction128 block.reverse =
        (LittleEndian.doubleInPlace reduction128 block).reverse ∧
      Reflected.double (Reflected.ofBlock block) =
        Reflected.ofBlock (LittleEndian.doubleInPlace reduction128 block) ∧
      ∀ power < 128, (Reflected.ofBlock block).getLsbD (127 - power) =
        decide ((LittleEndian.polynomial block).coeff power = 1)) ∧
    ∀ (reduction : UInt8) (block : Bytes), block ≠ [] →
      LittleEndian.doubleInPlace reduction block = LittleEndian.double reduction block ∧
      BigEndian.doubleInPlace reduction block = BigEndian.double reduction block := by
  have forward := LittleEndian.double_multiplies 16 (by decide) reduction128 (by decide)
  have backward := BigEndian.double_multiplies 16 (by decide) reduction128 (by decide)
  have narrow := BigEndian.double_multiplies 8 (by decide) reduction64 (by decide)
  rw [BigEndian.modulus_of_reduction128] at forward backward
  rw [BigEndian.modulus_of_reduction64] at narrow
  refine ⟨forward, backward, Reflected.double_multiplies, narrow,
    fun block whole => ⟨?_, double_of_block block whole, fun power inside => ?_⟩,
    fun reduction block some => ⟨LittleEndian.double_in_place reduction block some,
      BigEndian.double_in_place reduction block some⟩⟩
  · have some : block ≠ [] := List.length_pos_iff.mp (by omega)
    exact (LittleEndian.double_turned reduction128 block some).symm
  · rw [Reflected.of_block_bit block power inside, LittleEndian.polynomial_coeff]
    cases LittleEndian.coefficient block power <;> decide

/-- The highest power of `x` is doubled to the terms of the modulus below it. -/
theorem highest_power_reduced :
    LittleEndian.doubleInPlace reduction128 (Bytes.zeros 15 ++ [0x80]) = 0x87 :: Bytes.zeros 15 ∧
    BigEndian.doubleInPlace reduction128 (0x80 :: Bytes.zeros 15) = Bytes.zeros 15 ++ [0x87] ∧
    Reflected.ofBlock (Bytes.zeros 15 ++ [0x80]) = 1 ∧ Reflected.double 1 = Reflected.reduction ∧
    BigEndian.doubleInPlace reduction64 (0x80 :: Bytes.zeros 7) = Bytes.zeros 7 ++ [0x1B] ∧
    (X * LittleEndian.polynomial (Bytes.zeros 15 ++ [0x80])) %ₘ modulus128 =
      LittleEndian.polynomial (0x87 :: Bytes.zeros 15) ∧
    BigEndian.double reduction128 (0x80 :: Bytes.zeros 15) = Bytes.zeros 15 ++ [0x87] ∧
    Reflected.double (Reflected.ofBlock (Bytes.zeros 15 ++ [0x80])) =
      Reflected.ofBlock (0x87 :: Bytes.zeros 15) := by
  obtain ⟨forward, -, -, -, orders, loops⟩ := doublings_are_one
  have doubled : LittleEndian.doubleInPlace reduction128 (Bytes.zeros 15 ++ [0x80]) =
      0x87 :: Bytes.zeros 15 := by decide
  have exact := forward.exact (Bytes.zeros 15 ++ [0x80]) rfl
  obtain ⟨turned, reflected, -⟩ := orders (Bytes.zeros 15 ++ [0x80]) rfl
  obtain ⟨-, loop⟩ := loops reduction128 (0x80 :: Bytes.zeros 15) (by decide)
  rw [doubled] at exact turned reflected
  exact ⟨doubled, turned, by decide +kernel, by decide, by decide, exact.symm,
    loop.symm.trans turned, reflected⟩

end SymmetricKey.Field
