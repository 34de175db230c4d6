import SymmetricKey.Proofs.FieldModuli
import SymmetricKey.Proofs.ReflectedProduct

/-!
The reflected numbers as polynomials over the two-element field modulo
`x^128 + x^7 + x^2 + x + 1`: exclusive or is addition, doubling is
multiplication by `x`, and the bit-serial product is the product. Different
numbers are different residues, so these equations determine the operations.
-/

namespace SymmetricKey.Field.Reflected

open Polynomial

/-- Bit 127 is the coefficient of `x^0`. -/
noncomputable def polynomial (value : BitVec 128) : (ZMod 2)[X] :=
  ∑ power ∈ Finset.range 128, if value.getMsbD power then X ^ power else 0

noncomputable def residue (value : BitVec 128) : AdjoinRoot modulus128 :=
  AdjoinRoot.mk modulus128 (polynomial value)

theorem polynomial_coeff (value : BitVec 128) (power : Nat) :
    (polynomial value).coeff power = if value.getMsbD power then 1 else 0 := by
  have term : ∀ index, (if value.getMsbD index then (X : (ZMod 2)[X]) ^ index else 0).coeff power =
      if power = index then (if value.getMsbD power then 1 else 0) else 0 := by
    intro index
    by_cases same : power = index
    · cases set : value.getMsbD index <;> simp [same, set]
    · cases set : value.getMsbD index <;> simp [same, coeff_X_pow]
  rw [polynomial, finsetSum_coeff, Finset.sum_congr rfl fun index _ => term index,
    Finset.sum_ite_eq]
  by_cases inside : power < 128
  · simp [inside]
  · have none : value.getMsbD power = false := by simp [BitVec.getMsbD, inside]
    simp [none]

theorem polynomial_xor (left right : BitVec 128) :
    polynomial (left ^^^ right) = polynomial left + polynomial right := by
  ext power
  rw [coeff_add, polynomial_coeff, polynomial_coeff, polynomial_coeff, BitVec.getMsbD_xor]
  cases left.getMsbD power <;> cases right.getMsbD power <;> decide

theorem polynomial_degree (value : BitVec 128) : (polynomial value).natDegree < 128 := by
  have bound : (polynomial value).natDegree ≤ 127 := by
    rw [natDegree_le_iff_coeff_eq_zero]
    intro power above
    rw [polynomial_coeff]
    simp [BitVec.getMsbD]
    omega
  omega

theorem residue_zero : residue 0 = 0 := by
  have none : polynomial 0 = 0 := by simp [polynomial]
  rw [residue, none, map_zero]

theorem residue_xor (left right : BitVec 128) :
    residue (left ^^^ right) = residue left + residue right := by
  rw [residue, polynomial_xor, map_add, residue, residue]

theorem residue_injective : Function.Injective residue := by
  intro left right same
  have none : residue (left ^^^ right) = 0 := by
    calc residue (left ^^^ right) = residue right + residue right := by
          simp only [residue_xor, same]
      _ = residue (right ^^^ right) := (residue_xor right right).symm
      _ = residue 0 := congrArg residue BitVec.xor_self
      _ = 0 := residue_zero
  have divides : modulus128 ∣ polynomial (left ^^^ right) := AdjoinRoot.mk_eq_zero.mp none
  have small : polynomial (left ^^^ right) = 0 := by
    by_contra present
    exact modulus128_monic.not_dvd_of_natDegree_lt present
      ((polynomial_degree (left ^^^ right)).trans_eq modulus128_degree.symm) divides
  apply BitVec.eq_of_getMsbD_eq
  intro power _
  have bit := polynomial_coeff (left ^^^ right) power
  rw [small, coeff_zero, BitVec.getMsbD_xor] at bit
  cases first : left.getMsbD power <;> cases second : right.getMsbD power <;>
    simp [first, second] at bit ⊢

theorem two_zero : (2 : AdjoinRoot modulus128) = 0 := by
  have two : (2 : ZMod 2) = 0 := by decide
  calc (2 : AdjoinRoot modulus128) = AdjoinRoot.of modulus128 2 :=
    (map_ofNat (AdjoinRoot.of modulus128) 2).symm
    _ = AdjoinRoot.of modulus128 0 := congrArg (AdjoinRoot.of modulus128) two
    _ = 0 := map_zero (AdjoinRoot.of modulus128)

theorem root_power : (AdjoinRoot.root modulus128) ^ 128 = residue reduction := by
  have bits : (Finset.range 128).filter (fun power => reduction.getMsbD power = true) =
      {0, 1, 2, 7} := by decide +kernel
  have value : polynomial reduction = X ^ 7 + X ^ 2 + X + 1 := by
    unfold polynomial
    rw [← Finset.sum_filter, bits]
    simp
    ring
  -- The modulus is zero, and so is everything that is there twice.
  have whole : AdjoinRoot.mk modulus128 modulus128 = 0 := AdjoinRoot.mk_self
  conv at whole => lhs; arg 2; unfold modulus128
  simp only [residue, value, map_add, map_pow, map_one, AdjoinRoot.mk_X] at whole ⊢
  linear_combination whole - (AdjoinRoot.root modulus128 ^ 7 + AdjoinRoot.root modulus128 ^ 2 +
    AdjoinRoot.root modulus128 + 1) * two_zero

theorem polynomial_shift (value : BitVec 128) :
    X * polynomial value =
      polynomial (value >>> 1) + if value.getLsbD 0 then X ^ 128 else 0 := by
  have moved : ∀ power, X * (if value.getMsbD power then (X : (ZMod 2)[X]) ^ power else 0) =
      if value.getMsbD power then X ^ (power + 1) else 0 := by
    intro power
    rw [mul_ite, mul_zero, pow_succ']
  have kept : ∀ power ∈ Finset.range 127,
      (if (value >>> 1).getMsbD (power + 1) then (X : (ZMod 2)[X]) ^ (power + 1) else 0) =
      if value.getMsbD power then X ^ (power + 1) else 0 := by
    intro power inside
    rw [Finset.mem_range] at inside
    have bit : (value >>> 1).getMsbD (power + 1) = value.getMsbD power := by
      simp [BitVec.getMsbD_ushiftRight]
      omega
    rw [bit]
  -- Nothing comes in at power zero, and the highest power leaves the bits.
  have first : (value >>> 1).getMsbD 0 = false := by simp [BitVec.getMsbD_ushiftRight]
  have last : value.getMsbD 127 = value.getLsbD 0 := by simp [BitVec.getMsbD_eq_getLsbD]
  unfold polynomial
  rw [Finset.mul_sum, Finset.sum_congr rfl fun power _ => moved power, Finset.sum_range_succ,
    Finset.sum_range_succ' _ 127, Finset.sum_congr rfl kept, last, first]
  simp

theorem residue_select (chosen : Bool) (value : BitVec 128) :
    residue (if chosen then value else 0) = if chosen then residue value else 0 := by
  cases chosen
  · exact residue_zero
  · rfl

theorem residue_double (value : BitVec 128) :
    residue (double value) = AdjoinRoot.root modulus128 * residue value := by
  have shifted := congrArg (AdjoinRoot.mk modulus128) (polynomial_shift value)
  rw [map_mul, AdjoinRoot.mk_X, map_add] at shifted
  rw [double, residue_xor, residue_select, ← root_power]
  refine Eq.trans ?_ shifted.symm
  cases value.getLsbD 0 <;> simp [residue]

theorem residue_sum (terms : List (BitVec 128)) :
    residue (sum terms) = (terms.map residue).sum := by
  induction terms with
  | nil => exact residue_zero
  | cons term rest ih =>
      simp only [sum, List.foldr_cons, List.map_cons, List.sum_cons] at ih ⊢
      rw [residue_xor, ih]

theorem residue_power (power : Nat) (value : BitVec 128) :
    residue (double^[power] value) = AdjoinRoot.root modulus128 ^ power * residue value := by
  induction power with
  | zero => simp
  | succ power ih =>
      rw [Function.iterate_succ_apply', residue_double, ih, pow_succ']
      ring

theorem residue_serial_product (left right : BitVec 128) :
    residue (serialProduct left right) = residue left * residue right := by
  have term : ∀ power,
      residue (if left.getMsbD power then double^[power] right else 0) =
        AdjoinRoot.mk modulus128 (if left.getMsbD power then X ^ power else 0) * residue right := by
    intro power
    rw [residue_select]
    cases left.getMsbD power <;> simp [residue_power]
  calc residue (serialProduct left right)
      = ∑ power ∈ Finset.range 128,
          residue (if left.getMsbD power then double^[power] right else 0) := by
        rw [serialProduct, residue_sum, List.map_map]
        rfl
    _ = ∑ power ∈ Finset.range 128,
          AdjoinRoot.mk modulus128 (if left.getMsbD power then X ^ power else 0) * residue right :=
        Finset.sum_congr rfl fun power _ => term power
    _ = residue left * residue right := by
        rw [← Finset.sum_mul, ← map_sum]
        rfl

end SymmetricKey.Field.Reflected
