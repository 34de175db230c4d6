import SymmetricKey.Field.Doubling
import SymmetricKey.Proofs.FieldModuli

/-!
Byte strings as polynomials over the two-element field, the highest
coefficients first or last. Doubling a block is multiplication by `x` followed
by division by the modulus. Strings of one length are told apart by their
polynomials, so these remainders determine the doubled blocks.
-/

namespace SymmetricKey.Field

open Polynomial

namespace BigEndian

noncomputable def bytePolynomial (byte : UInt8) : (ZMod 2)[X] :=
  ∑ power ∈ Finset.range 8, if byte.toBitVec.getLsbD power then X ^ power else 0

theorem byte_coeff (byte : UInt8) (power : Nat) :
    (bytePolynomial byte).coeff power = if byte.toBitVec.getLsbD power then 1 else 0 := by
  have term : ∀ index,
      (if byte.toBitVec.getLsbD index then (X : (ZMod 2)[X]) ^ index else 0).coeff power =
        if power = index then (if byte.toBitVec.getLsbD power then 1 else 0) else 0 := by
    intro index
    by_cases same : power = index
    · cases set : byte.toBitVec.getLsbD index <;> simp [same, set]
    · cases set : byte.toBitVec.getLsbD index <;> simp [same, coeff_X_pow]
  rw [bytePolynomial, finsetSum_coeff, Finset.sum_congr rfl fun index _ => term index,
    Finset.sum_ite_eq]
  by_cases inside : power < 8
  · simp [inside]
  · have none : byte.toBitVec.getLsbD power = false := BitVec.getLsbD_of_ge _ _ (by omega)
    simp [none]

theorem byte_xor (left right : UInt8) :
    bytePolynomial (left ^^^ right) = bytePolynomial left + bytePolynomial right := by
  ext power
  rw [coeff_add, byte_coeff, byte_coeff, byte_coeff, UInt8.toBitVec_xor, BitVec.getLsbD_xor]
  cases left.toBitVec.getLsbD power <;> cases right.toBitVec.getLsbD power <;> decide

theorem byte_degree (byte : UInt8) : (bytePolynomial byte).degree < 8 := by
  apply (degree_lt_iff_coeff_zero _ 8).mpr
  intro power above
  rw [byte_coeff, BitVec.getLsbD_of_ge _ _ above]
  rfl

theorem byte_injective : Function.Injective bytePolynomial := by
  intro left right same
  apply UInt8.toBitVec_inj.mp
  apply BitVec.eq_of_getLsbD_eq
  intro power _
  have bit := congrArg (fun polynomial => polynomial.coeff power) same
  simp only [byte_coeff] at bit
  cases first : left.toBitVec.getLsbD power <;> cases second : right.toBitVec.getLsbD power <;>
    simp [first, second] at bit ⊢

theorem byte_shift (byte : UInt8) :
    X * bytePolynomial byte =
      bytePolynomial (byte <<< 1) + bytePolynomial (byte >>> 7) * X ^ 8 := by
  have left : (byte <<< 1).toBitVec = byte.toBitVec <<< 1 := rfl
  have right : (byte >>> 7).toBitVec = byte.toBitVec >>> 7 := rfl
  ext power
  rw [coeff_add, coeff_mul_X_pow', byte_coeff, byte_coeff, left, right]
  cases power with
  | zero => simp
  | succ power =>
      rw [coeff_X_mul, byte_coeff]
      by_cases inside : power < 7
      · have low : ¬8 ≤ power + 1 := by omega
        have kept : power + 1 < 8 := by omega
        rw [if_neg low, add_zero, BitVec.getLsbD_shiftLeft]
        simp [kept]
      · have high : 8 ≤ power + 1 := by omega
        have place : 7 + (power - 7) = power := by omega
        simp [high, place]

noncomputable def polynomial : Bytes → (ZMod 2)[X]
  | [] => 0
  | byte :: rest => bytePolynomial byte * X ^ (8 * rest.length) + polynomial rest

theorem polynomial_cons (byte : UInt8) (rest : Bytes) :
    polynomial (byte :: rest) =
      bytePolynomial byte * X ^ (8 * rest.length) + polynomial rest := rfl

theorem polynomial_degree (bytes : Bytes) :
    (polynomial bytes).degree < ((8 * bytes.length : Nat) : WithBot Nat) := by
  induction bytes with
  | nil => simp [polynomial]
  | cons byte rest ih =>
      have top : (bytePolynomial byte * X ^ (8 * rest.length)).degree <
          ((8 * (byte :: rest).length : Nat) : WithBot Nat) := by
        apply (degree_lt_iff_coeff_zero _ _).mpr
        intro power above
        rw [List.length_cons] at above
        rw [coeff_mul_X_pow', if_pos (by omega), byte_coeff, BitVec.getLsbD_of_ge _ _ (by omega)]
        rfl
      have low : (polynomial rest).degree <
          ((8 * (byte :: rest).length : Nat) : WithBot Nat) := by
        apply ih.trans_le
        rw [List.length_cons]
        exact_mod_cast (by omega : 8 * rest.length ≤ 8 * (rest.length + 1))
      exact (degree_add_le _ _).trans_lt (max_lt top low)

-- The first byte is the quotient by the power of `x` that the others do not reach.
theorem polynomial_cons_divide (byte : UInt8) (rest : Bytes) :
    polynomial (byte :: rest) /ₘ X ^ (8 * rest.length) = bytePolynomial byte ∧
      polynomial (byte :: rest) %ₘ X ^ (8 * rest.length) = polynomial rest := by
  apply div_modByMonic_unique _ _ (monic_X_pow _)
  refine ⟨?_, ?_⟩
  · rw [polynomial_cons]
    ring
  · rw [degree_X_pow]
    exact polynomial_degree rest

theorem polynomial_injective (left right : Bytes) (aligned : left.length = right.length)
    (same : polynomial left = polynomial right) : left = right := by
  induction left generalizing right with
  | nil => exact (List.length_eq_zero_iff.mp aligned.symm).symm
  | cons byte rest ih =>
      cases right with
      | nil => cases aligned
      | cons other others =>
          have widths : rest.length = others.length := by simpa using aligned
          obtain ⟨first, tail⟩ := polynomial_cons_divide byte rest
          obtain ⟨otherFirst, otherTail⟩ := polynomial_cons_divide other others
          rw [same, widths] at first tail
          rw [byte_injective (first.symm.trans otherFirst),
            ih others widths (tail.symm.trans otherTail)]

theorem shift_length (carry : UInt8) (bytes : Bytes) :
    (shift carry bytes).length = bytes.length := by
  induction bytes with
  | nil => rfl
  | cons byte rest ih =>
      cases rest with
      | nil => rfl
      | cons next rest => rw [shift, List.length_cons, ih, List.length_cons (a := byte)]

theorem shift_exact (carry byte : UInt8) (rest : Bytes) :
    X * polynomial (byte :: rest) + bytePolynomial carry =
      polynomial (shift carry (byte :: rest)) +
        bytePolynomial (byte >>> 7) * X ^ (8 * (byte :: rest).length) := by
  induction rest generalizing byte with
  | nil =>
      have top := byte_shift byte
      simp only [shift, polynomial, byte_xor, List.length_nil, List.length_cons, Nat.mul_zero,
        pow_zero]
      linear_combination top
  | cons next rest ih =>
      have top := byte_shift byte
      have tail := ih next
      have width := shift_length carry (next :: rest)
      rw [shift, polynomial_cons byte, polynomial_cons _ (shift carry (next :: rest)), width,
        byte_xor, List.length_cons (a := byte), Nat.mul_succ, pow_add]
      linear_combination X ^ (8 * (next :: rest).length) * top + tail

theorem carry_bit (top : UInt8) : top >>> 7 = 0 ∨ top >>> 7 = 1 := by
  revert top
  decide +kernel

theorem carry_exact (top reduction : UInt8) :
    bytePolynomial (carryOf top reduction) =
      bytePolynomial (top >>> 7) * bytePolynomial reduction := by
  have zero : bytePolynomial 0 = 0 := by simp [bytePolynomial]
  have one : bytePolynomial 1 = 1 := by
    ext power
    rw [byte_coeff, coeff_one]
    cases power <;> simp
  rcases carry_bit top with clear | set
  · rw [carryOf, if_pos clear, clear, zero, zero_mul]
  · rw [carryOf, if_neg (by rw [set]; decide), set, one, one_mul]

noncomputable def modulus (size : Nat) (reduction : UInt8) : (ZMod 2)[X] :=
  X ^ (8 * size) + bytePolynomial reduction

theorem modulus_monic (size : Nat) (positive : 0 < size) (reduction : UInt8) :
    (modulus size reduction).Monic := by
  apply monic_X_pow_add
  apply (byte_degree reduction).trans_le
  exact_mod_cast (by omega : 8 ≤ 8 * size)

theorem modulus_degree (size : Nat) (positive : 0 < size) (reduction : UInt8) :
    (modulus size reduction).degree = (8 * size : Nat) := by
  rw [modulus, degree_add_eq_left_of_degree_lt] <;> rw [degree_X_pow]
  apply (byte_degree reduction).trans_le
  exact_mod_cast (by omega : 8 ≤ 8 * size)

theorem double_length (reduction : UInt8) (block : Bytes) :
    (double reduction block).length = block.length := by
  rw [double, shift_length]

theorem double_exact (reduction : UInt8) (block : Bytes) (some : block ≠ []) :
    polynomial (double reduction block) =
      (X * polynomial block) %ₘ modulus block.length reduction := by
  cases block with
  | nil => exact absurd rfl some
  | cons byte rest =>
      have positive : 0 < (byte :: rest).length := Nat.succ_pos _
      have shifted := shift_exact (carryOf byte reduction) byte rest
      have two : (2 : (ZMod 2)[X]) = 0 := CharTwo.two_eq_zero
      have divided := div_modByMonic_unique (f := X * polynomial (byte :: rest))
        (bytePolynomial (byte >>> 7)) (polynomial (double reduction (byte :: rest)))
        (modulus_monic _ positive reduction)
        ⟨?_, ?_⟩
      · exact divided.2.symm
      · rw [carry_exact] at shifted
        rw [modulus, double, List.headD_cons]
        linear_combination bytePolynomial (byte >>> 7) * bytePolynomial reduction * two - shifted
      · rw [modulus_degree _ positive, ← double_length reduction (byte :: rest)]
        exact polynomial_degree _

theorem double_iterate_length (reduction : UInt8) (block : Bytes) (power : Nat) :
    ((double reduction)^[power] block).length = block.length := by
  induction power with
  | zero => rfl
  | succ power ih => rw [Function.iterate_succ_apply', double_length, ih]

theorem double_iterate_exact (reduction : UInt8) (block : Bytes) (some : block ≠ []) (power : Nat) :
    polynomial ((double reduction)^[power] block) =
      (X ^ power * polynomial block) %ₘ modulus block.length reduction := by
  have positive : 0 < block.length := List.length_pos_iff.mpr some
  have monic := modulus_monic block.length positive reduction
  induction power with
  | zero =>
      have low : (polynomial block).degree < (modulus block.length reduction).degree := by
        rw [modulus_degree _ positive]
        exact polynomial_degree block
      rw [pow_zero, one_mul, (modByMonic_eq_self_iff monic).mpr low]
      rfl
  | succ power ih =>
      have width := double_iterate_length reduction block power
      have doubled : (double reduction)^[power] block ≠ [] := List.length_pos_iff.mp (by omega)
      have divided :=
        modByMonic_add_div (X ^ power * polynomial block) (modulus block.length reduction)
      rw [Function.iterate_succ_apply', double_exact reduction _ doubled, width, ih]
      -- The remainder so far differs from the product by a multiple of the modulus.
      apply modByMonic_eq_of_dvd_sub monic
      refine ⟨-X * ((X ^ power * polynomial block) /ₘ modulus block.length reduction), ?_⟩
      linear_combination X * divided

theorem reduction128_polynomial : bytePolynomial reduction128 = X ^ 7 + X ^ 2 + X + 1 := by
  simp [bytePolynomial, Finset.sum_range_succ, reduction128]
  ring

theorem reduction64_polynomial : bytePolynomial reduction64 = X ^ 4 + X ^ 3 + X + 1 := by
  simp [bytePolynomial, Finset.sum_range_succ, reduction64]
  ring

theorem modulus_of_reduction128 : modulus 16 reduction128 = modulus128 := by
  have bits : 8 * 16 = 128 := rfl
  unfold modulus128
  rw [modulus, reduction128_polynomial, bits]
  ring

theorem modulus_of_reduction64 : modulus 8 reduction64 = modulus64 := by
  rw [modulus, reduction64_polynomial, modulus64]
  simp only [Nat.reduceMul, add_assoc]

theorem shift_snoc (carry last : UInt8) (bytes : Bytes) :
    shift carry (bytes ++ [last]) = shift (last >>> 7) bytes ++ [(last <<< 1) ^^^ carry] := by
  induction bytes with
  | nil => rfl
  | cons byte rest ih =>
      cases rest with
      | nil => rfl
      | cons next rest => exact congrArg (((byte <<< 1) ^^^ (next >>> 7)) :: ·) ih

end BigEndian

namespace LittleEndian

open Field.BigEndian (bytePolynomial modulus)

noncomputable def polynomial : Bytes → (ZMod 2)[X]
  | [] => 0
  | byte :: rest => bytePolynomial byte + X ^ 8 * polynomial rest

theorem polynomial_snoc (bytes : Bytes) (last : UInt8) :
    polynomial (bytes ++ [last]) = bytePolynomial last * X ^ (8 * bytes.length) +
      polynomial bytes := by
  induction bytes with
  | nil => simp [polynomial]
  | cons byte rest ih =>
      rw [List.cons_append, polynomial, ih, polynomial, List.length_cons, Nat.mul_succ, pow_add]
      ring

theorem polynomial_reverse (bytes : Bytes) :
    polynomial bytes.reverse = BigEndian.polynomial bytes := by
  induction bytes with
  | nil => rfl
  | cons byte rest ih =>
      rw [List.reverse_cons, polynomial_snoc, ih, List.length_reverse, BigEndian.polynomial_cons]

theorem polynomial_injective (left right : Bytes) (aligned : left.length = right.length)
    (same : polynomial left = polynomial right) : left = right := by
  have mirrored : ∀ bytes, polynomial bytes = BigEndian.polynomial bytes.reverse := by
    intro bytes
    rw [← polynomial_reverse, List.reverse_reverse]
  rw [mirrored, mirrored] at same
  apply List.reverse_inj.mp
  apply BigEndian.polynomial_injective _ _ _ same
  rw [List.length_reverse, List.length_reverse, aligned]

theorem shift_reverse (carry : UInt8) (bytes : Bytes) :
    shift carry bytes.reverse = (BigEndian.shift carry bytes).reverse := by
  induction bytes using List.reverseRecOn generalizing carry with
  | nil => rfl
  | append_singleton bytes last ih =>
      rw [BigEndian.shift_snoc, List.reverse_append, List.reverse_append]
      exact congrArg (((last <<< 1) ^^^ carry) :: ·) (ih (last >>> 7))

theorem double_reverse (reduction : UInt8) (block : Bytes) :
    double reduction block.reverse = (BigEndian.double reduction block).reverse := by
  have top : block.reverse.getLastD 0 = block.headD 0 := by
    cases block with
    | nil => rfl
    | cons byte rest => rw [List.reverse_cons, List.getLastD_concat, List.headD_cons]
  rw [double, top, shift_reverse, BigEndian.double]

theorem double_iterate_reverse (reduction : UInt8) (block : Bytes) (power : Nat) :
    (double reduction)^[power] block.reverse =
      ((BigEndian.double reduction)^[power] block).reverse := by
  induction power with
  | zero => rfl
  | succ power ih =>
      rw [Function.iterate_succ_apply', ih, double_reverse, Function.iterate_succ_apply']

theorem double_iterate_exact (reduction : UInt8) (block : Bytes) (some : block ≠ []) (power : Nat) :
    polynomial ((double reduction)^[power] block) =
      (X ^ power * polynomial block) %ₘ modulus block.length reduction := by
  have mirrored := double_iterate_reverse reduction block.reverse power
  have exact := BigEndian.double_iterate_exact reduction block.reverse
    (fun none => some (List.reverse_eq_nil_iff.mp none)) power
  rw [← polynomial_reverse, ← polynomial_reverse, ← mirrored, List.reverse_reverse,
    List.length_reverse] at exact
  exact exact

end LittleEndian

end SymmetricKey.Field
