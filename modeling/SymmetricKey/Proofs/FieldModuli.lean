import Mathlib

/-!
The moduli of the fields of 2^128 and of 2^64 elements over the field of two. They are the
same in whatever order the bits of a block are read.
-/

namespace SymmetricKey.Field

open Polynomial

-- Unfolded by itself, the highest power would be multiplied out.
@[irreducible]
noncomputable def modulus128 : (ZMod 2)[X] := X ^ 128 + X ^ 7 + X ^ 2 + X + 1

noncomputable def modulus64 : (ZMod 2)[X] := X ^ 64 + X ^ 4 + X ^ 3 + X + 1

theorem modulus128_monic : modulus128.Monic := by
  have split : modulus128 = X ^ 128 + (X ^ 7 + X ^ 2 + X + 1) := by
    unfold modulus128
    ring
  rw [split]
  apply monic_X_pow_add
  compute_degree!

theorem modulus128_degree : modulus128.natDegree = 128 := by
  unfold modulus128
  compute_degree!

theorem modulus128_constant : modulus128.coeff 0 = 1 := by
  unfold modulus128
  simp

end SymmetricKey.Field
