/-!
Bytes as polynomials over the two-element field, modulo a polynomial of
degree 8. Of the modulus only the low eight coefficients are written: the
coefficient of `x^8` is what a doubling shifts out.
-/

namespace SymmetricKey.Field.Byte

/-- Multiplication by `x`. -/
def double (modulus factor : UInt8) : UInt8 :=
  (factor <<< 1) ^^^ (if factor &&& 0x80 = 0 then 0 else modulus)

/-- Adds up the doublings of `left` that the low `count` bits of `right` select. -/
def select (modulus : UInt8) : Nat → UInt8 → UInt8 → UInt8
  | 0, _, _ => 0
  | count + 1, left, right =>
      (if right &&& 1 = 0 then 0 else left) ^^^
        select modulus count (double modulus left) (right >>> 1)

def mul (modulus left right : UInt8) : UInt8 := select modulus 8 left right

end SymmetricKey.Field.Byte
