import SymmetricKey.Endian

/-!
The field of 2^128 elements in reflected bit order: bit 127 of a number is the
coefficient of `x^0`, so multiplication by `x` is a shift to the right.

A fixed factor is kept as the table of its multiples by all polynomials of
degree below 4. A product then takes the other factor four bits at a time,
from the highest powers down, and a second table says what the four bits that
are shifted out at the right come back as.
-/

namespace SymmetricKey.Field.Reflected

/-- The modulus `x^128 + x^7 + x^2 + x + 1` without its leading term. -/
def reduction : BitVec 128 := 0xE1#128 <<< 120

/-- Multiplication by `x`. -/
def double (value : BitVec 128) : BitVec 128 :=
  (value >>> 1) ^^^ (if value.getLsbD 0 then reduction else 0)

abbrev NibbleTable := Vector (BitVec 128) 16

def multiples (factor : BitVec 128) : NibbleTable :=
  -- Bit 3 of a nibble stands for `x^0` and bit 0 for `x^3`.
  let once := double factor
  let twice := double once
  let thrice := double twice
  Vector.ofFn fun nibble : Fin 16 =>
    (if nibble.val.testBit 3 then factor else 0) ^^^
      (if nibble.val.testBit 2 then once else 0) ^^^
      (if nibble.val.testBit 1 then twice else 0) ^^^
      (if nibble.val.testBit 0 then thrice else 0)

/-- What the low four bits of a number contribute when it is multiplied by `x^4`. -/
def folded : NibbleTable :=
  Vector.ofFn fun nibble : Fin 16 =>
    double (double (double (double (BitVec.ofNat 128 nibble.val))))

def nibbleAt (value : BitVec 128) (position : Nat) : Fin 16 :=
  (value.extractLsb' (4 * position) 4).toFin

/-- Multiplies by `x^4`. -/
def quadruple (value : BitVec 128) : BitVec 128 :=
  (value >>> 4) ^^^ folded.get (nibbleAt value 0)

/-- The product of `value` and the factor whose multiples are given. -/
def mul (table : NibbleTable) (value : BitVec 128) : BitVec 128 :=
  (List.range 32).foldl
    (fun sum position => quadruple sum ^^^ table.get (nibbleAt value position)) 0

end SymmetricKey.Field.Reflected
