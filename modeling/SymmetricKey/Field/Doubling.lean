import SymmetricKey.Bytes

/-!
Multiplication by `x` of a whole block, read as a polynomial over the
two-element field. The bit that leaves the block at the top comes back at the
bottom as the low byte of the modulus. The two readings of a block differ in
which end is the top.
-/

namespace SymmetricKey.Field

/-- The modulus `x^128 + x^7 + x^2 + x + 1` without its leading term. -/
def reduction128 : UInt8 := 0x87

/-- The modulus `x^64 + x^4 + x^3 + x + 1` without its leading term. -/
def reduction64 : UInt8 := 0x1B

def carryOf (top reduction : UInt8) : UInt8 := if top >>> 7 = 0 then 0 else reduction

namespace BigEndian

def shift (carry : UInt8) : Bytes → Bytes
  -- Each byte takes the top bit of the byte behind it; the last one takes `carry`.
  | [] => []
  | [last] => [(last <<< 1) ^^^ carry]
  | byte :: next :: rest => ((byte <<< 1) ^^^ (next >>> 7)) :: shift carry (next :: rest)

def double (reduction : UInt8) (block : Bytes) : Bytes :=
  -- The first byte holds the highest coefficients.
  shift (carryOf (block.headD 0) reduction) block

end BigEndian

namespace LittleEndian

def shift (carry : UInt8) : Bytes → Bytes
  -- Each byte takes the top bit of the byte before it; the first one takes `carry`.
  | [] => []
  | byte :: rest => ((byte <<< 1) ^^^ carry) :: shift (byte >>> 7) rest

def double (reduction : UInt8) (block : Bytes) : Bytes :=
  -- The last byte holds the highest coefficients.
  shift (carryOf (block.getLastD 0) reduction) block

theorem shift_length (carry : UInt8) (bytes : Bytes) :
    (shift carry bytes).length = bytes.length := by
  induction bytes generalizing carry with
  | nil => rfl
  | cons byte rest ih => rw [shift, List.length_cons, ih, List.length_cons]

theorem double_length (reduction : UInt8) (block : Bytes) :
    (double reduction block).length = block.length := by
  rw [double, shift_length]

end LittleEndian

end SymmetricKey.Field
