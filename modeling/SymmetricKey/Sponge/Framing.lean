import SymmetricKey.Endian

/-!
Numbers as a sponge absorbs them. A number is written with the number of its
bytes, in front or behind, so that what was absorbed tells where each string
ends.
-/

namespace SymmetricKey.Framing

/-- The number with the top byte first, without leading zeros but at least one byte. -/
def shortest (number : UInt64) : Bytes :=
  match (BigEndian.bytes64 number).dropWhile (· == 0) with
  | [] => [0]
  | bytes => bytes

def leftEncode (number : UInt64) : Bytes :=
  let bytes := shortest number
  UInt8.ofNat bytes.length :: bytes

def rightEncode (number : UInt64) : Bytes :=
  let bytes := shortest number
  bytes ++ [UInt8.ofNat bytes.length]

end SymmetricKey.Framing
