import SymmetricKey.Bytes

/-!
Words as byte strings, most significant byte first (`BigEndian`) or last
(`LittleEndian`). Reading a string of words stops at an incomplete last word.
-/

namespace SymmetricKey

namespace BigEndian

def word (first second third fourth : UInt8) : UInt32 :=
  (first.toUInt32 <<< 24) ||| (second.toUInt32 <<< 16) |||
    (third.toUInt32 <<< 8) ||| fourth.toUInt32

def bytes32 (value : UInt32) : Bytes :=
  [(value >>> 24).toUInt8, (value >>> 16).toUInt8, (value >>> 8).toUInt8, value.toUInt8]

def bytes64 (value : UInt64) : Bytes :=
  bytes32 (value >>> 32).toUInt32 ++ bytes32 value.toUInt32

def words : Bytes → List UInt32
  | first :: second :: third :: fourth :: rest =>
      word first second third fourth :: words rest
  | _ => []

/-- Of sixteen bytes the first gives the top eight bits; fewer bytes are read as a smaller
number. -/
def number128 (bytes : Bytes) : BitVec 128 :=
  bytes.foldl (fun value byte => (value <<< 8) ||| byte.toBitVec.setWidth 128) 0#128

def bytes128 (value : BitVec 128) : Bytes :=
  (List.range 16).map fun index => UInt8.ofBitVec (value.extractLsb' (8 * (15 - index)) 8)

end BigEndian

namespace LittleEndian

def word (first second third fourth : UInt8) : UInt32 :=
  BigEndian.word fourth third second first

def bytes32 (value : UInt32) : Bytes :=
  [value.toUInt8, (value >>> 8).toUInt8, (value >>> 16).toUInt8, (value >>> 24).toUInt8]

def bytes64 (value : UInt64) : Bytes :=
  bytes32 value.toUInt32 ++ bytes32 (value >>> 32).toUInt32

def words : Bytes → List UInt32
  | first :: second :: third :: fourth :: rest =>
      word first second third fourth :: words rest
  | _ => []

/-- The first of two words is the lower half. -/
def paired : List UInt32 → List UInt64
  | low :: high :: rest => (low.toUInt64 ||| (high.toUInt64 <<< 32)) :: paired rest
  | _ => []

def words64 (bytes : Bytes) : List UInt64 := paired (words bytes)

end LittleEndian

/-! Rotations. The amount is below the width of the word. -/

def rotateLeft32 (value amount : UInt32) : UInt32 :=
  (value <<< amount) ||| (value >>> (32 - amount))

def rotateRight32 (value amount : UInt32) : UInt32 :=
  (value >>> amount) ||| (value <<< (32 - amount))

def rotateLeft64 (value amount : UInt64) : UInt64 :=
  (value <<< amount) ||| (value >>> (64 - amount))

end SymmetricKey
