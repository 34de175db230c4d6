import SymmetricKey.Endian

/-!
Blocks of a fixed number of bytes, and the same blocks as two or four words.
The number of bytes is in the type, so a cipher's rounds never meet a block
of another length.
-/

namespace SymmetricKey

abbrev Block (size : Nat) := Vector UInt8 size

namespace Block

def ofBytes? (size : Nat) (bytes : Bytes) : Option (Block size) :=
  if exact : bytes.length = size then some ⟨bytes.toArray, by simp [exact]⟩ else none

/-- The front of the string, with zero bytes where it is too short. -/
def ofFront (size : Nat) (bytes : Bytes) : Block size :=
  Vector.ofFn fun index => bytes.getD index.val 0

def xor {size : Nat} (left right : Block size) : Block size :=
  Vector.zipWith (· ^^^ ·) left right

instance {size : Nat} : XorOp (Block size) := ⟨xor⟩

end Block

structure Halves where
  left : UInt32
  right : UInt32
deriving DecidableEq, Repr

namespace Halves

def ofBigEndian (block : Block 8) : Halves :=
  { left := BigEndian.word block[0] block[1] block[2] block[3]
    right := BigEndian.word block[4] block[5] block[6] block[7] }

def toBigEndian (halves : Halves) : Block 8 :=
  Vector.ofFn fun index => (BigEndian.bytes32 halves.left ++
    BigEndian.bytes32 halves.right).getD index.val 0

def swap (halves : Halves) : Halves := { left := halves.right, right := halves.left }

end Halves

structure Quad where
  w0 : UInt32
  w1 : UInt32
  w2 : UInt32
  w3 : UInt32
deriving DecidableEq, Repr

namespace Quad

def zero : Quad := ⟨0, 0, 0, 0⟩

def ofWords : List UInt32 → Quad
  | w0 :: w1 :: w2 :: w3 :: _ => ⟨w0, w1, w2, w3⟩
  | _ => zero

def toWords (quad : Quad) : List UInt32 := [quad.w0, quad.w1, quad.w2, quad.w3]

def xor (left right : Quad) : Quad :=
  ⟨left.w0 ^^^ right.w0, left.w1 ^^^ right.w1, left.w2 ^^^ right.w2, left.w3 ^^^ right.w3⟩

instance : XorOp Quad := ⟨xor⟩

def reversed (quad : Quad) : Quad := ⟨quad.w3, quad.w2, quad.w1, quad.w0⟩

def ofBigEndian (block : Block 16) : Quad :=
  ⟨BigEndian.word block[0] block[1] block[2] block[3],
    BigEndian.word block[4] block[5] block[6] block[7],
    BigEndian.word block[8] block[9] block[10] block[11],
    BigEndian.word block[12] block[13] block[14] block[15]⟩

def ofLittleEndian (block : Block 16) : Quad :=
  ⟨LittleEndian.word block[0] block[1] block[2] block[3],
    LittleEndian.word block[4] block[5] block[6] block[7],
    LittleEndian.word block[8] block[9] block[10] block[11],
    LittleEndian.word block[12] block[13] block[14] block[15]⟩

def toBigEndian (quad : Quad) : Block 16 :=
  Block.ofFront 16 (quad.toWords.flatMap BigEndian.bytes32)

def toLittleEndian (quad : Quad) : Block 16 :=
  Block.ofFront 16 (quad.toWords.flatMap LittleEndian.bytes32)

end Quad

structure Octet where
  a : UInt32
  b : UInt32
  c : UInt32
  d : UInt32
  e : UInt32
  f : UInt32
  g : UInt32
  h : UInt32
deriving DecidableEq, Repr

namespace Octet

def zero : Octet := ⟨0, 0, 0, 0, 0, 0, 0, 0⟩

def ofWords : List UInt32 → Octet
  | a :: b :: c :: d :: e :: f :: g :: h :: _ => ⟨a, b, c, d, e, f, g, h⟩
  | _ => zero

def toWords (octet : Octet) : List UInt32 :=
  [octet.a, octet.b, octet.c, octet.d, octet.e, octet.f, octet.g, octet.h]

def zipWith (join : UInt32 → UInt32 → UInt32) (left right : Octet) : Octet :=
  ⟨join left.a right.a, join left.b right.b, join left.c right.c, join left.d right.d,
    join left.e right.e, join left.f right.f, join left.g right.g, join left.h right.h⟩

def toBigEndian (octet : Octet) : Bytes := octet.toWords.flatMap BigEndian.bytes32

end Octet

end SymmetricKey
