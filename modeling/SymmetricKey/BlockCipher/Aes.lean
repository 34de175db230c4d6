import SymmetricKey.BlockCipher
import SymmetricKey.Substitution
import SymmetricKey.Field.Byte
import SymmetricKey.Description

/-!
AES. A block is a square of four columns of four bytes, column after column.
A round substitutes the bytes, rotates row `r` by `r` columns, multiplies each
column by a circulant matrix over the field of 256 elements, and adds the
round key. The last round leaves the columns alone.
-/

namespace SymmetricKey

set_option maxRecDepth 2048 in
/-- Inversion in the field of 256 elements followed by an affine map. -/
def aesBox : Substitution := #v[
  0x63, 0x7c, 0x77, 0x7b, 0xf2, 0x6b, 0x6f, 0xc5, 0x30, 0x01, 0x67, 0x2b, 0xfe, 0xd7, 0xab, 0x76,
  0xca, 0x82, 0xc9, 0x7d, 0xfa, 0x59, 0x47, 0xf0, 0xad, 0xd4, 0xa2, 0xaf, 0x9c, 0xa4, 0x72, 0xc0,
  0xb7, 0xfd, 0x93, 0x26, 0x36, 0x3f, 0xf7, 0xcc, 0x34, 0xa5, 0xe5, 0xf1, 0x71, 0xd8, 0x31, 0x15,
  0x04, 0xc7, 0x23, 0xc3, 0x18, 0x96, 0x05, 0x9a, 0x07, 0x12, 0x80, 0xe2, 0xeb, 0x27, 0xb2, 0x75,
  0x09, 0x83, 0x2c, 0x1a, 0x1b, 0x6e, 0x5a, 0xa0, 0x52, 0x3b, 0xd6, 0xb3, 0x29, 0xe3, 0x2f, 0x84,
  0x53, 0xd1, 0x00, 0xed, 0x20, 0xfc, 0xb1, 0x5b, 0x6a, 0xcb, 0xbe, 0x39, 0x4a, 0x4c, 0x58, 0xcf,
  0xd0, 0xef, 0xaa, 0xfb, 0x43, 0x4d, 0x33, 0x85, 0x45, 0xf9, 0x02, 0x7f, 0x50, 0x3c, 0x9f, 0xa8,
  0x51, 0xa3, 0x40, 0x8f, 0x92, 0x9d, 0x38, 0xf5, 0xbc, 0xb6, 0xda, 0x21, 0x10, 0xff, 0xf3, 0xd2,
  0xcd, 0x0c, 0x13, 0xec, 0x5f, 0x97, 0x44, 0x17, 0xc4, 0xa7, 0x7e, 0x3d, 0x64, 0x5d, 0x19, 0x73,
  0x60, 0x81, 0x4f, 0xdc, 0x22, 0x2a, 0x90, 0x88, 0x46, 0xee, 0xb8, 0x14, 0xde, 0x5e, 0x0b, 0xdb,
  0xe0, 0x32, 0x3a, 0x0a, 0x49, 0x06, 0x24, 0x5c, 0xc2, 0xd3, 0xac, 0x62, 0x91, 0x95, 0xe4, 0x79,
  0xe7, 0xc8, 0x37, 0x6d, 0x8d, 0xd5, 0x4e, 0xa9, 0x6c, 0x56, 0xf4, 0xea, 0x65, 0x7a, 0xae, 0x08,
  0xba, 0x78, 0x25, 0x2e, 0x1c, 0xa6, 0xb4, 0xc6, 0xe8, 0xdd, 0x74, 0x1f, 0x4b, 0xbd, 0x8b, 0x8a,
  0x70, 0x3e, 0xb5, 0x66, 0x48, 0x03, 0xf6, 0x0e, 0x61, 0x35, 0x57, 0xb9, 0x86, 0xc1, 0x1d, 0x9e,
  0xe1, 0xf8, 0x98, 0x11, 0x69, 0xd9, 0x8e, 0x94, 0x9b, 0x1e, 0x87, 0xe9, 0xce, 0x55, 0x28, 0xdf,
  0x8c, 0xa1, 0x89, 0x0d, 0xbf, 0xe6, 0x42, 0x68, 0x41, 0x99, 0x2d, 0x0f, 0xb0, 0x54, 0xbb, 0x16]

def aesInverseBox : Substitution := aesBox.inverse

structure Aes where
  first : Block 16
  middle : List (Block 16)
  last : Block 16
deriving DecidableEq, Repr

namespace Aes

/-- The modulus `x^8 + x^4 + x^3 + x + 1` without its leading term. -/
def modulus : UInt8 := 0x1B

def substitute (box : Substitution) (state : Block 16) : Block 16 := state.map box.apply

/-- Position `4 * c + r` takes the byte of row `r` that stands `r` columns further on. -/
def shiftRows (state : Block 16) : Block 16 :=
  Vector.ofFn fun position => state.get (position * 5)

def unshiftRows (state : Block 16) : Block 16 :=
  Vector.ofFn fun position => state.get (position * 13)

/-- The byte `step` rows below a position, in the same column and around its end. -/
def below (state : Block 16) (position : Fin 16) (step : Nat) : UInt8 :=
  state.get ⟨4 * (position.val / 4) + (position.val + step) % 4, by omega⟩

/-- Multiplies each column by the circulant matrix with the given first row. -/
def mixColumns (a b c d : UInt8) (state : Block 16) : Block 16 :=
  Vector.ofFn fun position =>
    Field.Byte.mul modulus (below state position 0) a ^^^
      Field.Byte.mul modulus (below state position 1) b ^^^
      Field.Byte.mul modulus (below state position 2) c ^^^
      Field.Byte.mul modulus (below state position 3) d

def round (key state : Block 16) : Block 16 :=
  mixColumns 2 3 1 1 (shiftRows (substitute aesBox state)) ^^^ key

def unround (key state : Block 16) : Block 16 :=
  substitute aesInverseBox (unshiftRows (mixColumns 14 11 13 9 (state ^^^ key)))

def encrypt (cipher : Aes) (block : Block 16) : Block 16 :=
  let state := cipher.middle.foldl (fun state key => round key state) (block ^^^ cipher.first)
  shiftRows (substitute aesBox state) ^^^ cipher.last

def decrypt (cipher : Aes) (block : Block 16) : Block 16 :=
  let state := substitute aesInverseBox (unshiftRows (block ^^^ cipher.last))
  cipher.middle.foldr unround state ^^^ cipher.first

def rounds (cipher : Aes) : Nat := cipher.middle.length + 1

/-- `x` to the power of `exponent` in the top byte. -/
def roundConstant (exponent : Nat) : UInt32 :=
  (Nat.repeat (Field.Byte.double modulus) exponent 1).toUInt32 <<< 24

/-- What the word before position `position` contributes, for a key of `size` words. -/
def scheduleWord (size position : Nat) (word : UInt32) : UInt32 :=
  if position % size = 0 then
    aesBox.applyWord (rotateLeft32 word 8) ^^^ roundConstant (position / size - 1)
  else if size = 8 ∧ position % size = 4 then aesBox.applyWord word
  else word

/-- The `count` words from `position` on. The window holds the last `size` words, oldest first. -/
def extend (size : Nat) : Nat → Nat → List UInt32 → List UInt32
  | count + 1, position, oldest :: window =>
      let word := oldest ^^^ scheduleWord size position (window.getLastD oldest)
      word :: extend size count (position + 1) (window ++ [word])
  | _, _, _ => []

def roundKeys (key : Bytes) : List (Block 16) :=
  -- A key of `n` words has `n + 7` round keys.
  let start := BigEndian.words key
  let size := start.length
  let schedule := start ++ extend size (4 * (size + 7) - size) size start
  (Bytes.segments 16 (schedule.flatMap BigEndian.bytes32)).map (Block.ofFront 16)

def ofRoundKeys (first : Block 16) (others : List (Block 16)) : Aes :=
  { first, middle := others.dropLast, last := others.getLastD first }

def expand (key : Bytes) : Except Error Aes :=
  if key.length = 16 ∨ key.length = 24 ∨ key.length = 32 then
    let keys := roundKeys key
    .ok (ofRoundKeys (keys.headD (Block.ofFront 16 key)) (keys.drop 1))
  else .error .invalidKeyLength

def describe (cipher : Aes) : String :=
  Description.partly "Aes" [("rounds", toString cipher.rounds)]

instance : BlockPermutation Aes := ⟨16, encrypt, decrypt⟩

end Aes

end SymmetricKey
