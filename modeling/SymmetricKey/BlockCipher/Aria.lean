import SymmetricKey.BlockCipher.Aes

/-!
ARIA. Two substitution layers alternate, and a diffusion layer that is its own
inverse stands between them. So the cipher run with the round keys reversed,
and all but the outer two diffused, undoes the cipher.
-/

namespace SymmetricKey

namespace Aria

set_option maxRecDepth 2048 in
/-- The second box; the first is the one of AES. -/
def secondBox : Substitution := #v[
  0xe2, 0x4e, 0x54, 0xfc, 0x94, 0xc2, 0x4a, 0xcc, 0x62, 0x0d, 0x6a, 0x46, 0x3c, 0x4d, 0x8b, 0xd1,
  0x5e, 0xfa, 0x64, 0xcb, 0xb4, 0x97, 0xbe, 0x2b, 0xbc, 0x77, 0x2e, 0x03, 0xd3, 0x19, 0x59, 0xc1,
  0x1d, 0x06, 0x41, 0x6b, 0x55, 0xf0, 0x99, 0x69, 0xea, 0x9c, 0x18, 0xae, 0x63, 0xdf, 0xe7, 0xbb,
  0x00, 0x73, 0x66, 0xfb, 0x96, 0x4c, 0x85, 0xe4, 0x3a, 0x09, 0x45, 0xaa, 0x0f, 0xee, 0x10, 0xeb,
  0x2d, 0x7f, 0xf4, 0x29, 0xac, 0xcf, 0xad, 0x91, 0x8d, 0x78, 0xc8, 0x95, 0xf9, 0x2f, 0xce, 0xcd,
  0x08, 0x7a, 0x88, 0x38, 0x5c, 0x83, 0x2a, 0x28, 0x47, 0xdb, 0xb8, 0xc7, 0x93, 0xa4, 0x12, 0x53,
  0xff, 0x87, 0x0e, 0x31, 0x36, 0x21, 0x58, 0x48, 0x01, 0x8e, 0x37, 0x74, 0x32, 0xca, 0xe9, 0xb1,
  0xb7, 0xab, 0x0c, 0xd7, 0xc4, 0x56, 0x42, 0x26, 0x07, 0x98, 0x60, 0xd9, 0xb6, 0xb9, 0x11, 0x40,
  0xec, 0x20, 0x8c, 0xbd, 0xa0, 0xc9, 0x84, 0x04, 0x49, 0x23, 0xf1, 0x4f, 0x50, 0x1f, 0x13, 0xdc,
  0xd8, 0xc0, 0x9e, 0x57, 0xe3, 0xc3, 0x7b, 0x65, 0x3b, 0x02, 0x8f, 0x3e, 0xe8, 0x25, 0x92, 0xe5,
  0x15, 0xdd, 0xfd, 0x17, 0xa9, 0xbf, 0xd4, 0x9a, 0x7e, 0xc5, 0x39, 0x67, 0xfe, 0x76, 0x9d, 0x43,
  0xa7, 0xe1, 0xd0, 0xf5, 0x68, 0xf2, 0x1b, 0x34, 0x70, 0x05, 0xa3, 0x8a, 0xd5, 0x79, 0x86, 0xa8,
  0x30, 0xc6, 0x51, 0x4b, 0x1e, 0xa6, 0x27, 0xf6, 0x35, 0xd2, 0x6e, 0x24, 0x16, 0x82, 0x5f, 0xda,
  0xe6, 0x75, 0xa2, 0xef, 0x2c, 0xb2, 0x1c, 0x9f, 0x5d, 0x6f, 0x80, 0x0a, 0x72, 0x44, 0x9b, 0x6c,
  0x90, 0x0b, 0x5b, 0x33, 0x7d, 0x5a, 0x52, 0xf3, 0x61, 0xa1, 0xf7, 0xb0, 0xd6, 0x3f, 0x7c, 0x6d,
  0xed, 0x14, 0xe0, 0xa5, 0x3d, 0x22, 0xb3, 0xf8, 0x89, 0xde, 0x71, 0x1a, 0xaf, 0xba, 0xb5, 0x81]

def secondInverseBox : Substitution := secondBox.inverse

inductive Layer where
  | odd
  | even
deriving DecidableEq, Repr

def Layer.next : Layer → Layer
  | .odd => .even
  | .even => .odd

/-- The four boxes of a layer take turns. Each layer holds the inverses of the other one. -/
def Layer.box : Layer → Nat → Substitution
  | .odd, 0 => aesBox
  | .odd, 1 => secondBox
  | .odd, 2 => aesInverseBox
  | .odd, _ => secondInverseBox
  | .even, 0 => aesInverseBox
  | .even, 1 => secondInverseBox
  | .even, 2 => aesBox
  | .even, _ => secondBox

def substitute (layer : Layer) (block : Block 16) : Block 16 :=
  Vector.ofFn fun position => (layer.box (position.val % 4)).apply (block.get position)

/-- The positions that are added up at each position. -/
def diffusion : Vector (List (Fin 16)) 16 := #v[
  [3, 4, 6, 8, 9, 13, 14],
  [2, 5, 7, 8, 9, 12, 15],
  [1, 4, 6, 10, 11, 12, 15],
  [0, 5, 7, 10, 11, 13, 14],
  [0, 2, 5, 8, 11, 14, 15],
  [1, 3, 4, 9, 10, 14, 15],
  [0, 2, 7, 9, 10, 12, 13],
  [1, 3, 6, 8, 11, 12, 13],
  [0, 1, 4, 7, 10, 13, 15],
  [0, 1, 5, 6, 11, 12, 14],
  [2, 3, 5, 6, 8, 13, 15],
  [2, 3, 4, 7, 9, 12, 14],
  [1, 2, 6, 7, 9, 11, 12],
  [0, 3, 6, 7, 8, 10, 13],
  [0, 3, 4, 5, 9, 11, 14],
  [1, 2, 4, 5, 8, 10, 15]]

def diffuse (block : Block 16) : Block 16 :=
  diffusion.map fun positions => positions.foldl (fun sum position => sum ^^^ block.get position) 0

def round (layer : Layer) (key block : Block 16) : Block 16 :=
  diffuse (substitute layer (block ^^^ key))

def crypt : Layer → List (Block 16) → Block 16 → Block 16
  -- Layers alternate. The last round has no diffusion and adds the final key instead.
  | _, [], block => block
  | layer, [key, final], block => substitute layer (block ^^^ key) ^^^ final
  | layer, key :: keys, block => crypt layer.next keys (round layer key block)

/-- The first 384 bits of the fraction of 1/π. -/
def constant : Nat → Block 16
  | 0 => Block.ofFront 16 (BigEndian.bytes128 0x517cc1b727220a94fe13abe8fa9a6ee0)
  | 1 => Block.ofFront 16 (BigEndian.bytes128 0x6db14acc9e21c820ff28b1d5ef5de2b0)
  | _ => Block.ofFront 16 (BigEndian.bytes128 0xdb92371d2126e9700324977504e8c90e)

def rotateRight (amount : Nat) (block : Block 16) : Block 16 :=
  Block.ofFront 16 (BigEndian.bytes128 ((BigEndian.number128 block.toList).rotateRight amount))

/-- Four blocks are mixed from the key; every round key joins two neighbours among them, the later
one rotated. -/
def roundKeys (start : Nat) (key : Bytes) : List (Block 16) :=
  let block0 := Block.ofFront 16 key
  let block1 := round .odd (constant (start % 3)) block0 ^^^ Block.ofFront 16 (key.drop 16)
  let block2 := round .even (constant ((start + 1) % 3)) block1 ^^^ block0
  let block3 := round .odd (constant ((start + 2) % 3)) block2 ^^^ block1
  -- The last three amounts are the rotations to the left by 61, 31 and 19.
  [19, 31, 67, 97, 109].flatMap fun amount =>
    [block0 ^^^ rotateRight amount block1, block1 ^^^ rotateRight amount block2,
      block2 ^^^ rotateRight amount block3, block3 ^^^ rotateRight amount block0]

/-- The keys that undo `keys`: reversed, and diffused but for the two at the ends. -/
def inverseKeys (keys : List (Block 16)) : List (Block 16) :=
  match keys.reverse with
  | [] => []
  | final :: rest => final :: (rest.dropLast.map diffuse ++ rest.getLast?.toList)

end Aria

structure Aria where
  encryptionKeys : List (Block 16)
  decryptionKeys : List (Block 16)
deriving DecidableEq, Repr

namespace Aria

def ofRoundKeys (keys : List (Block 16)) : Aria :=
  { encryptionKeys := keys, decryptionKeys := inverseKeys keys }

def encrypt (cipher : Aria) (block : Block 16) : Block 16 :=
  crypt .odd cipher.encryptionKeys block

def decrypt (cipher : Aria) (block : Block 16) : Block 16 :=
  crypt .odd cipher.decryptionKeys block

def rounds (cipher : Aria) : Nat := cipher.encryptionKeys.length - 1

def expand (key : Bytes) : Except Error Aria :=
  match key.length with
  | 16 => .ok (ofRoundKeys ((roundKeys 0 key).take 13))
  | 24 => .ok (ofRoundKeys ((roundKeys 1 key).take 15))
  | 32 => .ok (ofRoundKeys ((roundKeys 2 key).take 17))
  | _ => .error .invalidKeyLength

def describe (cipher : Aria) : String :=
  Description.partly "Aria" [("rounds", toString cipher.rounds)]

instance : BlockPermutation Aria := ⟨16, encrypt, decrypt⟩

end Aria

end SymmetricKey
