import SymmetricKey.BlockCipher
import SymmetricKey.BlockCipher.CastRound
import SymmetricKey.Description

/-!
CAST-128, a Feistel cipher: each round adds a function of the right half to
the left half and exchanges the halves. The exchange after the last round is
taken back, so the same rounds in reverse order undo the cipher. Keys of at
most ten bytes run twelve rounds, longer ones sixteen.
-/

namespace SymmetricKey

structure Cast128 where
  keys : List Cast.RoundKey
deriving DecidableEq, Repr

namespace Cast128

open Cast

def round (halves : Halves) (key : RoundKey) : Halves :=
  { left := halves.right, right := halves.left ^^^ key.apply halves.right }

def crypt (keys : List RoundKey) (block : Block 8) : Block 8 :=
  (keys.foldl round (Halves.ofBigEndian block)).swap.toBigEndian

def encrypt (cipher : Cast128) (block : Block 8) : Block 8 := crypt cipher.keys block

def decrypt (cipher : Cast128) (block : Block 8) : Block 8 := crypt cipher.keys.reverse block

def rounds (cipher : Cast128) : Nat := cipher.keys.length

-- Four words of key material are refreshed again and again. After every refresh four subkeys are
-- read off through the last four boxes.

def boxSum (a b c d : UInt8) : UInt32 :=
  entry box5 a ^^^ entry box6 b ^^^ entry box7 c ^^^ entry box8 d

/-- Byte 0 is the top one. -/
def byteOf (word : UInt32) (position : UInt32) : UInt8 := (word >>> (24 - 8 * position)).toUInt8

/-- New words take up old ones in turn. Each is masked by the bytes of the new word before it,
the first one by the bytes of `tap`, and by one byte of `extra`. -/
def refresh (old : Quad) (tap extra : UInt32) : Quad :=
  let w0 := old.w0 ^^^ boxSum (byteOf tap 1) (byteOf tap 3) (byteOf tap 0) (byteOf tap 2) ^^^
    entry box7 (byteOf extra 0)
  let w1 := old.w1 ^^^ boxSum (byteOf w0 0) (byteOf w0 2) (byteOf w0 1) (byteOf w0 3) ^^^
    entry box8 (byteOf extra 2)
  let w2 := old.w2 ^^^ boxSum (byteOf w1 3) (byteOf w1 2) (byteOf w1 1) (byteOf w1 0) ^^^
    entry box5 (byteOf extra 1)
  let w3 := old.w3 ^^^ boxSum (byteOf w2 2) (byteOf w2 1) (byteOf w2 3) (byteOf w2 0) ^^^
    entry box6 (byteOf extra 3)
  ⟨w0, w1, w2, w3⟩

def refreshOdd (words : Quad) : Quad :=
  refresh ⟨words.w0, words.w2, words.w3, words.w1⟩ words.w3 words.w2

def refreshEven (words : Quad) : Quad :=
  refresh ⟨words.w2, words.w0, words.w1, words.w3⟩ words.w1 words.w0

/-- The bytes that one subkey reads: one per box, and one more through a box that depends on the
subkey's rank. -/
structure Taps where
  bytes : Vector (Fin 16) 4
  last : Fin 16

def subkey (material : Block 16) (taps : Taps) (box : Box) : UInt32 :=
  let tapped position := material.get (taps.bytes.get position)
  boxSum (tapped 0) (tapped 1) (tapped 2) (tapped 3) ^^^ entry box (material.get taps.last)

def subkeys (words : Quad) (taps : List Taps) : List UInt32 :=
  List.zipWith (subkey words.toBigEndian) taps [box5, box6, box7, box8]

def ascending (last0 last1 last2 last3 : Fin 16) : List Taps :=
  [⟨#v[8, 9, 7, 6], last0⟩, ⟨#v[10, 11, 5, 4], last1⟩,
    ⟨#v[12, 13, 3, 2], last2⟩, ⟨#v[14, 15, 1, 0], last3⟩]

def descending (last0 last1 last2 last3 : Fin 16) : List Taps :=
  [⟨#v[3, 2, 12, 13], last0⟩, ⟨#v[1, 0, 14, 15], last1⟩,
    ⟨#v[7, 6, 8, 9], last2⟩, ⟨#v[5, 4, 10, 11], last3⟩]

def sixteenSubkeys (words : Quad) : List UInt32 × Quad :=
  let step1 := refreshOdd words
  let step2 := refreshEven step1
  let step3 := refreshOdd step2
  let step4 := refreshEven step3
  (subkeys step1 (ascending 2 6 9 12) ++ subkeys step2 (descending 8 13 3 7) ++
      subkeys step3 (descending 9 12 2 6) ++ subkeys step4 (ascending 3 7 8 13),
    step4)

def formOf (round : Nat) : Form :=
  match round % 3 with
  | 0 => .first
  | 1 => .second
  | _ => .third

def roundKeys (key : Bytes) : List RoundKey :=
  -- The first sixteen subkeys mask, the next sixteen rotate.
  let masks := sixteenSubkeys (Quad.ofBigEndian (Block.ofFront 16 key))
  let rotations := sixteenSubkeys masks.2
  List.zipWith (fun round words => RoundKey.ofWords (formOf round) words.1 words.2)
    (List.range 16) (masks.1.zip rotations.1)

def expand (key : Bytes) : Except Error Cast128 :=
  if 5 ≤ key.length ∧ key.length ≤ 16 then
    .ok { keys := (roundKeys key).take (if key.length ≤ 10 then 12 else 16) }
  else .error .invalidKeyLength

def describe (cipher : Cast128) : String :=
  Description.partly "Cast128" [("rounds", toString cipher.rounds)]

instance : BlockPermutation Cast128 := ⟨8, encrypt, decrypt⟩

end Cast128

end SymmetricKey
