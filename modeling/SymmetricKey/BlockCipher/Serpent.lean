import SymmetricKey.BlockCipher
import SymmetricKey.Description

/-!
Serpent. A box of sixteen entries is applied to all 32 bit columns of four
words at once: column `i` is made of bit `i` of every word, that of the first
word lowest. Eight boxes take turns in 32 rounds. A linear map follows each
round but the last, which adds one more key instead.
-/

namespace SymmetricKey.Serpent

abbrev NibbleBox := Vector (Fin 16) 16

def boxes : Vector NibbleBox 8 := #v[
  #v[3, 8, 15, 1, 10, 6, 5, 11, 14, 13, 4, 2, 7, 0, 9, 12],
  #v[15, 12, 2, 7, 9, 0, 5, 10, 1, 11, 14, 8, 6, 13, 3, 4],
  #v[8, 6, 7, 9, 3, 12, 10, 15, 13, 1, 14, 4, 0, 11, 5, 2],
  #v[0, 15, 11, 8, 12, 9, 6, 3, 13, 1, 2, 4, 10, 7, 5, 14],
  #v[1, 15, 8, 3, 12, 0, 11, 6, 2, 5, 4, 10, 9, 14, 7, 13],
  #v[15, 5, 2, 11, 4, 10, 9, 12, 0, 3, 14, 8, 13, 6, 7, 1],
  #v[7, 2, 12, 5, 8, 4, 6, 11, 14, 9, 1, 15, 13, 3, 10, 0],
  #v[1, 13, 15, 0, 14, 8, 2, 11, 7, 4, 12, 10, 9, 3, 5, 6]]

def NibbleBox.inverse (box : NibbleBox) : NibbleBox :=
  let order := box.toList
  Vector.ofFn fun nibble => Fin.ofNat 16 (order.idxOf nibble)

def inverseBoxes : Vector NibbleBox 8 := boxes.map NibbleBox.inverse

/-- A word where the bit of the nibble is set, and its complement where it is not. -/
def literal (nibble : Fin 16) (bit : Nat) (word : UInt32) : UInt32 :=
  if nibble.val.testBit bit then word else ~~~word

/-- The columns that hold the nibble, as set bits. -/
def columnsWith (nibble : Fin 16) (words : Quad) : UInt32 :=
  literal nibble 0 words.w0 &&& literal nibble 1 words.w1 &&&
    literal nibble 2 words.w2 &&& literal nibble 3 words.w3

/-- The same nibble in all the columns of a set, and zeros elsewhere. -/
def spread (nibble : Fin 16) (columns : UInt32) : Quad :=
  let word bit := if nibble.val.testBit bit then columns else 0
  ⟨word 0, word 1, word 2, word 3⟩

def joined (left right : Quad) : Quad :=
  ⟨left.w0 ||| right.w0, left.w1 ||| right.w1, left.w2 ||| right.w2, left.w3 ||| right.w3⟩

def substitute (box : NibbleBox) (words : Quad) : Quad :=
  -- Every column holds exactly one nibble, so the parts that are joined do not overlap.
  (List.finRange 16).foldl
    (fun sum nibble => joined sum (spread (box.get nibble) (columnsWith nibble words))) Quad.zero

def mix (words : Quad) : Quad :=
  let w0 := rotateLeft32 words.w0 13
  let w2 := rotateLeft32 words.w2 3
  let w1 := rotateLeft32 (words.w1 ^^^ w0 ^^^ w2) 1
  let w3 := rotateLeft32 (words.w3 ^^^ w2 ^^^ (w0 <<< 3)) 7
  ⟨rotateLeft32 (w0 ^^^ w1 ^^^ w3) 5, w1, rotateLeft32 (w2 ^^^ w3 ^^^ (w1 <<< 7)) 22, w3⟩

def unmix (words : Quad) : Quad :=
  let w2 := rotateRight32 words.w2 22 ^^^ words.w3 ^^^ (words.w1 <<< 7)
  let w0 := rotateRight32 words.w0 5 ^^^ words.w1 ^^^ words.w3
  let w3 := rotateRight32 words.w3 7 ^^^ w2 ^^^ (w0 <<< 3)
  let w1 := rotateRight32 words.w1 1 ^^^ w0 ^^^ w2
  ⟨rotateRight32 w0 13, w1, rotateRight32 w2 3, w3⟩

structure Round where
  key : Quad
  box : Fin 8
deriving DecidableEq, Repr

def Round.forward (round : Round) (words : Quad) : Quad :=
  substitute (boxes.get round.box) (words ^^^ round.key)

def Round.backward (round : Round) (words : Quad) : Quad :=
  substitute (inverseBoxes.get round.box) words ^^^ round.key

end SymmetricKey.Serpent

namespace SymmetricKey

structure Serpent where
  rounds : List Serpent.Round
  lastRound : Serpent.Round
  finalKey : Quad
deriving DecidableEq, Repr

namespace Serpent

def encrypt (cipher : Serpent) (block : Block 16) : Block 16 :=
  let words := cipher.rounds.foldl (fun words round => mix (round.forward words))
    (Quad.ofLittleEndian block)
  (cipher.lastRound.forward words ^^^ cipher.finalKey).toLittleEndian

def decrypt (cipher : Serpent) (block : Block 16) : Block 16 :=
  let words := cipher.lastRound.backward (Quad.ofLittleEndian block ^^^ cipher.finalKey)
  (cipher.rounds.foldr (fun round words => round.backward (unmix words)) words).toLittleEndian

/-- The fraction of the golden ratio. -/
def golden : UInt32 := 0x9E3779B9

/-- The `count` words from number `index` on. The window holds the eight words before them. -/
def prekeys : Nat → UInt32 → Octet → List UInt32
  | 0, _, _ => []
  | count + 1, index, window =>
      let word := rotateLeft32
        (window.a ^^^ window.d ^^^ window.f ^^^ window.h ^^^ golden ^^^ index) 11
      word :: prekeys count (index + 1)
        ⟨window.b, window.c, window.d, window.e, window.f, window.g, window.h, word⟩

/-- Makes keys of four words each. The boxes are taken in descending order, from number `box` on. -/
def keysOf : Fin 8 → List UInt32 → List Quad
  | box, w0 :: w1 :: w2 :: w3 :: words =>
      substitute (boxes.get box) ⟨w0, w1, w2, w3⟩ :: keysOf (box - 1) words
  | _, _ => []

def padKey (key : Bytes) : Bytes :=
  -- A short key is marked with a one bit and filled up with zeros.
  if key.length < 32 then key ++ 1 :: Bytes.zeros (31 - key.length) else key

def roundKeys (key : Bytes) : List Quad :=
  keysOf 3 (prekeys 132 0 (Octet.ofWords (LittleEndian.words (padKey key))))

def ofRoundKeys (keys : List Quad) : Serpent :=
  let numbered := keys.zipIdx.map fun (key, index) => { key, box := Fin.ofNat 8 index : Round }
  { rounds := numbered.take 31
    lastRound := (numbered.drop 31).headD ⟨Quad.zero, 7⟩
    finalKey := (keys.drop 32).headD Quad.zero }

def expand (key : Bytes) : Except Error Serpent :=
  if key.length = 16 ∨ key.length = 24 ∨ key.length = 32 then .ok (ofRoundKeys (roundKeys key))
  else .error .invalidKeyLength

def describe (_cipher : Serpent) : String := Description.partly "Serpent" []

instance : BlockPermutation Serpent := ⟨16, encrypt, decrypt⟩

end Serpent

end SymmetricKey
