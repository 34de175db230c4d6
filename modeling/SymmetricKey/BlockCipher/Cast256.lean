import SymmetricKey.BlockCipher
import SymmetricKey.BlockCipher.CastRound
import SymmetricKey.Description

/-!
CAST-256. A quad-round changes four words one after the other, each by a
function of its neighbour; a reverse quad-round takes the same changes back in
the opposite order. Six quad-rounds are followed by six reverse ones.
-/

namespace SymmetricKey.Cast

structure QuadKey where
  k0 : RoundKey
  k1 : RoundKey
  k2 : RoundKey
  k3 : RoundKey
deriving DecidableEq, Repr

namespace QuadKey

def forward (key : QuadKey) (words : Quad) : Quad :=
  let w2 := words.w2 ^^^ key.k0.apply words.w3
  let w1 := words.w1 ^^^ key.k1.apply w2
  let w0 := words.w0 ^^^ key.k2.apply w1
  let w3 := words.w3 ^^^ key.k3.apply w0
  ⟨w0, w1, w2, w3⟩

def backward (key : QuadKey) (words : Quad) : Quad :=
  let w3 := words.w3 ^^^ key.k3.apply words.w0
  let w0 := words.w0 ^^^ key.k2.apply words.w1
  let w1 := words.w1 ^^^ key.k1.apply words.w2
  let w2 := words.w2 ^^^ key.k0.apply w3
  ⟨w0, w1, w2, w3⟩

end QuadKey

end SymmetricKey.Cast

namespace SymmetricKey

structure Cast256 where
  outward : List Cast.QuadKey
  homeward : List Cast.QuadKey
deriving DecidableEq, Repr

namespace Cast256

open Cast

def crypt (outward homeward : List QuadKey) (block : Block 16) : Block 16 :=
  -- Runs quad-rounds with the first keys, then reverse quad-rounds with the second.
  let middle := outward.foldl (fun words key => key.forward words) (Quad.ofBigEndian block)
  (homeward.foldl (fun words key => key.backward words) middle).toBigEndian

def encrypt (cipher : Cast256) (block : Block 16) : Block 16 :=
  crypt cipher.outward cipher.homeward block

def decrypt (cipher : Cast256) (block : Block 16) : Block 16 :=
  crypt cipher.homeward.reverse cipher.outward.reverse block

def scheduleKey (form : Form) (index : Nat) : RoundKey :=
  -- The constants of the schedule form two arithmetic progressions.
  RoundKey.ofWords form (0x5A827999 + UInt32.ofNat index * 0x6ED9EBA1)
    (UInt32.ofNat (19 + 17 * index))

/-- Changes eight words in turn, from the seventh down to the first and then the last. -/
def octave (words : Octet) (index : Nat) : Octet :=
  let key form step := scheduleKey form (8 * index + step)
  let g := words.g ^^^ (key .first 0).apply words.h
  let f := words.f ^^^ (key .second 1).apply g
  let e := words.e ^^^ (key .third 2).apply f
  let d := words.d ^^^ (key .first 3).apply e
  let c := words.c ^^^ (key .second 4).apply d
  let b := words.b ^^^ (key .third 5).apply c
  let a := words.a ^^^ (key .first 6).apply b
  let h := words.h ^^^ (key .second 7).apply a
  ⟨a, b, c, d, e, f, g, h⟩

def quadKey (words : Octet) : QuadKey :=
  { k0 := RoundKey.ofWords .first words.h words.a
    k1 := RoundKey.ofWords .second words.f words.c
    k2 := RoundKey.ofWords .third words.d words.e
    k3 := RoundKey.ofWords .first words.b words.g }

/-- The keys of `count` quad-rounds from number `index` on; two octaves precede each. -/
def quadKeys : Nat → Nat → Octet → List QuadKey
  | 0, _, _ => []
  | count + 1, index, words =>
      let next := octave (octave words (2 * index)) (2 * index + 1)
      quadKey next :: quadKeys count (index + 1) next

def expand (key : Bytes) : Except Error Cast256 :=
  if 16 ≤ key.length ∧ key.length ≤ 32 ∧ key.length % 4 = 0 then
    let padded := key ++ Bytes.zeros (32 - key.length)
    let keys := quadKeys 12 0 (Octet.ofWords (BigEndian.words padded))
    .ok { outward := keys.take 6, homeward := keys.drop 6 }
  else .error .invalidKeyLength

def describe (_cipher : Cast256) : String := Description.partly "Cast256" []

instance : BlockPermutation Cast256 := ⟨16, encrypt, decrypt⟩

end Cast256

end SymmetricKey
