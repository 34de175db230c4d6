import SymmetricKey.Block

/-!
The compression function of SHA-256. Sixteen message words are extended to 64
by a linear recurrence, and each of them drives one round on eight words.
-/

namespace SymmetricKey.Sha256

def start : Octet :=
  ⟨0x6a09e667, 0xbb67ae85, 0x3c6ef372, 0xa54ff53a, 0x510e527f, 0x9b05688c, 0x1f83d9ab, 0x5be0cd19⟩

def constants : List UInt32 := [
  0x428a2f98, 0x71374491, 0xb5c0fbcf, 0xe9b5dba5, 0x3956c25b, 0x59f111f1, 0x923f82a4, 0xab1c5ed5,
  0xd807aa98, 0x12835b01, 0x243185be, 0x550c7dc3, 0x72be5d74, 0x80deb1fe, 0x9bdc06a7, 0xc19bf174,
  0xe49b69c1, 0xefbe4786, 0x0fc19dc6, 0x240ca1cc, 0x2de92c6f, 0x4a7484aa, 0x5cb0a9dc, 0x76f988da,
  0x983e5152, 0xa831c66d, 0xb00327c8, 0xbf597fc7, 0xc6e00bf3, 0xd5a79147, 0x06ca6351, 0x14292967,
  0x27b70a85, 0x2e1b2138, 0x4d2c6dfc, 0x53380d13, 0x650a7354, 0x766a0abb, 0x81c2c92e, 0x92722c85,
  0xa2bfe8a1, 0xa81a664b, 0xc24b8b70, 0xc76c51a3, 0xd192e819, 0xd6990624, 0xf40e3585, 0x106aa070,
  0x19a4c116, 0x1e376c08, 0x2748774c, 0x34b0bcb5, 0x391c0cb3, 0x4ed8aa4a, 0x5b9cca4f, 0x682e6ff3,
  0x748f82ee, 0x78a5636f, 0x84c87814, 0x8cc70208, 0x90befffa, 0xa4506ceb, 0xbef9a3f7, 0xc67178f2]

def smallSigma0 (word : UInt32) : UInt32 :=
  rotateRight32 word 7 ^^^ rotateRight32 word 18 ^^^ (word >>> 3)

def smallSigma1 (word : UInt32) : UInt32 :=
  rotateRight32 word 17 ^^^ rotateRight32 word 19 ^^^ (word >>> 10)

/-- The first `count` words of the extension; the window holds the next sixteen. -/
def schedule : Nat → List UInt32 → List UInt32
  | count + 1, word :: window =>
      let next := word + smallSigma0 (window.getD 0 0) + window.getD 8 0 +
        smallSigma1 (window.getD 13 0)
      word :: schedule count (window ++ [next])
  | _, _ => []

def choose (x y z : UInt32) : UInt32 := (x &&& y) ^^^ (~~~x &&& z)

def majority (x y z : UInt32) : UInt32 := (x &&& y) ^^^ (x &&& z) ^^^ (y &&& z)

def bigSigma0 (word : UInt32) : UInt32 :=
  rotateRight32 word 2 ^^^ rotateRight32 word 13 ^^^ rotateRight32 word 22

def bigSigma1 (word : UInt32) : UInt32 :=
  rotateRight32 word 6 ^^^ rotateRight32 word 11 ^^^ rotateRight32 word 25

def round (state : Octet) (constant word : UInt32) : Octet :=
  let fresh := state.h + bigSigma1 state.e + choose state.e state.f state.g + constant + word
  ⟨fresh + (bigSigma0 state.a + majority state.a state.b state.c), state.a, state.b, state.c,
    state.d + fresh, state.e, state.f, state.g⟩

def compress (chaining : Octet) (block : Bytes) : Octet :=
  let words := schedule 64 (BigEndian.words block)
  Octet.zipWith (· + ·) chaining
    ((constants.zip words).foldl (fun state step => round state step.1 step.2) chaining)

end SymmetricKey.Sha256
