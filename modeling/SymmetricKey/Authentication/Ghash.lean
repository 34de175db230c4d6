import SymmetricKey.Field.Reflected

/-!
A universal hash over the field of 2^128 elements. Blocks are the coefficients
of a polynomial that is evaluated at the key, in order of arrival. Strings
that do not end with a whole block are filled up with zeros, and a last block
with the lengths of both strings tells which zeros belong to them.
-/

namespace SymmetricKey

/-- The key as the table of its multiples. -/
abbrev GhashKey := Field.Reflected.NibbleTable

def GhashKey.ofBlock (block : Bytes) : GhashKey :=
  Field.Reflected.multiples (BigEndian.number128 block)

structure Ghash where
  sum : BitVec 128
  pending : Bytes
deriving DecidableEq, Repr

namespace Ghash

def empty : Ghash := { sum := 0, pending := [] }

def absorbBlock (key : GhashKey) (sum : BitVec 128) (block : Bytes) : BitVec 128 :=
  Field.Reflected.mul key (sum ^^^ BigEndian.number128 block)

def absorb (key : GhashKey) (state : Ghash) (data : Bytes) : Ghash :=
  let (blocks, rest) := Bytes.completeBlocks 16 (state.pending ++ data)
  { sum := blocks.foldl (absorbBlock key) state.sum, pending := rest }

def pad (key : GhashKey) (state : Ghash) : Ghash :=
  -- Fills the last block up with zeros. Without pending bytes nothing happens.
  if state.pending.isEmpty then state
  else
    { sum := absorbBlock key state.sum
        (state.pending ++ Bytes.zeros (16 - state.pending.length))
      pending := [] }

def lengthBlock (first second : UInt64) : Bytes :=
  -- Lengths in bytes are written in bits, modulo `2^64`.
  BigEndian.bytes64 (first * 8) ++ BigEndian.bytes64 (second * 8)

def close (key : GhashKey) (state : Ghash) (first second : UInt64) : Ghash :=
  let whole := pad key state
  { whole with sum := absorbBlock key whole.sum (lengthBlock first second) }

def value (state : Ghash) : Bytes := BigEndian.bytes128 state.sum

/-- The block from which counters start. A vector of twelve bytes only needs the number one behind
it; any other is hashed. -/
def startBlock (key : GhashKey) (iv : Bytes) : Bytes :=
  if iv.length = 12 then iv ++ [0, 0, 0, 1]
  else (close key (absorb key empty iv) 0 (UInt64.ofNat iv.length)).value

end Ghash

end SymmetricKey
