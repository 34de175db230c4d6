import SymmetricKey.BlockCipher
import SymmetricKey.Description

/-!
TEA and its revision XTEA. Both run 32 cycles on two words and a running sum.
A cycle of TEA moves the sum first; one of XTEA moves it between its two
halves and lets it choose the key words.
-/

namespace SymmetricKey.Tea

/-- The fraction of the golden ratio, by which the sum moves in each cycle. -/
def delta : UInt32 := 0x9E3779B9

def cycles : Nat := 32

structure State where
  left : UInt32
  right : UInt32
  sum : UInt32
deriving DecidableEq, Repr

namespace State

def ofBlock (sum : UInt32) (block : Block 8) : State :=
  let halves := Halves.ofBigEndian block
  { left := halves.left, right := halves.right, sum }

def toBlock (state : State) : Block 8 :=
  Halves.toBigEndian { left := state.left, right := state.right }

end State

def finalSum : UInt32 := delta * UInt32.ofNat cycles

def keyOfBytes (key : Bytes) : Except Error Quad :=
  match Block.ofBytes? 16 key with
  | none => .error .invalidKeyLength
  | some block => .ok (Quad.ofBigEndian block)

end SymmetricKey.Tea

namespace SymmetricKey

structure Tea where
  key : Quad
deriving DecidableEq, Repr

namespace Tea

def half (key0 key1 word sum : UInt32) : UInt32 :=
  ((word <<< 4) + key0) ^^^ (word + sum) ^^^ ((word >>> 5) + key1)

def cycle (key : Quad) (state : State) : State :=
  let sum := state.sum + delta
  let left := state.left + half key.w0 key.w1 state.right sum
  let right := state.right + half key.w2 key.w3 left sum
  { left, right, sum }

def uncycle (key : Quad) (state : State) : State :=
  let right := state.right - half key.w2 key.w3 state.left state.sum
  let left := state.left - half key.w0 key.w1 right state.sum
  { left, right, sum := state.sum - delta }

def encrypt (cipher : Tea) (block : Block 8) : Block 8 :=
  (Nat.repeat (cycle cipher.key) cycles (State.ofBlock 0 block)).toBlock

def decrypt (cipher : Tea) (block : Block 8) : Block 8 :=
  (Nat.repeat (uncycle cipher.key) cycles (State.ofBlock finalSum block)).toBlock

def expand (key : Bytes) : Except Error Tea := (keyOfBytes key).map fun key => { key }

def describe (_cipher : Tea) : String := Description.partly "Tea" []

instance : BlockPermutation Tea := ⟨8, encrypt, decrypt⟩

end Tea

structure Xtea where
  key : Quad
deriving DecidableEq, Repr

namespace Xtea

def keyWord (key : Quad) (selector : UInt32) : UInt32 :=
  -- The low two bits choose among the four key words.
  if selector &&& 2 = 0 then if selector &&& 1 = 0 then key.w0 else key.w1
  else if selector &&& 1 = 0 then key.w2 else key.w3

def half (key : Quad) (selector word sum : UInt32) : UInt32 :=
  (((word <<< 4) ^^^ (word >>> 5)) + word) ^^^ (sum + keyWord key selector)

def cycle (key : Quad) (state : Tea.State) : Tea.State :=
  let left := state.left + half key state.sum state.right state.sum
  let sum := state.sum + Tea.delta
  let right := state.right + half key (sum >>> 11) left sum
  { left, right, sum }

def uncycle (key : Quad) (state : Tea.State) : Tea.State :=
  let right := state.right - half key (state.sum >>> 11) state.left state.sum
  let sum := state.sum - Tea.delta
  let left := state.left - half key sum right sum
  { left, right, sum }

def encrypt (cipher : Xtea) (block : Block 8) : Block 8 :=
  (Nat.repeat (cycle cipher.key) Tea.cycles (Tea.State.ofBlock 0 block)).toBlock

def decrypt (cipher : Xtea) (block : Block 8) : Block 8 :=
  (Nat.repeat (uncycle cipher.key) Tea.cycles (Tea.State.ofBlock Tea.finalSum block)).toBlock

def expand (key : Bytes) : Except Error Xtea := (Tea.keyOfBytes key).map fun key => { key }

def describe (_cipher : Xtea) : String := Description.partly "Xtea" []

instance : BlockPermutation Xtea := ⟨8, encrypt, decrypt⟩

end Xtea

end SymmetricKey
