import SymmetricKey.Log
import SymmetricKey.Keystream.Salsa20
import SymmetricKey.Derivation.Pbkdf2

/-!
Key derivation that needs much memory. The password and the salt are stretched
to some lanes; each lane is stirred while all its earlier values are kept, and
then stirred again while values are looked up at places that depend on it. The
stirred lanes salt the derived key. All lanes are stirred in the same memory.

The parameters are checked first, and then whether the memory can be had.
-/

namespace SymmetricKey.Derivation

namespace Scrypt

/-- A lane is an even number of blocks. -/
abbrev Lane := List SalsaBlock

def zeroBlock : SalsaBlock := SalsaBlock.ofWords []

namespace Lane

def xor (left right : Lane) : Lane := List.zipWith (Vector.zipWith (· ^^^ ·)) left right

def ofBytes (bytes : Bytes) : Lane := (Bytes.completeBlocks 64 bytes).1.map SalsaBlock.ofBytes

def toBytes (lane : Lane) : Bytes := lane.flatMap SalsaBlock.toBytes

end Lane

def coreRounds : Nat := 8

/-- Each block is added to the one that was stirred before it, and the sum is stirred. Blocks at
even places go to the first half of the room, those at odd places to the second. -/
def stirBlocks (half : Nat) : Nat → SalsaBlock → Lane → Lane → Lane
  | _, _, [], room => room
  | index, last, block :: blocks, room =>
      let next := SalsaBlock.core coreRounds (Vector.zipWith (· ^^^ ·) last block)
      stirBlocks half (index + 1) next blocks (room.set (index / 2 + index % 2 * half) next)

/-- What one lane after the other is stirred in: the values of a lane that are kept, the lane, and
room for the stirred lane. -/
structure Memory where
  kept : Array Lane
  lane : Lane
  room : Lane

namespace Memory

def cleared (count size : Nat) : Memory :=
  let lane := List.replicate size zeroBlock
  { kept := Array.replicate count lane, lane, room := lane }

def stir (memory : Memory) : Memory :=
  let stirred := stirBlocks (memory.lane.length / 2) 0 (memory.lane.getLastD zeroBlock) memory.lane
    memory.room
  { memory with lane := stirred, room := stirred }

/-- Keeps the lane at the given place and goes on to its next value. -/
def keep (memory : Memory) (place : Nat) : Memory :=
  stir { memory with kept := memory.kept.setIfInBounds place memory.lane }

end Memory

/-- The last block read as a number, modulo a power of two that is at most `2^64`. -/
def placeOf (cost : UInt64) (lane : Lane) : UInt64 :=
  let block := lane.getLastD zeroBlock
  ((block.get 0).toUInt64 ||| ((block.get 1).toUInt64 <<< 32)) &&& (cost - 1)

def lookUp (cost : UInt64) (memory : Memory) : Memory :=
  let place := (placeOf cost memory.lane).toNat
  Memory.stir { memory with lane := memory.lane.xor (memory.kept.getD place []) }

/-- The lane of the given bytes once it is mixed, and the memory that the next lane finds. -/
def mixLane (cost : UInt64) (memory : Memory) (bytes : Bytes) : Bytes × Memory :=
  let loaded := { memory with lane := Lane.ofBytes bytes }
  let filled := (List.range loaded.kept.size).foldl Memory.keep loaded
  let mixed := Nat.repeat (lookUp cost) cost.toNat filled
  (mixed.lane.toBytes, mixed)

def mixLanes (cost : UInt64) : Memory → List Bytes → List Bytes
  | _, [] => []
  | memory, bytes :: lanes =>
      let (mixed, after) := mixLane cost memory bytes
      mixed :: mixLanes cost after lanes

def isPowerOfTwo (number : UInt64) : Bool := number != 0 && number &&& (number - 1) == 0

/-- The cost is a power of two that a lane of `128 * width` bytes can tell apart, and there are
not too many lanes. -/
def checkParameters (cost : UInt64) (width lanes : UInt32) : Except Error Unit :=
  if cost < 2 ∨ !isPowerOfTwo cost ∨ width = 0 ∨ lanes = 0 then .error .invalidParameter
  else if 1 <<< 30 ≤ width.toNat * lanes.toNat then .error .invalidParameter
  else if cost.toNat >>> (16 * width.toNat) ≠ 0 then .error .invalidParameter
  else .ok ()

-- Sizes of memory are numbers of 64 bits.
def sizeLimit : Nat := 1 <<< 64

/-- Whether so many bytes can be had, for each reservation that a derivation makes. -/
abbrev Allocator := Nat → Nat → Bool

/-- A machine that tells `2^47` places apart. -/
def limitedAllocator : Allocator := fun _ bytes => bytes ≤ 1 <<< 47

/-- The words that the kept values of one lane take, unless that is no size of memory. -/
def keptWords (cost : UInt64) (width : UInt32) : Option Nat :=
  let words := cost.toNat * (32 * width.toNat)
  if words < sizeLimit then some words else none

def reserve (granted : Nat → Bool) (bytes : Option Nat) : Except Error Unit :=
  match bytes with
  | none => .error .outOfMemory
  | some size => if granted size then .ok () else .error .outOfMemory

def reservationText (cost : UInt64) (width lanes : UInt32) : String :=
  let kibibytes := ((keptWords cost width).map (· / 256)).getD 0
  "scrypt: n=" ++ toString cost.toNat ++ " r=" ++ toString width.toNat ++ " p=" ++
    toString lanes.toNat ++ ", reserving " ++ toString kibibytes ++ " KiB"

/-- Memory for all lanes, for the kept values of one lane, and for a lane twice. -/
def reserveAll (allocator : Allocator) (cost : UInt64) (width lanes : UInt32) :
    Except Error Unit := do
  reserve (allocator 0) (some (128 * width.toNat * lanes.toNat))
  reserve (allocator 1) ((keptWords cost width).map (4 * ·))
  reserve (allocator 2) (some (256 * width.toNat))

end Scrypt

open Scrypt in
/-- `cost`, `width` and `lanes` are often called n, r and p. -/
def scryptWith (allocator : Allocator) (password salt : Bytes) (cost : UInt64)
    (width lanes : UInt32) (size : Nat) : Attempt Bytes := do
  Attempt.ofExcept (checkParameters cost width lanes)
  Attempt.record .debug (reservationText cost width lanes)
  Attempt.ofExcept (reserveAll allocator cost width lanes)
  let laneSize := 128 * width.toNat
  let stretched ← Attempt.ofExcept (pbkdf2 .sha256 password salt 1 (laneSize * lanes.toNat))
  let memory := Memory.cleared cost.toNat (2 * width.toNat)
  let mixed := mixLanes cost memory (Bytes.segments laneSize stretched)
  Attempt.ofExcept (pbkdf2 .sha256 password mixed.flatten 1 size)

def scrypt : Bytes → Bytes → UInt64 → UInt32 → UInt32 → Nat → Attempt Bytes :=
  scryptWith Scrypt.limitedAllocator

end SymmetricKey.Derivation
