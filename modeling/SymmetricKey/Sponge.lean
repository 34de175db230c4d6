import SymmetricKey.Sponge.Keccak
import SymmetricKey.Sponge.Framing

/-!
A sponge absorbs a string and then gives out any number of bytes. Of its 200
bytes the first `rate` take part in both. Each byte is added to the state where
it belongs; the state is permuted when a block is full, and again before a byte
is given out beyond the block.
-/

namespace SymmetricKey

structure Sponge where
  lanes : Lanes
  rate : Nat
  /-- The place in the block of the next byte. -/
  position : Nat
deriving DecidableEq, Repr

namespace Sponge

def empty (rate : Nat) : Sponge := { lanes := Lanes.zero, rate, position := 0 }

def wordAt (lanes : Lanes) (position : Nat) : UInt64 := lanes[position / 8]?.getD 0

/-- How far a byte is from the low end of its word; the lowest byte comes first. -/
def offset (position : Nat) : UInt64 := UInt64.ofNat (8 * (position % 8))

def addByte (lanes : Lanes) (position : Nat) (byte : UInt8) : Lanes :=
  lanes.setIfInBounds (position / 8)
    (wordAt lanes position ^^^ (byte.toUInt64 <<< offset position))

/-- Adds a block word by word; a word that is not complete is left out. -/
def addBlock (lanes : Lanes) (block : Bytes) : Lanes :=
  let words := LittleEndian.words64 block
  Vector.zipWith (· ^^^ ·) lanes (Vector.ofFn fun index => words.getD index.val 0)

def absorbBlock (lanes : Lanes) (block : Bytes) : Lanes := (addBlock lanes block).permute

def absorbByte (sponge : Sponge) (byte : UInt8) : Sponge :=
  let lanes := addByte sponge.lanes sponge.position byte
  if sponge.position + 1 = sponge.rate then { sponge with lanes := lanes.permute, position := 0 }
  else { sponge with lanes, position := sponge.position + 1 }

def absorbBytes (sponge : Sponge) (data : Bytes) : Sponge := data.foldl absorbByte sponge

def absorb (sponge : Sponge) (data : Bytes) : Sponge :=
  -- Where no block has been begun, whole blocks go in at once.
  if sponge.position = 0 then
    let (blocks, rest) := Bytes.completeBlocks sponge.rate data
    absorbBytes { sponge with lanes := blocks.foldl absorbBlock sponge.lanes } rest
  else absorbBytes sponge data

/-- A block that has been begun ends here, as if it went on with zeros. -/
def fillBlock (sponge : Sponge) : Sponge :=
  if sponge.position = 0 then sponge
  else { sponge with lanes := sponge.lanes.permute, position := 0 }

def absorbString (sponge : Sponge) (text : Bytes) : Sponge :=
  -- Lengths are counted in bits.
  (sponge.absorb (Framing.leftEncode (UInt64.ofNat text.length * 8))).absorb text

/-- Several strings behind the block size, filled up to whole blocks. -/
def absorbPadded (sponge : Sponge) (texts : List Bytes) : Sponge :=
  let started := sponge.absorb (Framing.leftEncode (UInt64.ofNat sponge.rate))
  (texts.foldl absorbString started).fillBlock

/-- Ends the string with the domain byte and a marker in the top bit of the block. -/
def close (sponge : Sponge) (domain : UInt8) : Sponge :=
  let marked := addByte sponge.lanes sponge.position domain
  { sponge with lanes := (addByte marked (sponge.rate - 1) 0x80).permute, position := 0 }

def byteAt (lanes : Lanes) (position : Nat) : UInt8 :=
  (wordAt lanes position >>> offset position).toUInt8

def squeezeByte (sponge : Sponge) : UInt8 × Sponge :=
  let ready :=
    if sponge.position =
      sponge.rate then { sponge with lanes := sponge.lanes.permute, position := 0 }
    else sponge
  (byteAt ready.lanes ready.position, { ready with position := ready.position + 1 })

def squeeze : Nat → Sponge → Bytes × Sponge
  | 0, sponge => ([], sponge)
  | length + 1, sponge =>
      let (byte, next) := squeezeByte sponge
      let (rest, last) := squeeze length next
      (byte :: rest, last)

/-- Closes the string under the given domain and gives out `length` bytes. -/
def finish (sponge : Sponge) (domain : UInt8) (length : Nat) : Bytes :=
  (squeeze length (sponge.close domain)).1

end Sponge

end SymmetricKey
