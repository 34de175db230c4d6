import SymmetricKey.Endian

/-!
The permutation of 25 words under the sponge. Word `(x, y)` of a square of five
by five stands at index `x + 5 * y`. A round adds column parities, rotates the
words while moving each to another place, combines neighbours in a row, and
adds a constant.
-/

namespace SymmetricKey

abbrev Lanes := Vector UInt64 25

namespace Lanes

def zero : Lanes := Vector.replicate 25 0

/-- The word at column `x` of row `y`, both taken modulo five. -/
def word (lanes : Lanes) (x y : Nat) : UInt64 :=
  lanes.get ⟨x % 5 + 5 * (y % 5), by omega⟩

def ofCoordinates (value : Nat → Nat → UInt64) : Lanes :=
  Vector.ofFn fun index => value (index.val % 5) (index.val / 5)

def addParities (lanes : Lanes) : Lanes :=
  let parities : Vector UInt64 5 := Vector.ofFn fun x =>
    lanes.word x.val 0 ^^^ lanes.word x.val 1 ^^^ lanes.word x.val 2 ^^^ lanes.word x.val 3 ^^^
      lanes.word x.val 4
  let parity (x : Nat) : UInt64 := parities.get ⟨x % 5, by omega⟩
  let change : Vector UInt64 5 := Vector.ofFn fun x =>
    parity (x.val + 4) ^^^ rotateLeft64 (parity (x.val + 1)) 1
  ofCoordinates fun x y => lanes.word x y ^^^ change.get ⟨x % 5, by omega⟩

/-- A walk through all places but the first: each gets the word of the place before it, rotated. -/
def walk : List (Fin 25 × UInt64) := [
  (10, 1), (7, 3), (11, 6), (17, 10), (18, 15), (3, 21), (5, 28), (16, 36),
  (8, 45), (21, 55), (24, 2), (4, 14), (15, 27), (23, 41), (19, 56), (13, 8),
  (12, 25), (2, 43), (20, 62), (14, 18), (22, 39), (9, 61), (6, 20), (1, 44)]

/-- Writes the carried word, rotated, and carries on what stood there. -/
def walkStep (state : Lanes × UInt64) (step : Fin 25 × UInt64) : Lanes × UInt64 :=
  (state.1.set step.1.val (rotateLeft64 state.2 step.2) step.1.isLt, state.1.get step.1)

def rotateAndMove (lanes : Lanes) : Lanes := (walk.foldl walkStep (lanes, lanes.get 1)).1

def combineRows (lanes : Lanes) : Lanes :=
  ofCoordinates fun x y =>
    lanes.word x y ^^^ (~~~lanes.word (x + 1) y &&& lanes.word (x + 2) y)

def addConstant (constant : UInt64) (lanes : Lanes) : Lanes :=
  lanes.set 0 (lanes.get 0 ^^^ constant)

def round (lanes : Lanes) (constant : UInt64) : Lanes :=
  addConstant constant (combineRows (rotateAndMove (addParities lanes)))

def constants : List UInt64 := [
  0x0000000000000001, 0x0000000000008082, 0x800000000000808A, 0x8000000080008000,
  0x000000000000808B, 0x0000000080000001, 0x8000000080008081, 0x8000000000008009,
  0x000000000000008A, 0x0000000000000088, 0x0000000080008009, 0x000000008000000A,
  0x000000008000808B, 0x800000000000008B, 0x8000000000008089, 0x8000000000008003,
  0x8000000000008002, 0x8000000000000080, 0x000000000000800A, 0x800000008000000A,
  0x8000000080008081, 0x8000000000008080, 0x0000000080000001, 0x8000000080008008]

def permute (lanes : Lanes) : Lanes := constants.foldl round lanes

end Lanes

end SymmetricKey
