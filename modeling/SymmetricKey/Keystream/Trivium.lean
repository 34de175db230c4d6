import SymmetricKey.Keystream
import SymmetricKey.Description

/-!
Trivium. Three shift registers feed one another in a ring. At every clock each
register moves by one stage and takes in a bit that depends on the register
before it; the output bit is a sum of six stages.
-/

namespace SymmetricKey

/-- Stage `i` of a register is bit `i`; new bits enter at stage 0. -/
structure Trivium where
  a : BitVec 93
  b : BitVec 84
  c : BitVec 111
deriving DecidableEq, Repr

namespace Trivium

def keySize : Nat := 10

def maxIvSize : Nat := 10

/-- The output bit and the state after one clock. -/
def clock (state : Trivium) : Bool × Trivium :=
  let tapA := state.a.getLsbD 65 ^^ state.a.getLsbD 92
  let tapB := state.b.getLsbD 68 ^^ state.b.getLsbD 83
  let tapC := state.c.getLsbD 65 ^^ state.c.getLsbD 110
  let fromA := tapA ^^ (state.a.getLsbD 90 && state.a.getLsbD 91) ^^ state.b.getLsbD 77
  let fromB := tapB ^^ (state.b.getLsbD 81 && state.b.getLsbD 82) ^^ state.c.getLsbD 86
  let fromC := tapC ^^ (state.c.getLsbD 108 && state.c.getLsbD 109) ^^ state.a.getLsbD 68
  (tapA ^^ tapB ^^ tapC,
    { a := state.a.shiftConcat fromC
      b := state.b.shiftConcat fromA
      c := state.c.shiftConcat fromB })

/-- The output of `count` clocks, first bit first. -/
def bits : Nat → Trivium → List Bool × Trivium
  | 0, state => ([], state)
  | count + 1, state =>
      let (bit, after) := clock state
      let (rest, last) := bits count after
      (bit :: rest, last)

/-- The first bit is the lowest. -/
def byteOfBits (bits : List Bool) : UInt8 :=
  bits.foldr (fun bit byte => (byte <<< 1) ||| (if bit then 1 else 0)) 0

def next (state : Trivium) : UInt8 × Trivium :=
  let (output, after) := bits 8 state
  (byteOfBits output, after)

instance : Keystream Trivium := ⟨next⟩

/-- The bits of a byte, lowest first. -/
def bitsOfByte (byte : UInt8) : List Bool :=
  (List.range 8).map byte.toBitVec.getLsbD

/-- Eighty stages take the bytes in, the first bit deepest. Missing bytes are zero. -/
def load (width : Nat) (bytes : Bytes) : BitVec width :=
  ((bytes ++ Bytes.zeros (10 - bytes.length)).flatMap bitsOfByte).foldl BitVec.shiftConcat 0

/-- Before any output every stage has gone four times around the ring. -/
def warmUpClocks : Nat := 4 * 288

def loaded (key iv : Bytes) : Trivium :=
  { a := load 93 key, b := load 84 iv, c := 0b111#111 <<< 108 }

def ofKey (key iv : Bytes) : Except Error Trivium :=
  if key.length ≠ keySize then .error .invalidKeyLength
  else if maxIvSize < iv.length then .error .invalidParameter
  else .ok (Nat.repeat (fun state => (clock state).2) warmUpClocks (loaded key iv))

def describe (_state : Trivium) : String := Description.partly "Trivium" []

end Trivium

end SymmetricKey
