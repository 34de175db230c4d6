import SymmetricKey.Keystream
import SymmetricKey.Substitution
import SymmetricKey.Description

/-!
ZUC-128. A shift register over the integers modulo `2^31 - 1` gives four words
at every clock. A function with two words of memory turns three of them into
one, and the fourth is added to give a word of keystream.
-/

namespace SymmetricKey

structure Zuc where
  stages : Vector UInt32 16
  memory1 : UInt32
  memory2 : UInt32
  /-- What is left of the last word that bytes were taken from. -/
  unused : Bytes
deriving DecidableEq, Repr

namespace Zuc

set_option maxRecDepth 2048

def box0 : Substitution := #v[
  0x3e, 0x72, 0x5b, 0x47, 0xca, 0xe0, 0x00, 0x33, 0x04, 0xd1, 0x54, 0x98, 0x09, 0xb9, 0x6d, 0xcb,
  0x7b, 0x1b, 0xf9, 0x32, 0xaf, 0x9d, 0x6a, 0xa5, 0xb8, 0x2d, 0xfc, 0x1d, 0x08, 0x53, 0x03, 0x90,
  0x4d, 0x4e, 0x84, 0x99, 0xe4, 0xce, 0xd9, 0x91, 0xdd, 0xb6, 0x85, 0x48, 0x8b, 0x29, 0x6e, 0xac,
  0xcd, 0xc1, 0xf8, 0x1e, 0x73, 0x43, 0x69, 0xc6, 0xb5, 0xbd, 0xfd, 0x39, 0x63, 0x20, 0xd4, 0x38,
  0x76, 0x7d, 0xb2, 0xa7, 0xcf, 0xed, 0x57, 0xc5, 0xf3, 0x2c, 0xbb, 0x14, 0x21, 0x06, 0x55, 0x9b,
  0xe3, 0xef, 0x5e, 0x31, 0x4f, 0x7f, 0x5a, 0xa4, 0x0d, 0x82, 0x51, 0x49, 0x5f, 0xba, 0x58, 0x1c,
  0x4a, 0x16, 0xd5, 0x17, 0xa8, 0x92, 0x24, 0x1f, 0x8c, 0xff, 0xd8, 0xae, 0x2e, 0x01, 0xd3, 0xad,
  0x3b, 0x4b, 0xda, 0x46, 0xeb, 0xc9, 0xde, 0x9a, 0x8f, 0x87, 0xd7, 0x3a, 0x80, 0x6f, 0x2f, 0xc8,
  0xb1, 0xb4, 0x37, 0xf7, 0x0a, 0x22, 0x13, 0x28, 0x7c, 0xcc, 0x3c, 0x89, 0xc7, 0xc3, 0x96, 0x56,
  0x07, 0xbf, 0x7e, 0xf0, 0x0b, 0x2b, 0x97, 0x52, 0x35, 0x41, 0x79, 0x61, 0xa6, 0x4c, 0x10, 0xfe,
  0xbc, 0x26, 0x95, 0x88, 0x8a, 0xb0, 0xa3, 0xfb, 0xc0, 0x18, 0x94, 0xf2, 0xe1, 0xe5, 0xe9, 0x5d,
  0xd0, 0xdc, 0x11, 0x66, 0x64, 0x5c, 0xec, 0x59, 0x42, 0x75, 0x12, 0xf5, 0x74, 0x9c, 0xaa, 0x23,
  0x0e, 0x86, 0xab, 0xbe, 0x2a, 0x02, 0xe7, 0x67, 0xe6, 0x44, 0xa2, 0x6c, 0xc2, 0x93, 0x9f, 0xf1,
  0xf6, 0xfa, 0x36, 0xd2, 0x50, 0x68, 0x9e, 0x62, 0x71, 0x15, 0x3d, 0xd6, 0x40, 0xc4, 0xe2, 0x0f,
  0x8e, 0x83, 0x77, 0x6b, 0x25, 0x05, 0x3f, 0x0c, 0x30, 0xea, 0x70, 0xb7, 0xa1, 0xe8, 0xa9, 0x65,
  0x8d, 0x27, 0x1a, 0xdb, 0x81, 0xb3, 0xa0, 0xf4, 0x45, 0x7a, 0x19, 0xdf, 0xee, 0x78, 0x34, 0x60]

def box1 : Substitution := #v[
  0x55, 0xc2, 0x63, 0x71, 0x3b, 0xc8, 0x47, 0x86, 0x9f, 0x3c, 0xda, 0x5b, 0x29, 0xaa, 0xfd, 0x77,
  0x8c, 0xc5, 0x94, 0x0c, 0xa6, 0x1a, 0x13, 0x00, 0xe3, 0xa8, 0x16, 0x72, 0x40, 0xf9, 0xf8, 0x42,
  0x44, 0x26, 0x68, 0x96, 0x81, 0xd9, 0x45, 0x3e, 0x10, 0x76, 0xc6, 0xa7, 0x8b, 0x39, 0x43, 0xe1,
  0x3a, 0xb5, 0x56, 0x2a, 0xc0, 0x6d, 0xb3, 0x05, 0x22, 0x66, 0xbf, 0xdc, 0x0b, 0xfa, 0x62, 0x48,
  0xdd, 0x20, 0x11, 0x06, 0x36, 0xc9, 0xc1, 0xcf, 0xf6, 0x27, 0x52, 0xbb, 0x69, 0xf5, 0xd4, 0x87,
  0x7f, 0x84, 0x4c, 0xd2, 0x9c, 0x57, 0xa4, 0xbc, 0x4f, 0x9a, 0xdf, 0xfe, 0xd6, 0x8d, 0x7a, 0xeb,
  0x2b, 0x53, 0xd8, 0x5c, 0xa1, 0x14, 0x17, 0xfb, 0x23, 0xd5, 0x7d, 0x30, 0x67, 0x73, 0x08, 0x09,
  0xee, 0xb7, 0x70, 0x3f, 0x61, 0xb2, 0x19, 0x8e, 0x4e, 0xe5, 0x4b, 0x93, 0x8f, 0x5d, 0xdb, 0xa9,
  0xad, 0xf1, 0xae, 0x2e, 0xcb, 0x0d, 0xfc, 0xf4, 0x2d, 0x46, 0x6e, 0x1d, 0x97, 0xe8, 0xd1, 0xe9,
  0x4d, 0x37, 0xa5, 0x75, 0x5e, 0x83, 0x9e, 0xab, 0x82, 0x9d, 0xb9, 0x1c, 0xe0, 0xcd, 0x49, 0x89,
  0x01, 0xb6, 0xbd, 0x58, 0x24, 0xa2, 0x5f, 0x38, 0x78, 0x99, 0x15, 0x90, 0x50, 0xb8, 0x95, 0xe4,
  0xd0, 0x91, 0xc7, 0xce, 0xed, 0x0f, 0xb4, 0x6f, 0xa0, 0xcc, 0xf0, 0x02, 0x4a, 0x79, 0xc3, 0xde,
  0xa3, 0xef, 0xea, 0x51, 0xe6, 0x6b, 0x18, 0xec, 0x1b, 0x2c, 0x80, 0xf7, 0x74, 0xe7, 0xff, 0x21,
  0x5a, 0x6a, 0x54, 0x1e, 0x41, 0x31, 0x92, 0x35, 0xc4, 0x33, 0x07, 0x0a, 0xba, 0x7e, 0x0e, 0x34,
  0x88, 0xb1, 0x98, 0x7c, 0xf3, 0x3d, 0x60, 0x6c, 0x7b, 0xca, 0xd3, 0x1f, 0x32, 0x65, 0x04, 0x28,
  0x64, 0xbe, 0x85, 0x9b, 0x2f, 0x59, 0x8a, 0xd7, 0xb0, 0x25, 0xac, 0xaf, 0x12, 0x03, 0xe2, 0xf2]

def prime : UInt32 := 0x7FFFFFFF

/-- Takes the part above 31 bits away and adds it below, since `2^31` is 1 modulo the prime. -/
def fold31 (sum : UInt64) : UInt64 := (sum >>> 31) + (sum &&& prime.toUInt64)

def residue (sum : UInt64) : UInt32 :=
  -- The residue that stands for zero is the prime itself.
  let value := (fold31 (fold31 sum)).toUInt32
  if value = 0 then prime else value

def feedback (stages : Vector UInt32 16) (injected : UInt32) : UInt64 :=
  injected.toUInt64 + (stages.get 0).toUInt64 + ((stages.get 0).toUInt64 <<< 8) +
    ((stages.get 4).toUInt64 <<< 20) + ((stages.get 10).toUInt64 <<< 21) +
    ((stages.get 13).toUInt64 <<< 17) + ((stages.get 15).toUInt64 <<< 15)

def shift (injected : UInt32) (state : Zuc) : Zuc :=
  { state with stages := state.stages.tail.push (residue (feedback state.stages injected)) }

/-- The upper half of one stage before the lower half of another. -/
def upperLower (upper lower : UInt32) : UInt32 :=
  ((upper &&& 0x7FFF8000) <<< 1) ||| (lower &&& 0xFFFF)

/-- The lower half of one stage before the upper half of another. -/
def lowerUpper (lower upper : UInt32) : UInt32 :=
  ((lower &&& 0xFFFF) <<< 16) ||| (upper >>> 15)

def readOut (stages : Vector UInt32 16) : Quad :=
  ⟨upperLower (stages.get 15) (stages.get 14), lowerUpper (stages.get 11) (stages.get 9),
    lowerUpper (stages.get 7) (stages.get 5), lowerUpper (stages.get 2) (stages.get 0)⟩

def spread1 (word : UInt32) : UInt32 :=
  word ^^^ rotateLeft32 word 2 ^^^ rotateLeft32 word 10 ^^^ rotateLeft32 word 18 ^^^
    rotateLeft32 word 24

def spread2 (word : UInt32) : UInt32 :=
  word ^^^ rotateLeft32 word 8 ^^^ rotateLeft32 word 14 ^^^ rotateLeft32 word 22 ^^^
    rotateLeft32 word 30

def substitute (word : UInt32) : UInt32 :=
  BigEndian.word (box0.apply (word >>> 24).toUInt8) (box1.apply (word >>> 16).toUInt8)
    (box0.apply (word >>> 8).toUInt8) (box1.apply word.toUInt8)

/-- The word that the memory makes of the first three words, and the memory after that. -/
def remember (words : Quad) (state : Zuc) : UInt32 × Zuc :=
  let sum := state.memory1 + words.w1
  let difference := state.memory2 ^^^ words.w2
  ((words.w0 ^^^ state.memory1) + state.memory2,
    { state with
      memory1 := substitute (spread1 ((sum <<< 16) ||| (difference >>> 16)))
      memory2 := substitute (spread2 ((difference <<< 16) ||| (sum >>> 16))) })

def nextWord (state : Zuc) : UInt32 × Zuc :=
  let words := readOut state.stages
  let (word, after) := remember words state
  (word ^^^ words.w3, shift 0 after)

def words : Nat → Zuc → List UInt32 × Zuc
  | 0, state => ([], state)
  | count + 1, state =>
      let (word, after) := nextWord state
      let (rest, last) := words count after
      (word :: rest, last)

def next (state : Zuc) : UInt8 × Zuc :=
  -- Words give their bytes from the top down.
  match state.unused with
  | byte :: unused => (byte, { state with unused })
  | [] =>
      let (word, after) := nextWord state
      let part := BigEndian.bytes32 word
      (part.headD 0, { after with unused := part.tail })

instance : Keystream Zuc := ⟨next⟩

def loadingConstants : Vector UInt32 16 := #v[
  0x44D7, 0x26BC, 0x626B, 0x135E, 0x5789, 0x35E2, 0x7135, 0x09AF,
  0x4D78, 0x2F13, 0x6BC4, 0x1AF1, 0x5E26, 0x3C4D, 0x789A, 0x47AC]

def loaded (key iv : Bytes) : Zuc :=
  { stages := Vector.ofFn fun index =>
      ((key.getD index.val 0).toUInt32 <<< 23) ||| (loadingConstants.get index <<< 8) |||
        (iv.getD index.val 0).toUInt32
    memory1 := 0
    memory2 := 0
    unused := [] }

def warmUp (state : Zuc) : Zuc :=
  -- While the register is warmed up, the word of the memory is fed back into it.
  let (word, after) := remember (readOut state.stages) state
  shift (word >>> 1) after

def ofKey (key iv : Bytes) : Except Error Zuc :=
  -- After 32 warm-up clocks one more word is dropped.
  if key.length ≠ 16 then .error .invalidKeyLength
  else if iv.length ≠ 16 then .error .invalidParameter
  else .ok (nextWord (Nat.repeat warmUp 32 (loaded key iv))).2

def describe (_state : Zuc) : String := Description.partly "Zuc" []

end Zuc

end SymmetricKey
