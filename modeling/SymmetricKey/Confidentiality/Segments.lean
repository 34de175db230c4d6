import SymmetricKey.BlockCipher

/-!
Modes that work through a text segment by segment, with a register that each
segment changes. A call stops at the first segment that the cipher refuses.
What was done before that stands: the output, the register and the cipher are
as a call over the earlier segments alone would have left them, so that the
work can be taken up again at the refused segment.
-/

namespace SymmetricKey

/-- How far a call came. The bytes that it produced are the front of the caller's output. -/
structure Progress (C : Type) where
  produced : Bytes
  register : Bytes
  cipher : C
  refusal : Option Error

namespace Progress

def refused {C : Type} (cause : Error) (register : Bytes) (cipher : C) : Progress C :=
  { produced := [], register, cipher, refusal := some cause }

/-- The caller's buffer with the produced bytes in front. -/
def output {C : Type} (progress : Progress C) (buffer : Bytes) : Bytes :=
  buffer.overlay progress.produced

end Progress

/-- What a mode does with one segment: the cipher, the register and the segment give the segment's
output and the next register, or a refusal. -/
abbrev SegmentStep (C : Type) := C → Bytes → Bytes → Except Error (Bytes × Bytes) × C

namespace SegmentStep

variable {C : Type}

def run (step : SegmentStep C) : C → Bytes → List Bytes → Progress C
  | cipher, register, [] => { produced := [], register, cipher, refusal := none }
  | cipher, register, segment :: segments =>
      match step cipher register segment with
      | (.error cause, after) => Progress.refused cause register after
      | (.ok (piece, next), after) =>
          let rest := run step after next segments
          { rest with produced := piece ++ rest.produced }

end SegmentStep

/-- The longest block that modes take. -/
def maxModeBlock : Nat := 16

/-- The checks that come before the first segment. Room is the length of the caller's output. -/
def checkRegister {C : Type} [BlockCipher C] (cipher : C) (register input : Bytes) (room : Nat) :
    Except Error Nat :=
  let size := BlockCipher.blockSize cipher
  if size = 0 ∨ maxModeBlock < size ∨ register.length ≠ size then .error .invalidParameter
  else if room < input.length then .error .invalidLength
  else .ok size

end SymmetricKey
