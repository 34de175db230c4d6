import SymmetricKey.Confidentiality.Segments
import SymmetricKey.Proofs.ByteStrings

/-!
Calls of the modes that go through a text by segments, for any cipher: what has
to hold before the first segment, and how far the produced bytes can reach.
-/

namespace SymmetricKey

section Checks
variable {C : Type} [BlockCipher C]

theorem check_register_ok (cipher : C) (register input : Bytes) (room size : Nat)
    (accepted : checkRegister cipher register input room = .ok size) :
    BlockCipher.blockSize cipher = size ∧ register.length = size ∧ 0 < size ∧
      size ≤ maxModeBlock ∧ input.length ≤ room := by
  simp only [checkRegister] at accepted
  split at accepted
  · cases accepted
  · next sizes =>
      split at accepted
      · cases accepted
      · next enough =>
          cases accepted
          omega

theorem check_register_accepts (cipher : C) (register input : Bytes) (room size : Nat)
    (blocks : BlockCipher.blockSize cipher = size) (exact : register.length = size)
    (positive : 0 < size) (bounded : size ≤ maxModeBlock) (fits : input.length ≤ room) :
    checkRegister cipher register input room = .ok size := by
  have sizes : ¬(size = 0 ∨ maxModeBlock < size ∨ register.length ≠ size) := by omega
  have enough : ¬room < input.length := by omega
  simp only [checkRegister, blocks, if_neg sizes, if_neg enough]

end Checks

namespace SegmentStep

variable {C : Type}

theorem run_produced_bound (step : SegmentStep C)
    (short : ∀ cipher register segment piece next after,
      step cipher register segment = (.ok (piece, next), after) → piece.length ≤ segment.length)
    (cipher : C) (register : Bytes) (segments : List Bytes) :
    (step.run cipher register segments).produced.length ≤ segments.flatten.length := by
  induction segments generalizing cipher register with
  | nil => simp [run]
  | cons segment rest ih =>
      rw [run]
      cases answered : step cipher register segment with
      | mk answer after =>
          cases answer with
          | error cause => simp [Progress.refused]
          | ok result =>
              -- The bound of one step and that of the rest add up.
              obtain ⟨piece, next⟩ := result
              have first := short cipher register segment piece next after answered
              have others := ih after next
              simp only [List.length_append, List.flatten_cons]
              omega

theorem run_append (step : SegmentStep C) (cipher : C) (register : Bytes)
    (segments more : List Bytes) :
    step.run cipher register (segments ++ more) =
      let first := step.run cipher register segments
      if first.refusal.isSome then first
      else
        let rest := step.run first.cipher first.register more
        { rest with produced := first.produced ++ rest.produced } := by
  induction segments generalizing cipher register with
  | nil => rfl
  | cons segment rest ih =>
      rw [List.cons_append, run, run]
      cases answered : step cipher register segment with
      | mk answer after =>
          cases answer with
          | error cause => rfl
          | ok result =>
              obtain ⟨piece, next⟩ := result
              simp only [ih after next]
              cases refused : (step.run after next rest).refusal with
              | some cause => simp [refused]
              | none => simp

end SegmentStep

namespace Progress

variable {C : Type}

/-- A text in pieces, each given to a call of its own that goes on from the register of the call
before it, in the room that is left. -/
def inPieces (call : C → Bytes → Bytes → Nat → Progress C) :
    C → Bytes → List Bytes → Nat → Progress C
  | cipher, register, [], _ => { produced := [], register, cipher, refusal := none }
  | cipher, register, piece :: pieces, room =>
      let first := call cipher register piece room
      if first.refusal.isSome then first
      else
        let rest := inPieces call first.cipher first.register pieces (room - piece.length)
        { rest with produced := first.produced ++ rest.produced }

theorem in_pieces_exact (call : C → Bytes → Bytes → Nat → Progress C) (step : SegmentStep C)
    (size : Nat) (positive : 0 < size) (ready : C → Bytes → Prop)
    (through : ∀ cipher register piece room, ready cipher register → piece.length ≤ room →
      call cipher register piece room = step.run cipher register (Bytes.segments size piece))
    (kept : ∀ cipher register piece, ready cipher register →
      let after := step.run cipher register (Bytes.segments size piece)
      ready after.cipher after.register)
    (cipher : C) (register : Bytes) (start : ready cipher register) (pieces : List Bytes)
    (aligned : ∀ piece ∈ pieces.dropLast, size ∣ piece.length) (room : Nat)
    (fits : pieces.flatten.length ≤ room) :
    inPieces call cipher register pieces room =
      step.run cipher register (Bytes.segments size pieces.flatten) := by
  -- A text that is cut between segments is worked through as the whole is, up to a refusal
  -- too.
  induction pieces generalizing cipher register room with
  | nil =>
      rw [List.flatten_nil, Bytes.segments_nil]
      rfl
  | cons piece rest ih =>
      rw [List.flatten_cons, List.length_append] at fits
      have first := through cipher register piece room start (by omega)
      cases rest with
      | nil =>
          rw [inPieces, first, List.flatten_cons, List.flatten_nil, List.append_nil]
          cases finished : (step.run cipher register (Bytes.segments size piece)).refusal with
          | some cause => simp
          | none => simp [inPieces, ← finished]
      | cons next others =>
          rw [List.dropLast_cons_cons] at aligned
          obtain ⟨count, blocks⟩ := aligned piece List.mem_cons_self
          have cut := Bytes.segments_append size piece (next :: others).flatten positive count
            (by rw [blocks, Nat.mul_comm])
          have later := ih _ _ (kept cipher register piece start)
            (fun other member => aligned other (List.mem_cons_of_mem piece member))
            (room - piece.length) (by omega)
          have whole : (piece :: next :: others).flatten = piece ++ (next :: others).flatten := rfl
          rw [inPieces, first, later, whole, cut, SegmentStep.run_append]

end Progress

theorem Progress.output_frame {C : Type} (progress : Progress C) (buffer : Bytes) (reach : Nat)
    (short : progress.produced.length ≤ reach) :
    (progress.output buffer).length = buffer.length ∧
      (progress.output buffer).drop reach = buffer.drop reach :=
  ⟨Bytes.overlay_length buffer progress.produced,
    Bytes.overlay_drop buffer progress.produced reach short⟩

end SymmetricKey
