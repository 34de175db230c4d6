import SymmetricKey.Proofs.CounterMode
import SymmetricKey.Proofs.FeedbackText
import SymmetricKey.Proofs.ForeignCiphers

/-!
Counter mode and cipher feedback in a machine's buffers. Both go through the
pieces of the input and of the output side by side, with the encrypted register
in a buffer that no block is longer than. Whatever the cipher does, the calls
come to their end; with a plain cipher they are those of the library.
-/

namespace SymmetricKey

/-- What a call leaves in the caller's register and output. -/
structure Leftover (C : Type) where
  refusal : Option Error
  register : Bytes
  output : Bytes
  cipher : C

/-- What one segment leaves, and the buffer of the encrypted register. -/
structure SegmentLeft (C : Type) extends Leftover C where
  scratch : Bytes

abbrev BufferedStep (C : Type) :=
  C → (register scratch segment target : Bytes) → Checked (SegmentLeft C)

namespace Leftover

variable {C : Type}

def refused (cause : Error) (register output : Bytes) (cipher : C) : Leftover C :=
  { refusal := some cause, register, output, cipher }

def ofProgress (output : Bytes) (progress : Progress C) : Leftover C :=
  { refusal := progress.refusal, register := progress.register, output := progress.output output
    cipher := progress.cipher }

end Leftover

namespace BufferedStep

variable {C : Type}

def run (step : BufferedStep C) : C → Bytes → Bytes → List Bytes → List Bytes → Checked (Leftover C)
  | cipher, register, scratch, segment :: segments, target :: targets => do
      let done ← step cipher register scratch segment target
      if done.refusal.isSome then
        .ok { done.toLeftover with output := done.output ++ targets.flatten }
      else
        let rest ← run step done.cipher done.register done.scratch segments targets
        .ok { rest with output := done.output ++ rest.output }
  | cipher, register, _, [], targets =>
      .ok { refusal := none, register, output := targets.flatten, cipher }
  | cipher, register, _, _ :: _, [] => .ok { refusal := none, register, output := [], cipher }

-- The encrypted register has a buffer as long as the longest block.
def overText (step : BufferedStep C) (width : Nat) (cipher : C) (register input output : Bytes) :
    Checked (Leftover C) := do
  let segments ← Checked.pieces width input
  let targets ← Checked.pieces width output
  step.run cipher register (Bytes.zeros maxModeBlock) segments targets

end BufferedStep

section Calls
variable {C : Type} [ForeignCipher C]

def checkBuffers (cipher : C) (register input output : Bytes) : Except Error Nat :=
  let size := ForeignCipher.blockSize cipher
  if size = 0 ∨ maxModeBlock < size ∨ register.length ≠ size then .error .invalidParameter
  else if output.length < input.length then .error .invalidLength
  else .ok size

/-- A call of a mode that refuses some block sizes and takes the text in pieces of some width. -/
def bufferedCall (refuses : Nat → Prop) [DecidablePred refuses] (width : Nat → Nat)
    (step : Nat → BufferedStep C) (cipher : C) (register input output : Bytes) :
    Checked (Leftover C) :=
  match checkBuffers cipher register input output with
  | .error cause => .ok (.refused cause register output cipher)
  | .ok size =>
      if refuses size then .ok (.refused .invalidParameter register output cipher)
      else (step size).overText (width size) cipher register input output

namespace Ctr

def bufferedStep (width size : Nat) : BufferedStep C :=
  fun cipher counter scratch segment target => do
  let written ← ForeignCipher.cryptFront .encrypt cipher counter scratch size
  if written.refusal.isSome then
    .ok { refusal := written.refusal, register := counter, output := target, cipher := written.after
          scratch := written.output }
  else
    .ok { refusal := none, register := increment width counter
          output := target.overlay (segment.xor written.output), cipher := written.after
          scratch := written.output }

def buffered (cipher : C) (bits : Nat) (counter input output : Bytes) : Checked (Leftover C) :=
  bufferedCall (fun size => bits % 8 ≠ 0 ∨ size < bits / 8) (fun size => size)
    (bufferedStep (bits / 8)) cipher counter input output

end Ctr

namespace Cfb

def bufferedShift (size : Nat) (register segment : Bytes) : Checked Bytes := do
  let moved ← Checked.moveToStart register size
  let first ← Checked.subtract register.length size
  let last ← Checked.add first segment.length
  Checked.copyInto moved first last segment

-- The enciphered segment is read where it has been written.
def bufferedFeed (direction : Direction) (output segment : Bytes) : Checked Bytes :=
  match direction with
  | .encrypt => Checked.slice output 0 segment.length
  | .decrypt => .ok segment

def bufferedStep (direction : Direction) (width size : Nat) : BufferedStep C :=
  fun cipher register scratch segment target => do
    let written ← ForeignCipher.cryptFront .encrypt cipher register scratch size
    if written.refusal.isSome then
      .ok { refusal := written.refusal, register, output := target, cipher := written.after
            scratch := written.output }
    else
      let output ← Checked.edit target 0 segment.length
        (Bytes.overlay · (segment.xor written.output))
      let fed ← bufferedFeed direction output segment
      let register ← bufferedShift width register fed
      .ok { refusal := none, register, output, cipher := written.after, scratch := written.output }

def buffered (direction : Direction) (cipher : C) (bits : Nat) (iv input output : Bytes) :
    Checked (Leftover C) :=
  bufferedCall (fun size => bits % 8 ≠ 0 ∨ bits = 0 ∨ size < bits / 8) (fun _ => bits / 8)
    (bufferedStep direction (bits / 8)) cipher iv input output

end Cfb

end Calls

theorem Bytes.overlay_pieces (buffer piece rest : Bytes) (size : Nat)
    (fits : piece.length ≤ (buffer.take size).length) (behind : piece.length = size ∨ rest = []) :
    overlay buffer (piece ++ rest) =
      overlay (buffer.take size) piece ++ overlay (buffer.drop size) rest := by
  have inside : piece.length ≤ buffer.length := by
    rw [List.length_take] at fits
    omega
  rcases behind with full | none
  · have last : (buffer.take size).drop piece.length = [] := by
      rw [full, List.drop_eq_nil_of_le (List.length_take_le _ _)]
    rw [overlay_fitting _ _ fits, last, List.append_nil, overlay, overlay, List.take_append,
      List.take_of_length_le inside, List.length_append, List.length_drop, List.drop_drop, full,
      List.append_assoc]
  · have cut : buffer.drop piece.length =
        (buffer.take size).drop piece.length ++ buffer.drop size := by
      rw [← List.drop_append_of_le_length fits, List.take_append_drop]
    rw [none, List.append_nil, overlay_nothing, overlay_fitting _ _ inside,
      overlay_fitting _ _ fits, cut, List.append_assoc]

/-- A call of the library as its caller's buffers show it. One that is not refused has come to the
end of the input. -/
structure Leftover.Shows {C : Type} (done : Leftover C) (input output : Bytes)
    (progress : Progress C) :
    Prop where
  same : done = .ofProgress output progress
  whole : progress.refusal = none → progress.produced.length = input.length

theorem Leftover.shows_refused {C : Type} (cause : Error) (register input output : Bytes)
    (cipher : C) :
    (Leftover.refused cause register output cipher).Shows input output
      (Progress.refused cause register cipher) := by
  refine ⟨?_, fun given => by cases given⟩
  change _ = Leftover.mk _ _ (Bytes.overlay output []) _
  rw [Bytes.overlay_nothing]
  rfl

/-- The segment was refused and left its target alone, or its text lies on the target. -/
def SegmentLeft.Follows {C : Type} (done : SegmentLeft C) (register segment target : Bytes) :
    Except Error (Bytes × Bytes) × C → Prop
  | (.error cause, after) => done.toLeftover = .refused cause register target after
  | (.ok (piece, next), after) =>
      piece.length = segment.length ∧
        done.toLeftover =
          { refusal := none, register := next, output := target.overlay piece, cipher := after }

section Runs
variable {C : Type} [ForeignCipher C] [BlockCipher C]

/-- The step comes to its end whatever the cipher does, and with a plain cipher follows a rule. -/
def BufferedStep.Runs (size width : Nat) (step : BufferedStep C) (rule : SegmentStep C) : Prop :=
  ∀ cipher register scratch segment target, register.length = size → scratch.length = 16 →
    segment.length ≤ width → segment.length ≤ target.length →
      ∃ done, step cipher register scratch segment target = .ok done ∧
        done.register.length = size ∧ done.scratch.length = 16 ∧
        (Plain C → done.Follows register segment target (rule cipher register segment))

variable (size width : Nat) (step : BufferedStep C) (rule : SegmentStep C) (positive : 0 < width)
  (runs : step.Runs size width rule)
include positive runs

theorem BufferedStep.run_runs (input : Bytes) (cipher : C) (register scratch output : Bytes)
    (exact : register.length = size) (wide : scratch.length = 16)
    (fits : input.length ≤ output.length) :
    ∃ done, step.run cipher register scratch (input.segments width) (output.segments width) =
      .ok done ∧
      (Plain C → done.Shows input output (rule.run cipher register (input.segments width))) := by
  -- Text and output are cut alike, and the hypothesis takes what is left of both.
  induction input using Bytes.segments_induction width positive generalizing cipher register scratch
    output with
  | none =>
      rw [Bytes.segments_nil]
      refine ⟨_, rfl, ?_⟩
      intro _
      refine ⟨?_, fun _ => rfl⟩
      rw [Bytes.segments_flatten width output positive, SegmentStep.run, Leftover.ofProgress,
        Progress.output, Bytes.overlay_nothing]
  | further input some ih =>
      have long : 0 < input.length := List.length_pos_iff.mpr some
      have room : output ≠ [] := List.length_pos_iff.mp (by omega)
      have front : (input.take width).length ≤ (output.take width).length := by
        rw [List.length_take, List.length_take]
        omega
      obtain ⟨done, ran, still, wider, follows⟩ := runs cipher register scratch (input.take width)
        (output.take width) exact wide (List.length_take_le _ _) front
      rw [Bytes.segments_cons width input positive some,
        Bytes.segments_cons width output positive room, run, ran, Checked.ok_bind,
        Bytes.segments_flatten width _ positive]
      obtain ⟨⟨refusal, next, written, after⟩, other⟩ := done
      by_cases refused : refusal.isSome
      · rw [if_pos refused]
        refine ⟨_, rfl, ?_⟩
        intro plain
        have left := follows plain
        rcases answered :
          rule cipher register (input.take width) with ⟨cause | ⟨piece, moved⟩, last⟩
        · rw [answered] at left
          cases left
          rw [SegmentStep.run, answered]
          change (Leftover.refused cause register (output.take width ++ output.drop width)
            after).Shows input output _
          rw [List.take_append_drop]
          exact Leftover.shows_refused cause register input output after
        · rw [answered] at left
          cases left.2
          cases refused
      · rw [if_neg refused]
        have behind : (input.drop width).length ≤ (output.drop width).length := by
          rw [List.length_drop, List.length_drop]
          omega
        obtain ⟨rest, further, shows⟩ := ih after next other (output.drop width) still wider behind
        rw [further, Checked.ok_bind]
        refine ⟨_, rfl, ?_⟩
        intro plain
        obtain ⟨same, complete⟩ := shows plain
        have left := follows plain
        rcases answered :
          rule cipher register (input.take width) with ⟨cause | ⟨piece, moved⟩, last⟩
        · rw [answered] at left
          cases left
          cases refused rfl
        · rw [answered] at left
          obtain ⟨whole, left⟩ := left
          cases left
          rw [List.length_take] at whole
          -- Only the last segment may be short, and nothing is written behind it.
          have alone : piece.length = width ∨
              (rule.run after next (Bytes.segments width (input.drop width))).produced = [] := by
            by_cases full : width ≤ input.length
            · exact Or.inl (by omega)
            · rw [List.drop_eq_nil_of_le (by omega), Bytes.segments_nil]
              exact Or.inr rfl
          rw [same, SegmentStep.run, answered]
          refine ⟨?_, ?_⟩
          · rw [Leftover.ofProgress, Leftover.ofProgress, Progress.output, Progress.output,
              Bytes.overlay_pieces output piece _ width
                (by rw [whole, ← List.length_take]; exact front) alone]
          · intro given
            have rest := complete given
            rw [List.length_drop] at rest
            rw [List.length_append]
            omega

theorem BufferedStep.over_text_runs (cipher : C) (register input output : Bytes)
    (exact : register.length = size) (fits : input.length ≤ output.length) :
    ∃ done, step.overText width cipher register input output = .ok done ∧
      (Plain C → done.Shows input output (rule.run cipher register (input.segments width))) := by
  rw [overText, Checked.pieces_within width input positive, Checked.ok_bind,
    Checked.pieces_within width output positive, Checked.ok_bind]
  exact run_runs size width step rule positive runs input cipher register _ output exact
    (Bytes.zeros_length 16) fits

end Runs

section Modes
variable {C : Type} [ForeignCipher C]

theorem check_buffers_ok (cipher : C) (register input output : Bytes) (size : Nat)
    (accepted : checkBuffers cipher register input output = .ok size) :
    register.length = size ∧ 0 < size ∧ size ≤ 16 ∧ input.length ≤ output.length := by
  simp only [checkBuffers] at accepted
  split_ifs at accepted with sizes room
  cases accepted
  rw [maxModeBlock] at sizes
  omega

variable [BlockCipher C]

theorem check_buffers_exact (plain : Plain C) (cipher : C) (register input output : Bytes) :
    checkBuffers cipher register input output =
      checkRegister cipher register input output.length := by
  rw [checkBuffers, plain.size, checkRegister]

theorem buffered_call_runs (refuses : Nat → Prop) [DecidablePred refuses] (width : Nat → Nat)
    (step : Nat → BufferedStep C) (rule : SegmentStep C)
    (runs : ∀ size, 0 < size → size ≤ 16 → ¬refuses size →
      0 < width size ∧ (step size).Runs size (width size) rule)
    (cipher : C) (register input output : Bytes) :
    ∃ done, bufferedCall refuses width step cipher register input output = .ok done ∧
      (Plain C → done.Shows input output
        (match checkRegister cipher register input output.length with
        | .error cause => Progress.refused cause register cipher
        | .ok size =>
            if refuses size then Progress.refused .invalidParameter register cipher
            else rule.run cipher register (input.segments (width size)))) := by
  cases accepted : checkBuffers cipher register input output with
  | error cause =>
      refine ⟨_, by rw [bufferedCall, accepted], ?_⟩
      intro plain
      rw [check_buffers_exact plain] at accepted
      rw [accepted]
      exact Leftover.shows_refused cause register input output cipher
  | ok size =>
      obtain ⟨exact, positive, small, fits⟩ :=
        check_buffers_ok cipher register input output size accepted
      simp only [bufferedCall, accepted]
      by_cases wrong : refuses size
      · rw [if_pos wrong]
        refine ⟨_, rfl, ?_⟩
        intro plain
        rw [check_buffers_exact plain] at accepted
        simp only [accepted, if_pos wrong]
        exact Leftover.shows_refused _ register input output cipher
      · obtain ⟨room, follows⟩ := runs size positive small wrong
        obtain ⟨done, ran, shows⟩ :=
          BufferedStep.over_text_runs size (width size) (step size) rule room
            follows cipher register input output exact fits
        rw [if_neg wrong]
        refine ⟨done, ran, ?_⟩
        intro plain
        rw [check_buffers_exact plain] at accepted
        simp only [accepted, if_neg wrong]
        exact shows plain

omit [ForeignCipher C] [BlockCipher C] in
-- Of the buffer of the encrypted register only the front is added to a segment.
theorem key_text (segment scratch : Bytes) {size : Nat} (key : Block size)
    (short : segment.length ≤ size) (inside : size ≤ scratch.length) :
    Bytes.xor segment (Bytes.overlay scratch key.toList) = Bytes.xor segment key.toList := by
  have width := key.length_toList
  rw [Bytes.overlay_fitting _ _ (by omega), Bytes.xor_surplus _ _ _ (by omega)]

namespace Ctr

theorem buffered_step_runs (size width : Nat) (inside : width ≤ size) (small : size ≤ 16) :
    (bufferedStep width size : BufferedStep C).Runs size size (step width) := by
  intro cipher counter scratch segment target exact wide short _
  subst exact
  obtain ⟨written, encrypted, wider, _, answer⟩ :=
    ForeignCipher.crypt_front_runs .encrypt cipher counter scratch counter.length (by omega)
  rw [bufferedStep, encrypted, Checked.ok_bind]
  by_cases refused : written.refusal.isSome
  · rw [if_pos refused]
    refine ⟨_, rfl, rfl, wider.trans wide, ?_⟩
    intro plain
    obtain ⟨cause, after, answered, rfl⟩ := Written.answer_refused _ _ _ (answer plain) refused
    rw [step, BlockCipher.encryptBlock, answered]
    rfl
  · rw [if_neg refused]
    refine ⟨_, rfl, increment_length width counter inside, wider.trans wide, ?_⟩
    intro plain
    obtain ⟨key, after, answered, rfl⟩ := Written.answer_given _ _ _ (answer plain) refused
    have size := key.length_toList
    rw [step, BlockCipher.encryptBlock, answered]
    refine ⟨by rw [Bytes.xor_length]; omega, ?_⟩
    rw [← key_text segment scratch key short (by omega)]

theorem buffered_runs (cipher : C) (bits : Nat) (counter input output : Bytes) :
    ∃ done, buffered cipher bits counter input output = .ok done ∧
      (Plain C → done.Shows input output (encrypt cipher bits counter input output.length)) :=
  buffered_call_runs _ _ _ (step (bits / 8))
    (fun size positive small taken =>
      ⟨positive, buffered_step_runs size (bits / 8) (by omega) small⟩)
    cipher counter input output

end Ctr

namespace Cfb

omit [ForeignCipher C] [BlockCipher C] in
theorem buffered_shift_within (size : Nat) (register segment : Bytes)
    (inside : size ≤ register.length) (small : register.length ≤ 16)
    (short : segment.length ≤ size) :
    bufferedShift size register segment = .ok (shiftIn size register segment) := by
  have first : (register.drop size).length = register.length - size := List.length_drop
  have moved : (register.drop size ++ register.drop (register.length - size)).length =
      register.length := by
    rw [List.length_append, List.length_drop, List.length_drop]
    omega
  have room : segment.length ≤ (register.drop (register.length - size)).length := by
    rw [List.length_drop]
    omega
  rw [bufferedShift, Checked.move_to_start_within register size inside, Checked.ok_bind,
    Checked.subtract_within _ _ inside, Checked.ok_bind, Checked.add_within _ _ (by omega),
    Checked.ok_bind, Checked.copy_into_within _ _ _ _ (by omega) (by omega) (by omega),
    Checked.spliced, List.take_left' first, ← first, List.drop_length_add_append, first, shiftIn,
    Bytes.overlay_fitting _ _ room, List.append_assoc]

omit [ForeignCipher C] [BlockCipher C] in
theorem buffered_feed_within (direction : Direction) (target segment text : Bytes)
    (even : text.length = segment.length) (fits : segment.length ≤ target.length) :
    bufferedFeed direction (Bytes.overlay target text) segment =
      .ok (enciphered direction segment text) := by
  cases direction with
  | encrypt =>
      have reached : segment.length ≤ (Bytes.overlay target text).length := by
        rw [Bytes.overlay_length]
        exact fits
      rw [bufferedFeed, Checked.slice_front _ _ reached, Bytes.overlay_fitting _ _ (by omega),
        List.take_left' even]
      rfl
  | decrypt => rfl

omit [ForeignCipher C] [BlockCipher C] in
theorem enciphered_length (direction : Direction) (input text : Bytes)
    (even : text.length = input.length) :
    (enciphered direction input text).length = input.length := by
  cases direction with
  | encrypt => exact even
  | decrypt => rfl

theorem buffered_step_runs (direction : Direction) (size width : Nat) (inside : width ≤ size)
    (small : size ≤ 16) :
    (bufferedStep direction width size : BufferedStep C).Runs size width
    (step direction width) := by
  intro cipher register scratch segment target exact wide short fits
  subst exact
  obtain ⟨written, encrypted, wider, _, answer⟩ :=
    ForeignCipher.crypt_front_runs .encrypt cipher register scratch register.length (by omega)
  rw [bufferedStep, encrypted, Checked.ok_bind]
  by_cases refused : written.refusal.isSome
  · rw [if_pos refused]
    refine ⟨_, rfl, rfl, wider.trans wide, ?_⟩
    intro plain
    obtain ⟨cause, after, answered, rfl⟩ := Written.answer_refused _ _ _ (answer plain) refused
    rw [step, BlockCipher.encryptBlock, answered]
    rfl
  · have piece : (Bytes.xor segment written.output).length = segment.length := by
      rw [Bytes.xor_length]
      omega
    have laid := Bytes.overlay_front target (Bytes.xor segment written.output) segment.length fits
      (by omega)
    have even := enciphered_length direction segment (Bytes.xor segment written.output) piece
    rw [if_neg refused, Checked.edit_front _ _ _ fits, Checked.ok_bind, laid,
      buffered_feed_within direction target segment _ piece fits, Checked.ok_bind,
      buffered_shift_within width register _ inside small (by omega), Checked.ok_bind]
    refine ⟨_, rfl, shift_in_length width register _ inside, wider.trans wide, ?_⟩
    intro plain
    obtain ⟨key, after, answered, rfl⟩ := Written.answer_given _ _ _ (answer plain) refused
    have size := key.length_toList
    rw [step, BlockCipher.encryptBlock, answered]
    refine ⟨by rw [Bytes.xor_length]; omega, ?_⟩
    rw [← key_text segment scratch key (by omega) (by omega)]
    rfl

theorem buffered_runs (direction : Direction) (cipher : C) (bits : Nat) (iv input output : Bytes) :
    ∃ done, buffered direction cipher bits iv input output = .ok done ∧
      (Plain C → done.Shows input output (crypt direction cipher bits iv input output.length)) :=
  buffered_call_runs _ _ _ (step direction (bits / 8))
    (fun size _ small taken =>
      ⟨by omega, buffered_step_runs direction size (bits / 8) (by omega) small⟩)
    cipher iv input output

end Cfb

end Modes

end SymmetricKey
