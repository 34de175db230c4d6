import SymmetricKey.Keystream
import SymmetricKey.Proofs.ByteStrings
import SymmetricKey.Proofs.CallRuns

/-!
Keystreams addressed by position. A fresh generator serves a sequence of calls
as an object does that keeps nothing but the place in one stream of key bytes:
how the text was cut before a call leaves no trace. It is enough that one byte
after the other is right, for a generator that makes its stream in parts, too.
-/

namespace SymmetricKey

inductive StreamCall where
  | inPlace (data : Bytes)
  | into (input buffer : Bytes)

/-- The refusal, if there was one, and the caller's buffer behind the call. -/
structure StreamAnswer where
  refusal : Option Error
  buffer : Bytes
deriving DecidableEq

namespace StreamCall

variable {G : Type} [Keystream G]

def serve (generator : G) : StreamCall → StreamAnswer × G
  | inPlace data =>
      let (result, after) := Keystream.addTo generator data
      ({ refusal := none, buffer := result }, after)
  | into input buffer =>
      match Keystream.apply generator input buffer.length with
      | (.ok result, after) => ({ refusal := none, buffer := result }, after)
      | (.error cause, after) => ({ refusal := some cause, buffer }, after)

def stretch (stream : Nat → UInt8) (position : Nat) : Nat → Bytes
  | 0 => []
  | count + 1 => stream position :: stretch stream (position + 1) count

/-- What becomes of a call where the next key byte is the one at the position. -/
def serveAt (stream : Nat → UInt8) (position : Nat) : StreamCall → StreamAnswer × Nat
  | inPlace data =>
      ({ refusal := none, buffer := Bytes.xor data (stretch stream position data.length) },
        position + data.length)
  | into input buffer =>
      if input.length = buffer.length then
        ({ refusal := none, buffer := Bytes.xor input (stretch stream position input.length) },
          position + input.length)
      else ({ refusal := some .invalidLength, buffer }, position)

/-- The text that a call brings, where it is not refused. -/
def text : StreamCall → Bytes
  | inPlace data => data
  | into input buffer => if input.length = buffer.length then input else []

def texts (calls : List StreamCall) : Bytes := calls.flatMap text

def results (history : List (StreamCall × StreamAnswer)) : Bytes :=
  history.flatMap fun entry => if entry.2.refusal.isNone then entry.2.buffer else []

/-- Every sequence of calls is answered by position, and another sequence on the same generator
that is brought the results of the first gives back its texts. -/
structure Addressed (generator : G) (stream : Nat → UInt8) : Prop where
  answers : ∀ calls, (CallRun.run serve generator calls).1 =
    (CallRun.run (serveAt stream) 0 calls).1
  restores : ∀ calls others, texts others = results (CallRun.run serve generator calls).1 →
    results (CallRun.run serve generator others).1 = texts calls

@[simp] theorem stretch_length (stream : Nat → UInt8) (position count : Nat) :
    (stretch stream position count).length = count := by
  induction count generalizing position with
  | zero => rfl
  | succ count ih => rw [stretch, List.length_cons, ih]

theorem stretch_append (stream : Nat → UInt8) (position count more : Nat) :
    stretch stream position count ++ stretch stream (position + count) more =
      stretch stream position (count + more) := by
  induction count generalizing position with
  | zero => rw [stretch, List.nil_append, Nat.zero_add, Nat.add_zero]
  | succ count ih =>
      have onward := ih (position + 1)
      rw [Nat.add_right_comm, Nat.add_assoc] at onward
      rw [stretch, List.cons_append, onward, Nat.add_right_comm, stretch]

theorem stretch_exact (stream : Nat → UInt8) (position : Nat) (bytes : Bytes)
    (found : ∀ index, index < bytes.length → bytes[index]? = some (stream (position + index))) :
    bytes = stretch stream position bytes.length := by
  induction bytes generalizing position with
  | nil => rfl
  | cons byte bytes ih =>
      have first := found 0 (Nat.zero_lt_succ _)
      have onward := ih (position + 1) fun index inside => by
        have next := found (index + 1) (Nat.succ_lt_succ inside)
        rwa [List.getElem?_cons_succ, Nat.add_comm index, ← Nat.add_assoc] at next
      rw [List.getElem?_cons_zero, Option.some.injEq, Nat.add_zero] at first
      rw [List.length_cons, stretch, ← first, ← onward]

section Positions
variable (stream : Nat → UInt8) (behind : Nat → G → Prop)
  (step : ∀ position generator, behind position generator →
    (Keystream.next generator).1 = stream position ∧
      behind (position + 1) (Keystream.next generator).2)
include step

theorem add_to_exact (text : Bytes) (position : Nat) (generator : G)
    (here : behind position generator) :
    (Keystream.addTo generator text).1 = Bytes.xor text (stretch stream position text.length) ∧
      behind (position + text.length) (Keystream.addTo generator text).2 := by
  induction text generalizing position generator with
  | nil => exact ⟨rfl, here⟩
  | cons byte text ih =>
      obtain ⟨key, onward⟩ := step position generator here
      obtain ⟨rest, last⟩ := ih _ _ onward
      rw [Nat.add_right_comm, Nat.add_assoc] at last
      refine ⟨?_, last⟩
      change (byte ^^^ (Keystream.next generator).1) ::
        (Keystream.addTo (Keystream.next generator).2 text).1 = _
      rw [key, rest]
      rfl

theorem serve_exact (generator : G) (position : Nat) (call : StreamCall)
    (here : behind position generator) :
    (serve generator call).1 = (serveAt stream position call).1 ∧
      behind (serveAt stream position call).2 (serve generator call).2 := by
  cases call with
  | inPlace data =>
      obtain ⟨result, last⟩ := add_to_exact stream behind step data position generator here
      refine ⟨?_, last⟩
      change StreamAnswer.mk none (Keystream.addTo generator data).1 = _
      rw [result]
      rfl
  | into input buffer =>
      obtain ⟨result, last⟩ := add_to_exact stream behind step input position generator here
      by_cases even : input.length = buffer.length
      · have done : serve generator (into input buffer) =
            ({ refusal := none, buffer := (Keystream.addTo generator input).1 },
              (Keystream.addTo generator input).2) := by
          rw [serve, Keystream.apply, if_pos even]
        rw [done, serveAt, if_pos even, result]
        exact ⟨rfl, last⟩
      · rw [serve, serveAt, Keystream.apply, if_neg even, if_neg even]
        exact ⟨rfl, here⟩

omit step in
theorem serve_at_results (position : Nat) (call : StreamCall) :
    results [(call, (serveAt stream position call).1)] =
        Bytes.xor call.text (stretch stream position call.text.length) ∧
      (serveAt stream position call).2 = position + call.text.length := by
  cases call with
  | inPlace data => exact ⟨List.append_nil _, rfl⟩
  | into input buffer =>
      by_cases even : input.length = buffer.length
      · rw [serveAt, text, if_pos even, if_pos even]
        exact ⟨List.append_nil _, rfl⟩
      · rw [serveAt, text, if_neg even, if_neg even]
        exact ⟨rfl, rfl⟩

omit step in
-- All results together are all texts together with one stretch of the stream added.
theorem run_at_results (position : Nat) (calls : List StreamCall) :
    results (CallRun.run (serveAt stream) position calls).1 =
      Bytes.xor (texts calls) (stretch stream position (texts calls).length) := by
  induction calls generalizing position with
  | nil => rfl
  | cons call rest ih =>
      obtain ⟨first, onward⟩ := serve_at_results stream position call
      have joined : results (CallRun.run (serveAt stream) position (call :: rest)).1 =
          results [(call, (serveAt stream position call).1)] ++
            results (CallRun.run (serveAt stream) (serveAt stream position call).2 rest).1 := by
        rw [results, results, results, ← List.flatMap_append]
        rfl
      have all : texts (call :: rest) = call.text ++ texts rest := List.flatMap_cons
      rw [joined, first, onward, ih, all, List.length_append, ← stretch_append,
        Bytes.xor_append _ _ _ _ (stretch_length _ _ _).symm]

theorem addressed (generator : G) (start : behind 0 generator) : Addressed generator stream := by
  have answers (calls : List StreamCall) :
      (CallRun.run serve generator calls).1 = (CallRun.run (serveAt stream) 0 calls).1 :=
    CallRun.run_alike serve (serveAt stream) (fun generator position => behind position generator)
      (serve_exact stream behind step) generator 0 start calls
  refine ⟨answers, ?_⟩
  intro calls others brought
  rw [answers, run_at_results] at brought
  have width : (texts others).length = (texts calls).length := by
    rw [brought, Bytes.xor_length, stretch_length, Nat.min_self]
  rw [answers, run_at_results, width, brought,
    Bytes.xor_cancel _ _ (Nat.le_of_eq (stretch_length _ _ _).symm)]

end Positions

section Wrapped
variable {H : Type} [Keystream H] (wrap : G → H)
  (step : ∀ generator, Keystream.next (wrap generator) =
    ((Keystream.next generator).1, wrap (Keystream.next generator).2))
include step

theorem add_to_wrapped (text : Bytes) (generator : G) :
    Keystream.addTo (wrap generator) text =
      ((Keystream.addTo generator text).1, wrap (Keystream.addTo generator text).2) := by
  induction text generalizing generator with
  | nil => rfl
  | cons byte text ih =>
      rw [Keystream.addTo, step]
      change (_ :: (Keystream.addTo (wrap (Keystream.next generator).2) text).1,
        (Keystream.addTo (wrap (Keystream.next generator).2) text).2) = _
      rw [ih]
      rfl

theorem serve_wrapped (generator : G) (call : StreamCall) :
    serve (wrap generator) call = ((serve generator call).1, wrap (serve generator call).2) := by
  cases call with
  | inPlace data =>
      rw [serve, add_to_wrapped wrap step]
      rfl
  | into input buffer =>
      by_cases even : input.length = buffer.length
      · rw [serve, serve, Keystream.apply, Keystream.apply, if_pos even, if_pos even,
          add_to_wrapped wrap step]
      · rw [serve, serve, Keystream.apply, Keystream.apply, if_neg even, if_neg even]

theorem addressed_wrapped (generator : G) (stream : Nat → UInt8)
    (here : Addressed generator stream) : Addressed (wrap generator) stream := by
  have same (calls : List StreamCall) :
      (CallRun.run serve (wrap generator) calls).1 = (CallRun.run serve generator calls).1 := by
    apply CallRun.run_alike serve serve (fun wrapped generator => wrapped = wrap generator)
      ?_ _ _ rfl
    intro _ generator call wrapped
    rw [wrapped, serve_wrapped wrap step]
    exact ⟨rfl, rfl⟩
  constructor
  · intro calls
    rw [same, here.answers]
  · intro calls others brought
    rw [same] at brought ⊢
    exact here.restores calls others brought

end Wrapped

theorem begun_unfinished (position size count : Nat) (positive : 0 < size)
    (left : (position + size - 1) / size * size - position = count + 1) :
    (position + size - 1) / size = position / size + 1 := by
  have split := Nat.div_add_mod position size
  rw [Nat.mul_comm] at split
  have short := Nat.mod_lt position positive
  have inside : position % size ≠ 0 := by
    intro none
    have whole : (position + size - 1) / size = position / size :=
      Nat.div_eq_of_lt_le (by omega) (by rw [Nat.succ_mul]; omega)
    rw [whole] at left
    omega
  exact Nat.div_eq_of_lt_le (by rw [Nat.succ_mul]; omega)
    (by rw [Nat.succ_mul, Nat.succ_mul]; omega)

section Parts
variable {State : Type} (stream : Nat → UInt8) (size : Nat) (holding : State → Bytes → G)
  (states : Nat → State) (part : Nat → Bytes)

/-- So many parts were begun, and the last of them is left from the position on. -/
def heldAt (position : Nat) (generator : G) : Prop :=
  generator = holding (states ((position + size - 1) / size))
    (stretch stream position ((position + size - 1) / size * size - position))

variable (positive : 0 < size)
  (taken : ∀ state byte unused,
    Keystream.next (holding state (byte :: unused)) = (byte, holding state unused))
  (filled : ∀ index, Keystream.next (holding (states index) []) =
    ((part index).headD 0, holding (states (index + 1)) (part index).tail))
  (whole : ∀ index, (part index).length = size)
  (parts : ∀ index place, place < size →
    (part index)[place]? = some (stream (index * size + place)))
include positive taken filled whole parts

theorem held_step (position : Nat) (generator : G)
    (here : heldAt stream size holding states position generator) :
    (Keystream.next generator).1 = stream position ∧
      heldAt stream size holding states (position + 1) (Keystream.next generator).2 := by
  have reach := Bytes.begun_blocks_cover position size positive
  have next : (position + 1 + size - 1) / size = position / size + 1 := by
    rw [Nat.add_right_comm, Nat.add_sub_cancel, Nat.add_div_right _ positive]
  rw [heldAt] at here ⊢
  rw [here, next]
  cases left : (position + size - 1) / size * size - position with
  | zero =>
      -- The parts begun end at the position.
      have full : position = (position + size - 1) / size * size := by omega
      have index := Nat.mul_div_cancel ((position + size - 1) / size) positive
      rw [← full, eq_comm] at index
      rw [index] at full
      obtain ⟨width, rfl⟩ : ∃ width, size = width + 1 := ⟨size - 1, by omega⟩
      have last : (position / (width + 1) + 1) * (width + 1) - (position + 1) = width := by
        rw [Nat.succ_mul, ← full]
        omega
      have exact :=
        stretch_exact stream position (part (position / (width + 1))) fun place inside => by
        rw [whole] at inside
        rw [parts _ _ inside, ← full]
      rw [stretch, filled, index, exact, whole, stretch, last]
      exact ⟨rfl, rfl⟩
  | succ count =>
      have index := begun_unfinished position size count positive left
      have last : (position / size + 1) * size - (position + 1) = count := by
        rw [index] at left
        omega
      rw [stretch, taken, index, last]
      exact ⟨rfl, rfl⟩

theorem addressed_in_parts (generator : G) (start : generator = holding (states 0) []) :
    Addressed generator stream := by
  apply addressed stream (heldAt stream size holding states)
    (held_step stream size holding states part positive taken filled whole parts)
  rw [heldAt, Nat.zero_add, Nat.div_eq_of_lt (by omega : size - 1 < size), Nat.zero_mul, start]
  rfl

end Parts

end StreamCall

end SymmetricKey
