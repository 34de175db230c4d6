import SymmetricKey.Bytes
import SymmetricKey.Error
import Mathlib.Logic.Function.Basic

/-!
Runs of calls on one context. A run keeps, beside the context, what each call
was answered: which message a later call is about can be read off this history.
Where contexts can be copied, a run is one among all copies.
-/

namespace SymmetricKey

/-- A call of a MAC. A new message starts from a `Vector`, where the MAC has any. -/
inductive MacCall (Vector : Type) where
  | reset (vector : Vector)
  | absorb (data : Bytes)
  | finish (size : Nat)

/-- What the caller sees of a call. -/
inductive MacAnswer where
  | done
  | refused (cause : Error)
  | tag (bytes : Bytes)
deriving DecidableEq

namespace MacAnswer

def ofRefusal : Option Error → MacAnswer
  | none => done
  | some cause => refused cause

def ofTag : Except Error Bytes → MacAnswer
  | .error cause => refused cause
  | .ok bytes => tag bytes

theorem of_refusal_refused_iff (refusal : Option Error) (cause : Error) :
    ofRefusal refusal = refused cause ↔ refusal = some cause := by
  cases refusal <;> simp [ofRefusal]

theorem of_tag_tag_iff (outcome : Except Error Bytes) (bytes : Bytes) :
    ofTag outcome = tag bytes ↔ outcome = .ok bytes := by
  cases outcome <;> simp [ofTag]

theorem of_tag_refused_iff (outcome : Except Error Bytes) (cause : Error) :
    ofTag outcome = refused cause ↔ outcome = .error cause := by
  cases outcome <;> simp [ofTag]

end MacAnswer

namespace CallRun

variable {Context Other Call Answer : Type}

def run (serve : Context → Call → Answer × Context) (context : Context) :
    List Call → List (Call × Answer) × Context
  | [] => ([], context)
  | call :: rest =>
      let step := serve context call
      let later := run serve step.2 rest
      ((call, step.1) :: later.1, later.2)

theorem run_append (serve : Context → Call → Answer × Context) (context : Context)
    (calls more : List Call) :
    run serve context (calls ++ more) =
      ((run serve context calls).1 ++ (run serve (run serve context calls).2 more).1,
        (run serve (run serve context calls).2 more).2) := by
  induction calls generalizing context with
  | nil => rfl
  | cons call rest ih => simp only [List.cons_append, run, ih]

theorem run_keeps (serve : Context → Call → Answer × Context)
    (kept : List (Call × Answer) → Context → Prop)
    (step : ∀ history context call, kept history context →
      kept (history ++ [(call, (serve context call).1)]) (serve context call).2)
    (context : Context) (start : kept [] context) (calls : List Call) :
    kept (run serve context calls).1 (run serve context calls).2 := by
  suffices onward : ∀ history context, kept history context →
      kept (history ++ (run serve context calls).1) (run serve context calls).2 from
    onward [] context start
  induction calls with
  | nil => simp [run]
  | cons call rest ih =>
      intro history context here
      have later := ih _ _ (step history context call here)
      simpa [run] using later

theorem run_refused {Vector : Type} (serve : Context → MacCall Vector → MacAnswer × Context)
    (behind : Nat → Context → Prop) (usable : Nat → Prop)
    (step : ∀ count context size cause, behind count context → usable size →
      (serve context (.finish size)).1 = .refused cause →
        behind (count + 1) (serve context (.finish size)).2)
    (count : Nat) (context : Context) (start : behind count context) (sizes : List Nat)
    (inside : ∀ size ∈ sizes, usable size)
    (refused : ∀ entry ∈ (run serve context (sizes.map .finish)).1,
      ∃ cause, entry.2 = .refused cause) :
    behind (count + sizes.length) (run serve context (sizes.map .finish)).2 := by
  induction sizes generalizing context count with
  | nil => exact start
  | cons size rest ih =>
      obtain ⟨cause, first⟩ := refused (.finish size, (serve context (.finish size)).1)
        List.mem_cons_self
      have next := step count context size cause start (inside size List.mem_cons_self) first
      have later := ih (count + 1) _ next
        (fun size member => inside size (List.mem_cons_of_mem _ member))
        (fun entry member => refused entry (List.mem_cons_of_mem _ member))
      rwa [List.length_cons, Nat.add_comm rest.length, ← Nat.add_assoc]

/-- Two contexts that answer every call alike, and stay so, answer every run alike. -/
theorem run_alike (serve : Context → Call → Answer × Context)
    (other : Other → Call → Answer × Other) (alike : Context → Other → Prop)
    (step : ∀ left right call, alike left right →
      (serve left call).1 = (other right call).1 ∧ alike (serve left call).2 (other right call).2)
    (left : Context) (right : Other) (start : alike left right) (calls : List Call) :
    (run serve left calls).1 = (run other right calls).1 := by
  induction calls generalizing left right with
  | nil => rfl
  | cons call rest ih =>
      obtain ⟨same, kept⟩ := step left right call start
      rw [run, run, same, ih _ _ kept]

end CallRun

/-- A step where contexts can be copied: a call of the one at a place, or a copy of it put in the
place of another. -/
inductive CopyStep (Call : Type) where
  | call (place : Nat) (call : Call)
  | copy (source target : Nat)

namespace CallRun

variable {Context Other Call Answer : Type}

def amongCopies (serve : Context → Call → Answer × Context) (contexts : Nat → Context) :
    CopyStep Call → Option Answer × (Nat → Context)
  | .call place call =>
      let (answer, after) := serve (contexts place) call
      (some answer, Function.update contexts place after)
  | .copy source target => (none, Function.update contexts target (contexts source))

theorem update_alike (alike : Context → Other → Prop) (left : Nat → Context) (right : Nat → Other)
    (start : ∀ place, alike (left place) (right place)) (target : Nat) (context : Context)
    (other : Other) (same : alike context other) (place : Nat) :
    alike (Function.update left target context place)
      (Function.update right target other place) := by
  by_cases here : place = target
  · rw [here, Function.update_self, Function.update_self]
    exact same
  · rw [Function.update_of_ne here, Function.update_of_ne here]
    exact start place

theorem run_among_copies_alike (serve : Context → Call → Answer × Context)
    (other : Other → Call → Answer × Other) (alike : Context → Other → Prop)
    (step : ∀ left right call, alike left right →
      (serve left call).1 = (other right call).1 ∧ alike (serve left call).2 (other right call).2)
    (left : Context) (right : Other) (start : alike left right) (steps : List (CopyStep Call)) :
    (run (amongCopies serve) (fun _ => left) steps).1 =
      (run (amongCopies other) (fun _ => right) steps).1 := by
  apply run_alike (amongCopies serve) (amongCopies other)
    (fun lefts rights => ∀ place, alike (lefts place) (rights place)) ?step _ _ (fun _ => start)
    steps
  case step =>
    intro lefts rights taken agree
    cases taken with
    | call place call =>
        obtain ⟨same, kept⟩ := step _ _ call (agree place)
        exact ⟨congrArg some same, update_alike alike lefts rights agree place _ _ kept⟩
    | copy source target =>
        exact ⟨rfl, update_alike alike lefts rights agree target _ _ (agree source)⟩

end CallRun

end SymmetricKey
