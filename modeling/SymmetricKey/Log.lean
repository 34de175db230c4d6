import SymmetricKey.Error

/-!
Log records as values. A computation carries the records that it made, in the
order in which it made them. Records made before a failure are kept, so the
records of a refused call can be compared with those of an accepted one.
-/

namespace SymmetricKey

inductive LogLevel where
  | error
  | warn
  | info
  | debug
  | trace
deriving DecidableEq, Repr

def LogLevel.name : LogLevel → String
  | .error => "ERROR"
  | .warn => "WARN"
  | .info => "INFO"
  | .debug => "DEBUG"
  | .trace => "TRACE"

structure LogRecord where
  level : LogLevel
  text : String
deriving DecidableEq, Repr

structure Logged (α : Type) where
  value : α
  records : List LogRecord

namespace Logged

instance : Monad Logged where
  pure value := { value, records := [] }
  bind step next :=
    let after := next step.value
    { value := after.value, records := step.records ++ after.records }

def record (level : LogLevel) (text : String) : Logged Unit :=
  { value := (), records := [{ level, text }] }

end Logged

/-- A call that may be refused and that may log, before the refusal too. -/
abbrev Attempt (α : Type) := ExceptT Error Logged α

namespace Attempt

def record (level : LogLevel) (text : String) : Attempt Unit :=
  ExceptT.lift (Logged.record level text)

def ofExcept {α : Type} (outcome : Except Error α) : Attempt α :=
  ExceptT.mk (pure outcome)

/-- What a step gave is all that the value of the rest depends on. -/
theorem bind_value {α β : Type} (step : Attempt α) (next : α → Attempt β) (given : α)
    (made : step.run.value = .ok given) :
    (step >>= next).run.value = (next given).run.value := by
  change (ExceptT.bindCont next step.run.value).value = (next given).run.value
  rw [made]
  rfl

theorem bind_made {α β : Type} (step : Attempt α) (next : α → Attempt β) (result : β)
    (made : (step >>= next).run.value = .ok result) :
    ∃ given, step.run.value = .ok given ∧ (next given).run.value = .ok result := by
  cases first : step.run.value with
  | error cause =>
      change (ExceptT.bindCont next step.run.value).value = .ok result at made
      rw [first] at made
      cases made
  | ok given => exact ⟨given, rfl, (bind_value step next given first).symm.trans made⟩

end Attempt

end SymmetricKey
