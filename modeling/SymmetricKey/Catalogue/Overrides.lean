import SymmetricKey.Catalogue.BuiltIn
import Std.Data.TreeMap

/-!
Replacements for built-in ciphers, kept by folded name in ascending order.
Only accelerated ciphers may be registered; a later one takes the place of an
earlier one of the same name. A name that has no replacement still stands for
the built-in cipher.
-/

namespace SymmetricKey

structure OverrideRegistry (Engine : Type) where
  entries : Std.TreeMap String (CipherAlgorithm Engine)

namespace OverrideRegistry

variable {Engine : Type}

def empty : OverrideRegistry Engine := { entries := ∅ }

def register (registry : OverrideRegistry Engine) (algorithm : CipherAlgorithm Engine) :
    Attempt (OverrideRegistry Engine) := do
  -- The log tells which cipher is replaced, a built-in or a registered one.
  if !algorithm.flags.accelerated then throw .invalidParameter
  if (CipherAlgorithm.find? algorithm.name : Option (CipherAlgorithm Engine)).isSome then
    Attempt.record .warn
      ("Cipher " ++ algorithm.name ++ " overridden by accelerated implementation")
  if registry.entries.contains (Name.fold algorithm.name) then
    Attempt.record .warn ("Replaced existing override for " ++ algorithm.name)
  Attempt.record .info ("Registered cipher override: " ++ algorithm.name)
  pure { entries := registry.entries.insert (Name.fold algorithm.name) algorithm }

def get? (registry : OverrideRegistry Engine) (name : String) : Option (CipherAlgorithm Engine) :=
  registry.entries.get? (Name.fold name)

/-- Gives back what was registered under the name. -/
def unregister (registry : OverrideRegistry Engine) (name : String) :
    Option (CipherAlgorithm Engine) × OverrideRegistry Engine :=
  (registry.get? name, { entries := registry.entries.erase (Name.fold name) })

def resolve? (registry : OverrideRegistry Engine) (name : String) :
    Option (CipherAlgorithm Engine) :=
  registry.get? name <|> CipherAlgorithm.find? name

def size (registry : OverrideRegistry Engine) : Nat := registry.entries.size

def isEmpty (registry : OverrideRegistry Engine) : Bool := registry.entries.isEmpty

def listed (registry : OverrideRegistry Engine) : List (CipherAlgorithm Engine) :=
  registry.entries.toList.map (·.2)

def describe (registry : OverrideRegistry Engine) : String :=
  Description.listed (registry.listed.map fun algorithm => Description.quoted algorithm.name)

end OverrideRegistry

end SymmetricKey
