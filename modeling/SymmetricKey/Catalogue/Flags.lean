import SymmetricKey.Description

/-!
What an entry of the catalogue tells about a block cipher besides its sizes.
-/

namespace SymmetricKey

structure CipherFlags where
  /-- The length of the key may vary within a range. -/
  variableKey : Bool
  /-- Blocks have 128 bits. -/
  wideBlock : Bool
  /-- The cipher takes the place of a built-in one. -/
  accelerated : Bool
deriving DecidableEq, Repr

namespace CipherFlags

def none : CipherFlags := { variableKey := false, wideBlock := false, accelerated := false }

/-- The flags in the order of their bits, lowest first. -/
def named (flags : CipherFlags) : List (String × Nat × Bool) :=
  [("VARIABLE_KEY", 1, flags.variableKey), ("WIDE_BLOCK", 2, flags.wideBlock),
    ("ACCELERATED", 4, flags.accelerated)]

def names (flags : CipherFlags) : List String :=
  flags.named.filterMap fun (name, _, present) => if present then some name else .none

def bits (flags : CipherFlags) : Nat :=
  flags.named.foldl (fun sum (_, bit, present) => if present then sum + bit else sum) 0

def describe (flags : CipherFlags) : String :=
  Description.wrapped "CipherFlags"
    (if flags.names.isEmpty then "0x0" else " | ".intercalate flags.names)

end CipherFlags

end SymmetricKey
