import SymmetricKey.Description

/-!
The lengths that an algorithm accepts for its key, in bytes: some listed
lengths, or every `step`-th length from `min` to `max`.
-/

namespace SymmetricKey

inductive KeySizes where
  | fixed (sizes : List Nat)
  | range (min max step : Nat)
deriving DecidableEq, Repr

namespace KeySizes

def contains : KeySizes → Nat → Bool
  -- A step of zero counts as a step of one.
  | fixed sizes, length => sizes.contains length
  | range min max step, length =>
      decide (min ≤ length ∧ length ≤ max ∧ (length - min) % Nat.max step 1 = 0)

def describe : KeySizes → String
  | fixed sizes => Description.wrapped "Fixed" (Description.listed (sizes.map toString))
  | range min max step =>
      Description.full "Range"
        [("min", toString min), ("max", toString max), ("step", toString step)]

end KeySizes

end SymmetricKey
