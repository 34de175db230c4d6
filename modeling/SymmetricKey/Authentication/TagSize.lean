import SymmetricKey.Error

/-!
The lengths to which a tag may be cut.
-/

namespace SymmetricKey

def checkTagSize (size min max : Nat) : Except Error Unit :=
  if size < min ∨ max < size then .error .invalidParameter else .ok ()

theorem check_tag_size_inside (size min max : Nat) (least : min ≤ size) (most : size ≤ max) :
    checkTagSize size min max = .ok () := by
  rw [checkTagSize, if_neg (by omega)]

theorem check_tag_size_outside (size min max : Nat) (outside : size < min ∨ max < size) :
    checkTagSize size min max = .error .invalidParameter := by
  rw [checkTagSize, if_pos outside]

end SymmetricKey
