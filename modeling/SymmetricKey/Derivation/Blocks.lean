import SymmetricKey.Error
import SymmetricKey.Digest

/-!
Derived keys are the front of a sequence of digests that are numbered from one.
So a shorter key is the front of a longer one.
-/

namespace SymmetricKey.Derivation

def checkSize (hash : Hash) (size : Nat) : Except Error Unit :=
  -- Numbers have 32 bits, so no more than `2^32 - 1` digests can be told apart.
  if ((1 <<< 32) - 1) * hash.digestSize < size then .error .invalidParameter else .ok ()

def numbered (hash : Hash) (block : UInt32 → Except Error Bytes) (size : Nat) :
    Except Error Bytes := do
  let count := (size + hash.digestSize - 1) / hash.digestSize
  let blocks ← (List.range count).mapM fun index => block (UInt32.ofNat index + 1)
  pure (blocks.flatten.take size)

/-- What a call leaves in the caller's buffer. A refused call leaves all as it was. -/
def filled (buffer : Bytes) (outcome : Except Error Bytes) : Bytes :=
  match outcome with
  | .ok key => Bytes.overlay buffer key
  | .error _ => buffer

end SymmetricKey.Derivation
