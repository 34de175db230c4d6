import SymmetricKey.Derivation.Blocks

/-!
Key derivation by hashing a counter, a shared secret and other information one
after the other.
-/

namespace SymmetricKey.Derivation

def usedInfo (info : Option Bytes) (length : Nat) : Except Error Bytes :=
  -- Only the given length of the other information counts, and it has to be there.
  match info with
  | some bytes =>
      if length ≤ bytes.length then .ok (bytes.take length) else .error .invalidParameter
  | none => if length = 0 then .ok [] else .error .invalidParameter

/-- One numbered digest after the other, all from one hasher. A digest clears the hasher, so every
number restarts it. -/
def countedDigests (secret info : Bytes) : Hasher → List Nat → Except Error (List Bytes)
  | _, [] => .ok []
  | hasher, index :: later => do
      let counted := hasher.restart.absorb (BigEndian.bytes32 (UInt32.ofNat index + 1))
      let (digest, after) := ((counted.absorb secret).absorb info).finishInto hasher.hash.digestSize
      let first ← digest
      let others ← countedDigests secret info after later
      pure (first :: others)

def concat (hash : Hash) (secret : Bytes) (info : Option Bytes) (infoLength size : Nat) :
    Except Error Bytes := do
  let used ← usedInfo info infoLength
  checkSize hash size
  let count := (size + hash.digestSize - 1) / hash.digestSize
  let digests ← countedDigests secret used (Hasher.empty hash) (List.range count)
  pure (digests.flatten.take size)

end SymmetricKey.Derivation
