import SymmetricKey.Derivation.Blocks
import SymmetricKey.Authentication.Hmac

/-!
Key derivation from a password by many rounds of HMAC. Each block starts from
the salt and the number of the block, and adds up all the tags of its rounds.
-/

namespace SymmetricKey.Derivation

/-- A tag of full size. The context is a copy, so it starts no other message. -/
def fullTag (context : Hmac) (data : Bytes) : Except Error Bytes :=
  ((context.absorb data).finish context.size).1

/-- Rounds on the last tag and the sum of all tags so far. -/
def pbkdf2Rounds (keyed : Hmac) : Nat → Bytes → Bytes → Except Error Bytes
  | 0, _, sum => .ok sum
  | count + 1, last, sum => do
      let next ← fullTag keyed last
      pbkdf2Rounds keyed count next (sum.xor next)

def pbkdf2Block (keyed salted : Hmac) (iterations : Nat) (number : UInt32) :
    Except Error Bytes := do
  let first ← fullTag salted (BigEndian.bytes32 number)
  pbkdf2Rounds keyed (iterations - 1) first first

def pbkdf2 (hash : Hash) (password salt : Bytes) (iterations : UInt32) (size : Nat) :
    Except Error Bytes := do
  if iterations = 0 then throw .invalidParameter
  checkSize hash size
  -- The salt goes in once; each block starts from a copy.
  let keyed := Hmac.ofKey hash password
  numbered hash (pbkdf2Block keyed (keyed.absorb salt) iterations.toNat) size

end SymmetricKey.Derivation
