import SymmetricKey.Digest
import SymmetricKey.Authentication.TagSize

/-!
HMAC. The key is brought to the length of a hash block and added to two fixed
patterns. A hash of the message behind the first is hashed behind the second.
Both hashes are kept as they are once the key has gone in, so that a message
costs no work on the key.
-/

namespace SymmetricKey

structure Hmac where
  hash : Hash
  inner : Hasher
  outer : Hasher
  running : Hasher
deriving DecidableEq, Repr

namespace Hmac

def blockKey (hash : Hash) (key : Bytes) : Bytes :=
  -- A key longer than a block is replaced by its digest; zeros fill up the block.
  let short := if hash.blockSize < key.length then hash.digest key else key
  short ++ Bytes.zeros (hash.blockSize - short.length)

def keyed (hash : Hash) (key : Bytes) (pattern : UInt8) : Hasher :=
  (Hasher.empty hash).absorb ((blockKey hash key).map (· ^^^ pattern))

def ofKey (hash : Hash) (key : Bytes) : Hmac :=
  let inner := keyed hash key 0x36
  { hash, inner, outer := keyed hash key 0x5C, running := inner }

def size (context : Hmac) : Nat := context.hash.digestSize

def reset (context : Hmac) : Hmac := { context with running := context.inner }

def absorb (context : Hmac) (data : Bytes) : Hmac :=
  { context with running := context.running.absorb data }

def tag (context : Hmac) : Bytes := (context.outer.absorb context.running.digest).digest

def finish (context : Hmac) (length : Nat) : Except Error Bytes × Hmac :=
  match checkTagSize length 1 context.size with
  | .error cause => (.error cause, context)
  | .ok () => (.ok (context.tag.take length), context.reset)

def compute (hash : Hash) (key data : Bytes) (length : Nat) : Except Error Bytes :=
  (((ofKey hash key).absorb data).finish length).1

def describe (context : Hmac) : String := Description.wrapped "Hmac" context.hash.name

end Hmac

end SymmetricKey
