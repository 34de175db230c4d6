import SymmetricKey.Error
import SymmetricKey.Description
import SymmetricKey.Identifiers
import SymmetricKey.Digest.Sm3
import SymmetricKey.Digest.Sha256

/-!
Hash functions that compress a message block by block. A message is closed by
a marker byte, zeros and its length in bits, so that blocks come out even.

A hasher takes the message in any pieces. It keeps back the bytes that do not
fill a block yet. Its digest can be taken once: what it holds afterwards is
cleared and is no start for another message until it is restarted.
-/

namespace SymmetricKey

inductive Hash where
  | sm3
  | sha256
deriving DecidableEq, Repr

namespace Hash

def all : List Hash := [sm3, sha256]

def name : Hash → String
  | sm3 => "SM3"
  | sha256 => "SHA-256"

def oid : Hash → Bytes
  | sm3 => Identifiers.sm3
  | sha256 => Identifiers.sha256

def blockSize (_hash : Hash) : Nat := 64

def digestSize (_hash : Hash) : Nat := 32

/-- The marker byte and the length of eight bytes. -/
def minimalPadding (_hash : Hash) : Nat := 9

def digestClears (_hash : Hash) : Bool := true

def start : Hash → Octet
  | sm3 => Sm3.start
  | sha256 => Sha256.start

def compress : Hash → Octet → Bytes → Octet
  | sm3 => Sm3.compress
  | sha256 => Sha256.compress

def compressAll (hash : Hash) (chaining : Octet) (blocks : List Bytes) : Octet :=
  blocks.foldl hash.compress chaining

def describe (hash : Hash) : String :=
  Description.full "HashAlgo"
    [("name", Description.quoted hash.name), ("block_size", toString hash.blockSize),
      ("digest_size", toString hash.digestSize)]

/-- The last blocks of a message of `length` bytes, of which `pending` do not fill one. Where the
marker leaves too little room for the length in bits, that has a block of its own. -/
def closing (pending : Bytes) (length : UInt64) : List Bytes :=
  let marked := pending ++ 0x80 :: Bytes.zeros (63 - pending.length)
  let bits := BigEndian.bytes64 (length * 8)
  if 56 ≤ pending.length then [marked, Bytes.zeros 56 ++ bits] else [marked.take 56 ++ bits]

def maxDigestSize : Nat := 32

def maxBlockSize : Nat := 64

end Hash

structure Hasher where
  hash : Hash
  chaining : Octet
  pending : Bytes
  length : UInt64
deriving DecidableEq, Repr

namespace Hasher

def empty (hash : Hash) : Hasher := { hash, chaining := hash.start, pending := [], length := 0 }

def restart (hasher : Hasher) : Hasher := empty hasher.hash

def cleared (hasher : Hasher) : Hasher := { empty hasher.hash with chaining := Octet.zero }

/-- Goes on with data behind a complete block. -/
def absorbBlocks (hasher : Hasher) (data : Bytes) : Hasher :=
  let (blocks, rest) := Bytes.completeBlocks 64 data
  { hasher with chaining := hasher.hash.compressAll hasher.chaining blocks, pending := rest }

def absorb (hasher : Hasher) (data : Bytes) : Hasher :=
  let counted := { hasher with length := hasher.length + UInt64.ofNat data.length }
  let missing := 64 - hasher.pending.length
  if hasher.pending.isEmpty then counted.absorbBlocks data
  else if data.length < missing then { counted with pending := hasher.pending ++ data }
  else
    -- The block that was begun is completed before the others are cut.
    let block := hasher.pending ++ data.take missing
    { counted with chaining := hasher.hash.compress hasher.chaining block }.absorbBlocks
      (data.drop missing)

def digest (hasher : Hasher) : Bytes :=
  let blocks := Hash.closing hasher.pending hasher.length
  (hasher.hash.compressAll hasher.chaining blocks).toBigEndian

/-- The digest of the complete blocks alone, without any padding. -/
def chainingBytes (hasher : Hasher) : Bytes := hasher.chaining.toBigEndian

def finish (hasher : Hasher) : Bytes × Hasher := (hasher.digest, hasher.cleared)

def finishInto (hasher : Hasher) (room : Nat) : Except Error Bytes × Hasher :=
  -- Refuses room of another size than the digest's, and then changes nothing.
  if room = hasher.hash.digestSize then (.ok hasher.digest, hasher.cleared)
  else (.error .invalidLength, hasher)

def chainingInto (hasher : Hasher) (room : Nat) : Except Error Bytes :=
  if room = hasher.hash.digestSize then .ok hasher.chainingBytes else .error .invalidLength

def describe (hasher : Hasher) : String :=
  Description.wrapped "HashContext" hasher.hash.name

end Hasher

namespace Hash

def digest (hash : Hash) (message : Bytes) : Bytes := ((Hasher.empty hash).absorb message).digest

def digestInto (hash : Hash) (message : Bytes) (room : Nat) : Except Error Bytes :=
  (((Hasher.empty hash).absorb message).finishInto room).1

/-- The name of the algorithm's own state, of which nothing is shown. -/
def describeState : Hash → String
  | sm3 => Description.partly "Sm3" []
  | sha256 => Description.partly "Sha256" []

end Hash

end SymmetricKey
