import SymmetricKey.Confidentiality.Gcm
import SymmetricKey.Authentication.TagSize

/-!
GMAC, the tag of authenticated encryption over associated data alone. Every tag
needs an initialization vector of its own, which a tag that is given out uses
up.
-/

namespace SymmetricKey

structure Gmac (C : Type) where
  cipher : C
  key : GhashKey
  hash : Ghash
  /-- The block whose encryption masks the next tag, once a vector is set. -/
  start : Option Bytes
  length : UInt64

namespace Gmac

variable {C : Type} [BlockCipher C]

def ofCipher (cipher : C) : Except Error (Gmac C) :=
  match BlockCipher.encryptBlock cipher (Bytes.zeros Gcm.blockSize) Gcm.blockSize with
  | (.error cause, _) => .error cause
  | (.ok block, after) =>
      .ok { cipher := after, key := GhashKey.ofBlock block.toList, hash := Ghash.empty,
            start := none, length := 0 }

def ofKey {Engine : Type} [BlockCipher Engine] (algorithm : CipherAlgorithm Engine) (key : Bytes) :
    Attempt (Gmac (KeyedCipher Engine)) := do
  if algorithm.blockSize ≠ Gcm.blockSize then throw .invalidParameter
  let cipher ← algorithm.withKey key
  Attempt.ofExcept (ofCipher cipher)

/-- Starts a tag. An empty vector is refused and changes nothing. -/
def reset (context : Gmac C) (iv : Bytes) : Except Error (Gmac C) :=
  if iv.isEmpty then .error .invalidParameter
  else .ok { context with
    hash := Ghash.empty, start := some (Ghash.startBlock context.key iv), length := 0 }

def absorb (context : Gmac C) (data : Bytes) : Gmac C :=
  { context with
    hash := context.hash.absorb context.key data
    length := context.length + UInt64.ofNat data.length }

/-- The tag, cut to `size` bytes. The block of lengths is absorbed before the mask is encrypted,
and stays absorbed when the cipher refuses. -/
def finish (context : Gmac C) (size : Nat) : Except Error Bytes × Gmac C :=
  match checkTagSize size Gcm.minTagSize Gcm.maxTagSize, context.start with
  | .error cause, _ => (.error cause, context)
  | .ok (), none => (.error .invalidParameter, context)
  | .ok (), some start =>
      let hash := context.hash.close context.key context.length 0
      match BlockCipher.encryptBlock context.cipher start Gcm.blockSize with
      | (.error cause, after) => (.error cause, { context with cipher := after, hash })
      | (.ok mask, after) =>
          (.ok ((hash.value.xor mask.toList).take size),
            { context with cipher := after, hash := Ghash.empty, start := none, length := 0 })

def compute {Engine : Type} [BlockCipher Engine] (algorithm : CipherAlgorithm Engine)
    (key iv data : Bytes) (size : Nat) : Attempt Bytes := do
  let context ← ofKey algorithm key
  let started ← Attempt.ofExcept (context.reset iv)
  Attempt.ofExcept ((started.absorb data).finish size).1

def describe {Engine : Type} (context : Gmac (KeyedCipher Engine)) : String :=
  Description.partly "Gmac"
    [("cipher", context.cipher.describe), ("has_iv", toString context.start.isSome)]

end Gmac

end SymmetricKey
