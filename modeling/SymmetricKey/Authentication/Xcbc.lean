import SymmetricKey.Catalogue.Algorithm
import SymmetricKey.Authentication.CbcChain
import SymmetricKey.Authentication.TagSize

/-!
XCBC-MAC. Three blocks encrypted under the user's key give the key of the chain
and the two masks of the last block.
-/

namespace SymmetricKey

structure Xcbc (C : Type) where
  cipher : C
  fullMask : Bytes
  partMask : Bytes
  chain : CbcChain

namespace Xcbc

variable {C : Type} [BlockCipher C]

def size : Nat := 16

/-- The encryption of sixteen equal bytes. -/
def subkey (cipher : C) (byte : UInt8) : Except Error Bytes × C :=
  match BlockCipher.encryptBlock cipher (List.replicate size byte) size with
  | (.error cause, after) => (.error cause, after)
  | (.ok block, after) => (.ok block.toList, after)

/-- The three subkeys, derived in order; the first refusal ends the derivation. -/
def subkeys (cipher : C) : Except Error (Bytes × Bytes × Bytes) := do
  let (first, cipher) := subkey cipher 0x01
  let key1 ← first
  let (second, cipher) := subkey cipher 0x02
  let key2 ← second
  let key3 ← (subkey cipher 0x03).1
  pure (key1, key2, key3)

def ofKey {Engine : Type} [BlockCipher Engine] (algorithm : CipherAlgorithm Engine) (key : Bytes) :
    Attempt (Xcbc (KeyedCipher Engine)) := do
  if algorithm.blockSize ≠ size then throw .invalidParameter
  if key.length ≠ size then throw .invalidKeyLength
  let user ← algorithm.withKey key
  let (chainKey, fullMask, partMask) ← Attempt.ofExcept (subkeys user)
  let cipher ← algorithm.withKey chainKey
  pure { cipher, fullMask, partMask, chain := CbcChain.empty size }

def reset (context : Xcbc C) : Xcbc C := { context with chain := context.chain.reset }

def absorb (context : Xcbc C) (data : Bytes) : Option Error × Xcbc C :=
  let step := CbcChain.absorb context.cipher context.chain data
  (step.refusal, { context with cipher := step.cipher, chain := step.chain })

def finish (context : Xcbc C) (length : Nat) : Except Error Bytes × Xcbc C :=
  match checkTagSize length 1 size with
  | .error cause => (.error cause, context)
  | .ok () =>
      let (tag, chain, cipher) := context.chain.finish context.cipher context.fullMask
        context.partMask
      (tag.map (·.take length), { context with cipher, chain })

def compute {Engine : Type} [BlockCipher Engine] (algorithm : CipherAlgorithm Engine)
    (key data : Bytes) (length : Nat) : Attempt Bytes := do
  let context ← ofKey algorithm key
  let (refusal, after) := context.absorb data
  match refusal with
  | some cause => throw cause
  | none => Attempt.ofExcept (after.finish length).1

def describe (_context : Xcbc C) : String := Description.partly "XcbcMac" []

end Xcbc

end SymmetricKey
