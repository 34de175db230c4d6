import SymmetricKey.Catalogue.Algorithm
import SymmetricKey.Authentication.CbcChain
import SymmetricKey.Authentication.TagSize
import SymmetricKey.Field.Doubling

/-!
CMAC. The masks of the last block are the encrypted block of zeros, doubled
once for a complete block and twice for another one.
-/

namespace SymmetricKey

structure Cmac (C : Type) where
  cipher : C
  fullMask : Bytes
  partMask : Bytes
  chain : CbcChain

namespace Cmac

variable {C : Type}

/-- Doubling is defined for blocks of 64 and of 128 bits. -/
def reduction? (blockSize : Nat) : Option UInt8 :=
  if blockSize = 8 then some Field.reduction64
  else if blockSize = 16 then some Field.reduction128
  else none

def describe {Engine : Type} (context : Cmac (KeyedCipher Engine)) : String :=
  Description.partly "Cmac" [("cipher", context.cipher.describe)]

variable [BlockCipher C]

def ofCipher (cipher : C) : Except Error (Cmac C) :=
  let size := BlockCipher.blockSize cipher
  match reduction? size with
  | none => .error .invalidParameter
  | some reduction =>
      match BlockCipher.encryptBlock cipher (Bytes.zeros size) size with
      | (.error cause, _) => .error cause
      | (.ok block, after) =>
          let fullMask := Field.BigEndian.double reduction block.toList
          .ok { cipher := after, fullMask, partMask := Field.BigEndian.double reduction fullMask,
                chain := CbcChain.empty size }

def ofKey {Engine : Type} [BlockCipher Engine] (algorithm : CipherAlgorithm Engine) (key : Bytes) :
    Attempt (Cmac (KeyedCipher Engine)) := do
  if (reduction? algorithm.blockSize).isNone then throw .invalidParameter
  let cipher ← algorithm.withKey key
  Attempt.ofExcept (ofCipher cipher)

def size (context : Cmac C) : Nat := BlockCipher.blockSize context.cipher

def reset (context : Cmac C) : Cmac C := { context with chain := context.chain.reset }

def absorb (context : Cmac C) (data : Bytes) : Option Error × Cmac C :=
  let step := CbcChain.absorb context.cipher context.chain data
  (step.refusal, { context with cipher := step.cipher, chain := step.chain })

def finish (context : Cmac C) (size : Nat) : Except Error Bytes × Cmac C :=
  match checkTagSize size 1 context.size with
  | .error cause => (.error cause, context)
  | .ok () =>
      let (tag, chain, cipher) := context.chain.finish context.cipher context.fullMask
        context.partMask
      (tag.map (·.take size), { context with cipher, chain })

def compute {Engine : Type} [BlockCipher Engine] (algorithm : CipherAlgorithm Engine)
    (key data : Bytes) (size : Nat) : Attempt Bytes := do
  let context ← ofKey algorithm key
  let (refusal, after) := context.absorb data
  match refusal with
  | some cause => throw cause
  | none => Attempt.ofExcept (after.finish size).1

end Cmac

end SymmetricKey
