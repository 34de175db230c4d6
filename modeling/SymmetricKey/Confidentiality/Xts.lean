import SymmetricKey.Catalogue.Algorithm
import SymmetricKey.Confidentiality.Segments
import SymmetricKey.Field.Doubling

/-!
Tweaked codebook mode with ciphertext stealing. A tweak is added before and
after each block; it starts as the encrypted position of the data unit and is
doubled from block to block. When the text does not end with a whole block,
the last whole block lends its tail to the rest, and both change places.
-/

namespace SymmetricKey

structure Xts (C : Type) where
  data : C
  tweak : C

namespace Xts

variable {C : Type}

def blockSize : Nat := 16

/-- Both halves of the key have the same length: the first for the data, the second for tweaks. -/
def ofKey {Engine : Type} (algorithm : CipherAlgorithm Engine) (key : Bytes) :
    Attempt (Xts (KeyedCipher Engine)) := do
  if algorithm.blockSize ≠ blockSize then throw .invalidParameter
  if key.isEmpty ∨ key.length % 2 ≠ 0 then throw .invalidKeyLength
  let data ← algorithm.withKey (key.take (key.length / 2))
  let tweak ← algorithm.withKey (key.drop (key.length / 2))
  pure { data, tweak }

def describe {Engine : Type} (context : Xts (KeyedCipher Engine)) : String :=
  Description.partly "XtsContext" [("data_ctx", context.data.describe)]

variable [BlockCipher C]

def cryptBlock (direction : Direction) (cipher : C) (tweak block : Bytes) :
    Except Error Bytes × C :=
  match BlockCipher.cryptBlock direction cipher (block.xor tweak) blockSize with
  | (.error cause, after) => (.error cause, after)
  | (.ok result, after) => (.ok (Bytes.xor result.toList tweak), after)

def nextTweak (tweak : Bytes) : Bytes := Field.LittleEndian.double Field.reduction128 tweak

def step (direction : Direction) : SegmentStep C := fun cipher tweak block =>
  match cryptBlock direction cipher tweak block with
  | (.error cause, after) => (.error cause, after)
  | (.ok result, after) => (.ok (result, nextTweak tweak), after)

/-- The last whole block under `first`, then the rest filled up from it under `second`. -/
def steal (direction : Direction) (cipher : C) (first second block rest : Bytes) :
    Except Error Bytes × C :=
  match cryptBlock direction cipher first block with
  | (.error cause, after) => (.error cause, after)
  | (.ok lender, after) =>
      match cryptBlock direction after second (rest ++ lender.drop rest.length) with
      | (.error cause, last) => (.error cause, last)
      | (.ok result, last) => (.ok (result ++ lender.take rest.length), last)

def stealInOrder (direction : Direction) (cipher : C) (tweak block rest : Bytes) :
    Except Error Bytes × C :=
  -- Deciphering meets the two tweaks of the stolen blocks in the opposite order.
  match direction with
  | .encrypt => steal direction cipher tweak (nextTweak tweak) block rest
  | .decrypt => steal direction cipher (nextTweak tweak) tweak block rest

/-- All blocks but those that take part in stealing. -/
def plainBlocks (length : Nat) : Nat :=
  if length % blockSize = 0 then length / blockSize else length / blockSize - 1

/-- Works through a text of at least one block from the given tweak on. -/
def cryptText (direction : Direction) (cipher : C) (tweak input : Bytes) : Progress C :=
  let cut := plainBlocks input.length * blockSize
  let progress := (step direction).run cipher tweak (Bytes.segments blockSize (input.take cut))
  if progress.refusal.isSome ∨ input.length % blockSize = 0 then progress
  else
    let ending := input.drop cut
    match stealInOrder direction progress.cipher progress.register (ending.take blockSize)
        (ending.drop blockSize) with
    | (.error cause, after) => { progress with cipher := after, refusal := some cause }
    | (.ok result, after) =>
        { progress with cipher := after, produced := progress.produced ++ result }

structure Outcome (C : Type) where
  output : Bytes
  context : Xts C
  refusal : Option Error

/-- The position of a data unit is encrypted by the second cipher. The buffer is the caller's
output; it keeps what the call does not reach. -/
def crypt (direction : Direction) (context : Xts C) (position : Block 16) (input buffer : Bytes) :
    Outcome C :=
  if input.length < blockSize ∨ buffer.length < input.length then
    { output := buffer, context, refusal := some .invalidLength }
  else
    match BlockCipher.encryptBlock context.tweak position.toList blockSize with
    | (.error cause, after) =>
        { output := buffer, context := { context with tweak := after }, refusal := some cause }
    | (.ok tweak, after) =>
        let progress := cryptText direction context.data tweak.toList input
        { output := progress.output buffer
          context := { data := progress.cipher, tweak := after }
          refusal := progress.refusal }

def encrypt (context : Xts C) (position : Block 16) (input buffer : Bytes) : Outcome C :=
  crypt .encrypt context position input buffer

def decrypt (context : Xts C) (position : Block 16) (input buffer : Bytes) : Outcome C :=
  crypt .decrypt context position input buffer

end Xts

end SymmetricKey
