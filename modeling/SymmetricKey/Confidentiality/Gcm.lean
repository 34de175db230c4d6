import SymmetricKey.Catalogue.Algorithm
import SymmetricKey.Confidentiality.Ctr
import SymmetricKey.Authentication.Ghash

/-!
Authenticated encryption. The text is enciphered in counter mode from the
second counter on; the first one masks a hash of the associated data and the
enciphered text, which makes the tag. Deciphering compares the tag first and
gives out nothing of the text unless it agrees.
-/

namespace SymmetricKey

structure Gcm (C : Type) where
  cipher : C
  key : GhashKey

namespace Gcm

variable {C : Type}

def blockSize : Nat := 16

def minTagSize : Nat := 4

def maxTagSize : Nat := 16

/-- Two blocks fewer than a counter of 32 bits can tell apart, so that the first counter of a
message never comes back. -/
def maxTextSize : Nat := ((1 <<< 32) - 2) * blockSize

def describe {Engine : Type} (context : Gcm (KeyedCipher Engine)) : String :=
  Description.partly "GcmContext" [("cipher", context.cipher.describe)]

def ofCipher [BlockCipher C] (cipher : C) : Except Error (Gcm C) :=
  if BlockCipher.blockSize cipher ≠ blockSize then .error .invalidParameter
  else
    -- The key of the hash is the encrypted block of zeros.
    match BlockCipher.encryptBlock cipher (Bytes.zeros blockSize) blockSize with
    | (.error cause, _) => .error cause
    | (.ok block, after) => .ok { cipher := after, key := GhashKey.ofBlock block.toList }

def ofKey {Engine : Type} [BlockCipher Engine] (algorithm : CipherAlgorithm Engine) (key : Bytes) :
    Attempt (Gcm (KeyedCipher Engine)) := do
  if algorithm.blockSize ≠ blockSize then throw .invalidParameter
  let cipher ← algorithm.withKey key
  Attempt.ofExcept (ofCipher cipher)

def checkSizes (iv : Bytes) (tagSize : Nat) : Except Error Unit :=
  if iv.isEmpty ∨ tagSize < minTagSize ∨ maxTagSize < tagSize then .error .invalidParameter
  else .ok ()

def checkText (inputSize outputSize : Nat) : Except Error Unit :=
  if maxTextSize < inputSize ∨ outputSize < inputSize then .error .invalidLength else .ok ()

def check (iv : Bytes) (tagSize inputSize outputSize : Nat) : Except Error Unit := do
  checkSizes iv tagSize
  checkText inputSize outputSize

/-- The hash of the associated data and the enciphered text, with both lengths. -/
def textHash (key : GhashKey) (aad text : Bytes) : Bytes :=
  let state := Ghash.absorb key (Ghash.pad key (Ghash.absorb key Ghash.empty aad)) text
  (Ghash.close key state (UInt64.ofNat aad.length) (UInt64.ofNat text.length)).value

variable [BlockCipher C]

def tag (context : Gcm C) (start aad text : Bytes) (size : Nat) : Except Error Bytes × Gcm C :=
  match BlockCipher.encryptBlock context.cipher start blockSize with
  | (.error cause, after) => (.error cause, { context with cipher := after })
  | (.ok mask, after) =>
      (.ok (((textHash context.key aad text).xor mask.toList).take size),
        { context with cipher := after })

def cryptText (context : Gcm C) (start input : Bytes) : Progress C :=
  Ctr.encrypt context.cipher 32 (Ctr.increment 4 start) input input.length

/-- What an encryption leaves in the caller's two buffers, and the context. -/
structure Sealed (C : Type) where
  refusal : Option Error
  output : Bytes
  tag : Bytes
  context : Gcm C

def encryptInto (context : Gcm C) (iv aad input buffer tagBuffer : Bytes) : Sealed C :=
  -- The tag fills its buffer; a refused call leaves that buffer as it was.
  match check iv tagBuffer.length input.length buffer.length with
  | .error cause => { refusal := some cause, output := buffer, tag := tagBuffer, context }
  | .ok () =>
      let start := Ghash.startBlock context.key iv
      let progress := cryptText context start input
      let output := progress.output buffer
      let after := { context with cipher := progress.cipher }
      match progress.refusal with
      | some cause => { refusal := some cause, output, tag := tagBuffer, context := after }
      | none =>
          match after.tag start aad progress.produced tagBuffer.length with
          | (.error cause, last) =>
              { refusal := some cause, output, tag := tagBuffer, context := last }
          | (.ok tag, last) => { refusal := none, output, tag, context := last }

/-- The same with the tag as a value. -/
structure Sealing (C : Type) where
  tag : Except Error Bytes
  output : Bytes
  context : Gcm C

def encrypt (context : Gcm C) (iv aad input buffer : Bytes) (tagSize : Nat) : Sealing C :=
  let sealed := encryptInto context iv aad input buffer (Bytes.zeros tagSize)
  { tag := match sealed.refusal with
      | none => .ok sealed.tag
      | some cause => .error cause
    output := sealed.output
    context := sealed.context }

/-- What a decryption leaves behind. -/
structure Opening (C : Type) where
  refusal : Option Error
  output : Bytes
  context : Gcm C

def decrypt (context : Gcm C) (iv aad input buffer tag : Bytes) : Logged (Opening C) :=
  match check iv tag.length input.length buffer.length with
  | .error cause => pure { refusal := some cause, output := buffer, context }
  | .ok () =>
      let start := Ghash.startBlock context.key iv
      match context.tag start aad input tag.length with
      | (.error cause, after) => pure { refusal := some cause, output := buffer, context := after }
      | (.ok expected, after) =>
          if expected.agree tag then
            let progress := cryptText after start input
            pure { refusal := progress.refusal, output := progress.output buffer,
                   context := { after with cipher := progress.cipher } }
          else do
            -- Zeros stand where the text would have been.
            Logged.record .debug "GCM tag mismatch"
            pure { refusal := some .authenticationFailed,
                   output := buffer.overlay (Bytes.zeros input.length), context := after }

end Gcm

end SymmetricKey
