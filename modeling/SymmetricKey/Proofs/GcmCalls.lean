import SymmetricKey.Confidentiality.Gcm
import SymmetricKey.Proofs.CounterMode

/-!
The calls of authenticated encryption, outcome by outcome: which sizes are
accepted, and what a call leaves behind when it is refused at once, when the
cipher refuses, when the tag is wrong and when all goes well.
-/

namespace SymmetricKey.Gcm

theorem check_sizes_ok_iff (iv : Bytes) (tagSize : Nat) :
    checkSizes iv tagSize = .ok () ↔ iv ≠ [] ∧ 4 ≤ tagSize ∧ tagSize ≤ 16 := by
  by_cases wrong : iv.isEmpty ∨ tagSize < minTagSize ∨ maxTagSize < tagSize
  · rw [checkSizes, if_pos wrong]
    simp only [minTagSize, maxTagSize, List.isEmpty_iff] at wrong
    constructor
    · intro accepted
      cases accepted
    · rintro ⟨some, least, most⟩
      rcases wrong with none | short | long
      · exact absurd none some
      · omega
      · omega
  · rw [checkSizes, if_neg wrong]
    simp only [minTagSize, maxTagSize, List.isEmpty_iff, not_or] at wrong
    exact ⟨fun _ => ⟨wrong.1, by omega, by omega⟩, fun _ => rfl⟩

theorem check_text_ok_iff (inputSize outputSize : Nat) :
    checkText inputSize outputSize = .ok () ↔
      inputSize ≤ (2 ^ 32 - 2) * 16 ∧ inputSize ≤ outputSize := by
  by_cases wrong : maxTextSize < inputSize ∨ outputSize < inputSize
  · rw [checkText, if_pos wrong]
    simp only [maxTextSize, blockSize] at wrong
    constructor
    · intro accepted
      cases accepted
    · rintro ⟨limit, fits⟩
      omega
  · rw [checkText, if_neg wrong]
    simp only [maxTextSize, blockSize] at wrong
    exact ⟨fun _ => by omega, fun _ => rfl⟩

theorem check_ok_iff (iv : Bytes) (tagSize inputSize outputSize : Nat) :
    check iv tagSize inputSize outputSize = .ok () ↔
      (iv ≠ [] ∧ 4 ≤ tagSize ∧ tagSize ≤ 16) ∧ checkText inputSize outputSize = .ok () := by
  rw [← check_sizes_ok_iff]
  cases sizes : checkSizes iv tagSize with
  | error cause => simp [check, sizes, bind, Except.bind]
  | ok done => simp [check, sizes, bind, Except.bind]

theorem check_cause (iv : Bytes) (tagSize inputSize outputSize : Nat) (cause : Error)
    (refused : check iv tagSize inputSize outputSize = .error cause) :
    cause = .invalidParameter ∨ cause = .invalidLength := by
  simp only [check, checkSizes, checkText, bind, Except.bind] at refused
  by_cases sizes : iv.isEmpty ∨ tagSize < minTagSize ∨ maxTagSize < tagSize
  · simp only [if_pos sizes, Except.error.injEq] at refused
    exact Or.inl refused.symm
  · simp only [if_neg sizes] at refused
    split at refused
    · cases refused
      exact Or.inr rfl
    · cases refused

section Calls
variable {C : Type} [BlockCipher C] (context : Gcm C) (iv aad input buffer : Bytes)

/-- The tag that belongs to a text, as deciphering computes it, and the context after that. -/
def expect (size : Nat) : Except Error Bytes × Gcm C :=
  context.tag (Ghash.startBlock context.key iv) aad input size

theorem decrypt_refused (tag : Bytes) (cause : Error)
    (refused : check iv tag.length input.length buffer.length = .error cause) :
    (context.decrypt iv aad input buffer tag).value =
      { refusal := some cause, output := buffer, context } := by
  rw [decrypt, refused]
  rfl

theorem decrypt_unverified (tag : Bytes) (cause : Error) (after : Gcm C)
    (accepted : check iv tag.length input.length buffer.length = .ok ())
    (failed : context.expect iv aad input tag.length = (.error cause, after)) :
    (context.decrypt iv aad input buffer tag).value =
      { refusal := some cause, output := buffer, context := after } := by
  rw [expect] at failed
  rw [decrypt, accepted]
  simp only [failed]
  rfl

theorem decrypt_mismatch (tag expected : Bytes) (after : Gcm C)
    (accepted : check iv tag.length input.length buffer.length = .ok ())
    (computed : context.expect iv aad input tag.length = (.ok expected, after))
    (different : expected ≠ tag) :
    (context.decrypt iv aad input buffer tag).value =
      { refusal := some .authenticationFailed
        output := buffer.overlay (Bytes.zeros input.length)
        context := after } := by
  have verdict : expected.agree tag = false := by
    rw [← Bool.not_eq_true, Bytes.agree_iff]
    exact different
  rw [expect] at computed
  rw [decrypt, accepted]
  simp only [computed, verdict]
  rfl

theorem decrypt_verified (tag : Bytes) (after : Gcm C)
    (accepted : check iv tag.length input.length buffer.length = .ok ())
    (computed : context.expect iv aad input tag.length = (.ok tag, after)) :
    (context.decrypt iv aad input buffer tag).value =
      { refusal := (after.cryptText (Ghash.startBlock context.key iv) input).refusal
        output := (after.cryptText (Ghash.startBlock context.key iv) input).output buffer
        context := { after with
          cipher := (after.cryptText (Ghash.startBlock context.key iv) input).cipher } } := by
  have verdict : tag.agree tag = true := (Bytes.agree_iff tag tag).mpr rfl
  rw [expect] at computed
  rw [decrypt, accepted]
  simp only [computed, verdict]
  rfl

/-- What enciphering does to the text. -/
def conceal : Progress C := context.cryptText (Ghash.startBlock context.key iv) input

def afterText : Gcm C := { context with cipher := (context.conceal iv input).cipher }

theorem encrypt_refused (tagBuffer : Bytes) (cause : Error)
    (refused : check iv tagBuffer.length input.length buffer.length = .error cause) :
    context.encryptInto iv aad input buffer tagBuffer =
      { refusal := some cause, output := buffer, tag := tagBuffer, context } := by
  rw [encryptInto, refused]

theorem encrypt_stopped (tagBuffer : Bytes) (cause : Error)
    (accepted : check iv tagBuffer.length input.length buffer.length = .ok ())
    (failed : (context.conceal iv input).refusal = some cause) :
    context.encryptInto iv aad input buffer tagBuffer =
      { refusal := some cause
        output := (context.conceal iv input).output buffer
        tag := tagBuffer
        context := context.afterText iv input } := by
  rw [conceal] at failed
  rw [encryptInto, accepted]
  simp only [failed]
  rfl

theorem encrypt_untagged (tagBuffer : Bytes) (cause : Error) (last : Gcm C)
    (accepted : check iv tagBuffer.length input.length buffer.length = .ok ())
    (concealed : (context.conceal iv input).refusal = none)
    (failed : (context.afterText iv input).tag (Ghash.startBlock context.key iv) aad
      (context.conceal iv input).produced tagBuffer.length = (.error cause, last)) :
    context.encryptInto iv aad input buffer tagBuffer =
      { refusal := some cause
        output := (context.conceal iv input).output buffer
        tag := tagBuffer
        context := last } := by
  rw [afterText, conceal] at failed
  rw [conceal] at concealed
  rw [encryptInto, accepted]
  simp only [concealed, failed]
  rfl

theorem encrypt_sealed (tagBuffer tag : Bytes) (last : Gcm C)
    (accepted : check iv tagBuffer.length input.length buffer.length = .ok ())
    (concealed : (context.conceal iv input).refusal = none)
    (computed : (context.afterText iv input).tag (Ghash.startBlock context.key iv) aad
      (context.conceal iv input).produced tagBuffer.length = (.ok tag, last)) :
    context.encryptInto iv aad input buffer tagBuffer =
      { refusal := none
        output := (context.conceal iv input).output buffer
        tag
        context := last } := by
  rw [afterText, conceal] at computed
  rw [conceal] at concealed
  rw [encryptInto, accepted]
  simp only [concealed, computed]
  rfl

end Calls

end SymmetricKey.Gcm
