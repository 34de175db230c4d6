import SymmetricKey.Proofs.GcmCalls

/-!
What authenticated encryption leaves in the buffers of its caller, for a cipher
that may refuse any call. Deciphering gives out nothing under a tag that is not
the right one, and enciphering gives out no tag unless it succeeds.
-/

namespace SymmetricKey.Gcm

variable {C : Type} [BlockCipher C]

theorem conceal_bound (context : Gcm C) (iv input : Bytes) :
    (context.conceal iv input).produced.length ≤ input.length :=
  Ctr.encrypt_produced_bound context.cipher 32 _ input input.length

/-- The buffer of the tag and the bytes behind the text stay as they were. -/
def Spared (sealed : Sealed C) (reach : Nat) (buffer tagBuffer : Bytes) : Prop :=
  sealed.tag = tagBuffer ∧ sealed.output.length = buffer.length ∧
    sealed.output.drop reach = buffer.drop reach

theorem encrypt_refusal_spares (context : Gcm C) (iv aad input buffer tagBuffer : Bytes)
    (failed : (context.encryptInto iv aad input buffer tagBuffer).refusal ≠ none) :
    Spared (context.encryptInto iv aad input buffer tagBuffer) input.length buffer tagBuffer := by
  have frame := (context.conceal iv input).output_frame buffer input.length
    (conceal_bound context iv input)
  cases checked : check iv tagBuffer.length input.length buffer.length with
  | error cause =>
      rw [encrypt_refused context iv aad input buffer tagBuffer cause checked]
      exact ⟨rfl, rfl, rfl⟩
  | ok done =>
      cases concealed : (context.conceal iv input).refusal with
      | some cause =>
          rw [encrypt_stopped context iv aad input buffer tagBuffer cause checked concealed]
          exact ⟨rfl, frame.1, frame.2⟩
      | none =>
          cases computed : (context.afterText iv input).tag (Ghash.startBlock context.key iv) aad
              (context.conceal iv input).produced tagBuffer.length with
          | mk answer last =>
              cases answer with
              | error cause =>
                  rw [encrypt_untagged context iv aad input buffer tagBuffer cause last checked
                    concealed computed]
                  exact ⟨rfl, frame.1, frame.2⟩
              | ok tag =>
                  rw [encrypt_sealed context iv aad input buffer tagBuffer tag last checked
                    concealed computed] at failed
                  exact absurd rfl failed

/-- Zeros as far as the text would have reached, and behind them what was there before. -/
def wiped (reach : Nat) (buffer : Bytes) : Bytes := Bytes.zeros reach ++ buffer.drop reach

theorem wiped_exact (reach : Nat) (buffer : Bytes) (fits : reach ≤ buffer.length) :
    buffer.overlay (Bytes.zeros reach) = wiped reach buffer := by
  have front : (Bytes.zeros reach).length = reach := List.length_replicate
  rw [Bytes.overlay_fitting buffer _ (by omega), front, wiped]

theorem decrypt_withheld (context : Gcm C) (iv aad input buffer tag : Bytes)
    (wrong : (context.expect iv aad input tag.length).1 ≠ .ok tag) :
    (∃ cause, check iv tag.length input.length buffer.length = .error cause ∧
      (context.decrypt iv aad input buffer tag).value.refusal = some cause ∧
      (context.decrypt iv aad input buffer tag).value.output = buffer) ∨
    (∃ cause, check iv tag.length input.length buffer.length = .ok () ∧
      (context.expect iv aad input tag.length).1 = .error cause ∧
      (context.decrypt iv aad input buffer tag).value.refusal = some cause ∧
      (context.decrypt iv aad input buffer tag).value.output = buffer) ∨
    (check iv tag.length input.length buffer.length = .ok () ∧
      (∃ expected, (context.expect iv aad input tag.length).1 = .ok expected) ∧
      (context.decrypt iv aad input buffer tag).value.refusal = some .authenticationFailed ∧
      (context.decrypt iv aad input buffer tag).value.output = wiped input.length buffer) := by
  cases checked : check iv tag.length input.length buffer.length with
  | error cause =>
      left
      rw [decrypt_refused context iv aad input buffer tag cause checked]
      exact ⟨cause, rfl, rfl, rfl⟩
  | ok done =>
      right
      cases computed : context.expect iv aad input tag.length with
      | mk answer after =>
          cases answer with
          | error cause =>
              left
              rw [decrypt_unverified context iv aad input buffer tag cause after checked computed]
              exact ⟨cause, rfl, rfl, rfl, rfl⟩
          | ok expected =>
              right
              have different : expected ≠ tag := by
                intro same
                rw [computed, same] at wrong
                exact wrong rfl
              have fits := (check_text_ok_iff _ _).mp ((check_ok_iff _ _ _ _).mp checked).2
              rw [decrypt_mismatch context iv aad input buffer tag expected after checked computed
                different]
              exact ⟨rfl, ⟨expected, rfl⟩, rfl, wiped_exact input.length buffer fits.2⟩

-- A cipher of somebody else might name the cause of a wrong tag for a refusal of its own. The
-- buffer is then left alone as behind any other refusal, so the cause tells the two endings apart
-- only where the tag could be computed or was refused for another cause.
theorem unverified_text_withheld (context : Gcm C) (iv aad input buffer : Bytes) :
    (∀ tag, (context.expect iv aad input tag.length).1 ≠ .ok tag →
      let opening := (context.decrypt iv aad input buffer tag).value
      ((∃ cause, (check iv tag.length input.length buffer.length = .error cause ∨
            check iv tag.length input.length buffer.length = .ok () ∧
              (context.expect iv aad input tag.length).1 = .error cause) ∧
          opening.refusal = some cause ∧ opening.output = buffer) ∨
        (check iv tag.length input.length buffer.length = .ok () ∧
          (∃ expected, (context.expect iv aad input tag.length).1 = .ok expected) ∧
          opening.refusal = some .authenticationFailed ∧
          opening.output = wiped input.length buffer)) ∧
      ((context.expect iv aad input tag.length).1 ≠ .error .authenticationFailed →
        (opening.refusal = some .authenticationFailed →
          opening.output = wiped input.length buffer) ∧
        (opening.refusal ≠ some .authenticationFailed → opening.output = buffer))) ∧
    (∀ tagBuffer, (context.encryptInto iv aad input buffer tagBuffer).refusal ≠ none →
      Spared (context.encryptInto iv aad input buffer tagBuffer) input.length buffer
        tagBuffer) := by
  refine ⟨?_, encrypt_refusal_spares context iv aad input buffer⟩
  intro tag wrong
  have endings := decrypt_withheld context iv aad input buffer tag wrong
  constructor
  · rcases endings with ⟨cause, checked, refusal, left⟩ | ⟨cause, accepted, failed, refusal, left⟩ |
      wrongTag
    · exact Or.inl ⟨cause, Or.inl checked, refusal, left⟩
    · exact Or.inl ⟨cause, Or.inr ⟨accepted, failed⟩, refusal, left⟩
    · exact Or.inr wrongTag
  · -- No check answers authenticationFailed, and the cipher is taken not to.
    intro foreign
    rcases endings with ⟨cause, checked, refusal, left⟩ | ⟨cause, _, failed, refusal, left⟩ |
      ⟨_, _, refusal, gone⟩
    · have other : cause ≠ .authenticationFailed := by
        rcases check_cause iv _ _ _ cause checked with named | named <;> rw [named] <;> decide
      exact ⟨fun same => absurd (Option.some.inj (refusal.symm.trans same)) other, fun _ => left⟩
    · have other : cause ≠ .authenticationFailed := by
        intro named
        rw [named] at failed
        exact foreign failed
      exact ⟨fun same => absurd (Option.some.inj (refusal.symm.trans same)) other, fun _ => left⟩
    · exact ⟨fun _ => gone, fun different => absurd refusal different⟩

-- A cipher that changes nothing and is about to refuse its second call.
def refusingSecond : Gcm (Planned (BlockFunction 16)) :=
  { cipher := { cipher := ⟨id⟩, plan := [none, some .failure] }, key := GhashKey.ofBlock [] }

theorem wrong_tag_and_refused_block :
    (refusingSecond.expect (Bytes.zeros 12) [] [1, 2, 3] 4).1 ≠ .ok [9, 9, 9, 9] ∧
      (refusingSecond.decrypt (Bytes.zeros 12) [] [1, 2, 3] [7, 7, 7, 7, 7]
        [9, 9, 9, 9]).value.output = [0, 0, 0, 7, 7] ∧
      (refusingSecond.encryptInto (Bytes.zeros 12) [] (Bytes.zeros 20) (Bytes.zeros 25)
        [7, 7, 7, 7]).refusal ≠ none ∧
      Spared (refusingSecond.encryptInto (Bytes.zeros 12) [] (Bytes.zeros 20) (Bytes.zeros 25)
        [7, 7, 7, 7]) 20 (Bytes.zeros 25) [7, 7, 7, 7] := by
  have wrong : (refusingSecond.expect (Bytes.zeros 12) [] [1, 2, 3] 4).1 ≠ .ok [9, 9, 9, 9] := by
    decide +kernel
  have stopped : (refusingSecond.encryptInto (Bytes.zeros 12) [] (Bytes.zeros 20) (Bytes.zeros 25)
      [7, 7, 7, 7]).refusal ≠ none := by decide +kernel
  have law := unverified_text_withheld refusingSecond (Bytes.zeros 12) []
  exact ⟨wrong, ((law [1, 2, 3] [7, 7, 7, 7, 7]).1 [9, 9, 9, 9] wrong).2 (by decide +kernel) |>.1
    (by decide +kernel), stopped, (law (Bytes.zeros 20) (Bytes.zeros 25)).2 [7, 7, 7, 7] stopped⟩

/-- A cipher that changes nothing and is about to refuse a call with the given cause. -/
def refusingNext (cause : Error) : Gcm (Planned (BlockFunction 16)) :=
  { cipher := { cipher := ⟨id⟩, plan := [some cause] }, key := GhashKey.ofBlock [] }

/-- Under a wrong tag zeros do not stand for that cause alone. A cipher may give it as its own, and
then the buffer keeps what it held. Where there is no text, nothing is wiped, and any refusal leaves
what a wrong tag would have left. -/
theorem wiping_and_cause_apart :
    (let context := refusingNext .authenticationFailed
      let opening := (context.decrypt (Bytes.zeros 12) [] [1, 2, 3] [7, 7, 7, 7] [9, 9, 9, 9]).value
      (context.expect (Bytes.zeros 12) [] [1, 2, 3] 4).1 ≠ .ok [9, 9, 9, 9] ∧
        opening.refusal = some .authenticationFailed ∧ opening.output = [7, 7, 7, 7] ∧
        opening.output ≠ wiped 3 [7, 7, 7, 7]) ∧
    (let context := refusingNext .failure
      let opening := (context.decrypt (Bytes.zeros 12) [] [] [7, 7] [9, 9, 9, 9]).value
      (context.expect (Bytes.zeros 12) [] [] 4).1 ≠ .ok [9, 9, 9, 9] ∧
        opening.refusal = some .failure ∧ opening.output = wiped 0 [7, 7]) := by
  decide +kernel

end SymmetricKey.Gcm
