import SymmetricKey.Proofs.GcmFunction

/-!
Deciphering accepts a text and a tag exactly when enciphering makes them from
the text that is given out, whatever both contexts were used for before.
-/

namespace SymmetricKey.Gcm

variable {C : Type} [BlockCipher C]

/-- Enciphering makes exactly this text and this tag. -/
def Seals (context : Gcm C) (iv aad plain room tagBuffer text tag : Bytes) : Prop :=
  (context.encryptInto iv aad plain room tagBuffer).refusal = none ∧
    (context.encryptInto iv aad plain room tagBuffer).output.take plain.length = text ∧
    (context.encryptInto iv aad plain room tagBuffer).tag = tag

/-- Deciphering gives out exactly this text. -/
def Opens (context : Gcm C) (iv aad text buffer tag plain : Bytes) : Prop :=
  (context.decrypt iv aad text buffer tag).value.refusal = none ∧
    (context.decrypt iv aad text buffer tag).value.output.take text.length = plain

section Over
variable (function : Block 16 → Block 16) (context : Gcm C) (keyed : Over function context)
include keyed

theorem seals_iff (iv aad plain room tagBuffer text tag : Bytes)
    (sizes : iv ≠ [] ∧ 4 ≤ tagBuffer.length ∧ tagBuffer.length ≤ 16)
    (enough : plain.length ≤ room.length) :
    context.Seals iv aad plain room tagBuffer text tag ↔
      plain.length ≤ (2 ^ 32 - 2) * 16 ∧
      concealed function (Ghash.startBlock context.key iv) plain = text ∧
      tagOf function context.key (Ghash.startBlock context.key iv) aad text tagBuffer.length =
        tag := by
  by_cases short : plain.length ≤ (2 ^ 32 - 2) * 16
  · have accepted : check iv tagBuffer.length plain.length room.length = .ok () :=
      (check_ok_iff _ _ _ _).mpr ⟨sizes, (check_text_ok_iff _ _).mpr ⟨short, enough⟩⟩
    obtain ⟨_, _, sealed⟩ :=
      encrypt_into_exact function context keyed iv aad plain room tagBuffer accepted
    have front : (concealed function (Ghash.startBlock context.key iv) plain ++
        room.drop plain.length).take plain.length =
          concealed function (Ghash.startBlock context.key iv) plain :=
      List.take_left' (concealed_length function _ plain)
    rw [Seals, sealed]
    constructor
    · rintro ⟨_, made, tagged⟩
      rw [front] at made
      rw [made] at tagged
      exact ⟨short, made, tagged⟩
    · rintro ⟨_, made, tagged⟩
      refine ⟨rfl, front.trans made, ?_⟩
      rw [made]
      exact tagged
  · cases checked : check iv tagBuffer.length plain.length room.length with
    | ok done =>
        exact absurd ((check_text_ok_iff _ _).mp ((check_ok_iff _ _ _ _).mp checked).2).1 short
    | error cause =>
        rw [Seals, encrypt_refused context iv aad plain room tagBuffer cause checked]
        constructor
        · rintro ⟨finished, _⟩
          cases finished
        · rintro ⟨fits, _⟩
          exact absurd fits short

theorem opens_iff (iv aad text buffer tag plain : Bytes)
    (accepted : check iv tag.length text.length buffer.length = .ok ()) :
    context.Opens iv aad text buffer tag plain ↔
      tagOf function context.key (Ghash.startBlock context.key iv) aad text tag.length = tag ∧
      concealed function (Ghash.startBlock context.key iv) text = plain := by
  have front : (concealed function (Ghash.startBlock context.key iv) text ++
      buffer.drop text.length).take text.length =
        concealed function (Ghash.startBlock context.key iv) text :=
    List.take_left' (concealed_length function _ text)
  by_cases agreed : tagOf function context.key (Ghash.startBlock context.key iv) aad text
      tag.length = tag
  · obtain ⟨_, _, opened⟩ :=
      decrypt_right_tag function context keyed iv aad text buffer tag accepted agreed
    rw [Opens, opened]
    constructor
    · rintro ⟨_, given⟩
      exact ⟨agreed, front.symm.trans given⟩
    · rintro ⟨_, given⟩
      exact ⟨rfl, front.trans given⟩
  · obtain ⟨_, _, refused⟩ :=
      decrypt_wrong_tag function context keyed iv aad text buffer tag accepted agreed
    rw [Opens, refused]
    constructor
    · rintro ⟨finished, _⟩
      cases finished
    · rintro ⟨right, _⟩
      exact absurd right agreed

theorem decrypt_outcome (iv aad text buffer tag : Bytes)
    (accepted : check iv tag.length text.length buffer.length = .ok ()) :
    ((context.decrypt iv aad text buffer tag).value.refusal = none ∨
      (context.decrypt iv aad text buffer tag).value.refusal = some .authenticationFailed) ∧
    (context.decrypt iv aad text buffer tag).value.output.drop text.length =
      buffer.drop text.length := by
  by_cases agreed : tagOf function context.key (Ghash.startBlock context.key iv) aad text
      tag.length = tag
  · obtain ⟨_, _, opened⟩ :=
      decrypt_right_tag function context keyed iv aad text buffer tag accepted agreed
    rw [opened]
    exact ⟨Or.inl rfl, List.drop_left' (concealed_length function _ text)⟩
  · obtain ⟨_, _, refused⟩ :=
      decrypt_wrong_tag function context keyed iv aad text buffer tag accepted agreed
    rw [refused]
    exact ⟨Or.inr rfl, Bytes.overlay_drop buffer _ text.length (by simp [Bytes.zeros])⟩

end Over

theorem opens_iff_seals (function : Block 16 → Block 16) (sealer opener : Gcm C)
    (left : Over function sealer) (right : Over function opener)
    (iv aad text buffer tag plain room tagBuffer : Bytes)
    (accepted : check iv tag.length text.length buffer.length = .ok ())
    (enough : plain.length ≤ room.length) (same : tagBuffer.length = tag.length) :
    opener.Opens iv aad text buffer tag plain ↔
      sealer.Seals iv aad plain room tagBuffer text tag := by
  have key : opener.key = sealer.key := right.2.trans left.2.symm
  obtain ⟨sizes, limits⟩ := (check_ok_iff _ _ _ _).mp accepted
  have limit := ((check_text_ok_iff _ _).mp limits).1
  rw [opens_iff function opener right iv aad text buffer tag plain accepted,
    seals_iff function sealer left iv aad plain room tagBuffer text tag (by rwa [same]) enough,
    key, same]
  constructor
  · rintro ⟨agreed, rfl⟩
    refine ⟨?_, concealed_twice function _ text, agreed⟩
    rwa [concealed_length]
  · rintro ⟨_, rfl, agreed⟩
    exact ⟨agreed, concealed_twice function _ plain⟩

/-- For one and the same key, the accepted pairs of text and tag are those that enciphering makes,
every other pair fails for its tag, and every text that is enciphered comes back. -/
theorem accepts_exactly_sealed (function : Block 16 → Block 16) (cipher : C)
    (steady : Enciphers function cipher) (fresh : Gcm C) (made : ofCipher cipher = .ok fresh)
    (sealerCalls openerCalls : List Call) (iv aad : Bytes) (vector : iv ≠ []) :
    let sealer := fresh.serveAll sealerCalls
    let opener := fresh.serveAll openerCalls
    (∀ text tag buffer, 4 ≤ tag.length → tag.length ≤ 16 →
      checkText text.length buffer.length = .ok () →
        (∀ plain room tagBuffer, plain.length ≤ room.length → tagBuffer.length = tag.length →
          (opener.Opens iv aad text buffer tag plain ↔
            sealer.Seals iv aad plain room tagBuffer text tag)) ∧
        ((opener.decrypt iv aad text buffer tag).value.refusal = none ∨
          (opener.decrypt iv aad text buffer tag).value.refusal = some .authenticationFailed) ∧
        (opener.decrypt iv aad text buffer tag).value.output.drop text.length =
          buffer.drop text.length) ∧
    (∀ plain room tagBuffer back, 4 ≤ tagBuffer.length → tagBuffer.length ≤ 16 →
      checkText plain.length room.length = .ok () → plain.length ≤ back.length →
        ∃ text tag, sealer.Seals iv aad plain room tagBuffer text tag ∧
          opener.Opens iv aad text back tag plain) := by
  intro sealer opener
  obtain ⟨context, same, keyed⟩ := of_cipher_over function cipher steady
  rw [made] at same
  cases same
  have left := serve_all_over function fresh keyed sealerCalls
  have right := serve_all_over function fresh keyed openerCalls
  constructor
  · intro text tag buffer least most sizes
    have accepted : check iv tag.length text.length buffer.length = .ok () :=
      (check_ok_iff _ _ _ _).mpr ⟨⟨vector, least, most⟩, sizes⟩
    refine ⟨?_, decrypt_outcome function opener right iv aad text buffer tag accepted⟩
    intro plain room tagBuffer enough sameSize
    exact opens_iff_seals function sealer opener left right iv aad text buffer tag plain room
      tagBuffer accepted enough sameSize
  · intro plain room tagBuffer back least most sizes fits
    obtain ⟨limit, enough⟩ := (check_text_ok_iff _ _).mp sizes
    have made := (seals_iff function sealer left iv aad plain room tagBuffer _ _
      ⟨vector, least, most⟩ enough).mpr ⟨limit, rfl, rfl⟩
    have textSize := concealed_length function (Ghash.startBlock sealer.key iv) plain
    have tagSize : (tagOf function sealer.key (Ghash.startBlock sealer.key iv) aad
        (concealed function (Ghash.startBlock sealer.key iv) plain) tagBuffer.length).length =
          tagBuffer.length := tag_of_length function _ _ aad _ tagBuffer.length most
    have accepted := (check_ok_iff iv tagBuffer.length plain.length back.length).mpr
      ⟨⟨vector, least, most⟩, (check_text_ok_iff _ _).mpr ⟨limit, fits⟩⟩
    refine ⟨_, _, made, ?_⟩
    exact (opens_iff_seals function sealer opener left right iv aad _ back _ plain room tagBuffer
      (by rw [tagSize, textSize]; exact accepted) enough tagSize.symm).mpr made

-- All blocks become the same one, so that no block can be deciphered back.
def constant : BlockFunction 16 := ⟨fun _ => Vector.replicate 16 5⟩

theorem constant_cipher_opens_sealed :
    ofCipher constant = .ok { cipher := constant, key := GhashKey.ofBlock (List.replicate 16 5) } ∧
      Opens { cipher := constant, key := GhashKey.ofBlock (List.replicate 16 5) } [1, 2, 3] [7]
        [6, 1, 0] (Bytes.zeros 5) [108, 187, 189, 207] [3, 4, 5] := by
  have made : ofCipher constant =
      .ok { cipher := constant, key := GhashKey.ofBlock (List.replicate 16 5) } := rfl
  obtain ⟨law, _⟩ := accepts_exactly_sealed constant.apply constant constant.enciphers _ made [] []
    [1, 2, 3] [7] (by decide)
  obtain ⟨opens, _⟩ :=
    law [6, 1, 0] [108, 187, 189, 207] (Bytes.zeros 5) (by decide) (by decide) (by decide)
  have sealed : Seals { cipher := constant, key := GhashKey.ofBlock (List.replicate 16 5) }
      [1, 2, 3] [7] [3, 4, 5] (Bytes.zeros 3) (Bytes.zeros 4) [6, 1, 0] [108, 187, 189, 207] :=
    ⟨by decide +kernel, by decide +kernel, by decide +kernel⟩
  exact ⟨made, (opens [3, 4, 5] (Bytes.zeros 3) (Bytes.zeros 4) (by decide) rfl).mpr sealed⟩

end SymmetricKey.Gcm
