import SymmetricKey.Proofs.GmacCalls

/-!
GMAC is authenticated encryption of no text. Over a cipher that never refuses,
the history of a context tells for which vector and which data the next tag is,
and that tag is the one which enciphering nothing gives them.
-/

namespace SymmetricKey.Gmac

/-- The message under way: its vector and the data absorbed for it. A tag that is given out ends
it, and what was absorbed without a vector belongs to no message. -/
def track (message : Option (Bytes × Bytes)) :
    MacCall Bytes × MacAnswer → Option (Bytes × Bytes)
  | (.reset iv, .done) => some (iv, [])
  | (.absorb data, _) => message.map fun (iv, earlier) => (iv, earlier ++ data)
  | (.finish _, .tag _) => none
  | _ => message

def message? (history : List (MacCall Bytes × MacAnswer)) : Option (Bytes × Bytes) :=
  history.foldl track none

/-- What the definition of authenticated encryption has a call answer. -/
def expected (function : Block 16 → Block 16) (message : Option (Bytes × Bytes)) :
    MacCall Bytes → MacAnswer
  | .reset iv => if iv = [] then .refused .invalidParameter else .done
  | .absorb _ => .done
  | .finish size =>
      match message with
      | none => .refused .invalidParameter
      | some (iv, data) =>
          if 4 ≤ size ∧ size ≤ 16 then .tag (Gcm.Standard.cipherTag function iv data [] size)
          else .refused .invalidParameter

theorem expected_tag_iff (function : Block 16 → Block 16) (message : Option (Bytes × Bytes))
    (size : Nat) (tag : Bytes) :
    expected function message (.finish size) = .tag tag ↔
      ∃ iv data, message = some (iv, data) ∧ (4 ≤ size ∧ size ≤ 16) ∧
        Gcm.Standard.cipherTag function iv data [] size = tag := by
  cases message with
  | none => simp [expected]
  | some message =>
      obtain ⟨iv, data⟩ := message
      by_cases inside : 4 ≤ size ∧ size ≤ 16
      · rw [expected, if_pos inside]
        simp [inside]
      · rw [expected, if_neg inside]
        simp [inside]

variable {C : Type} [BlockCipher C]

def Awaits (function : Block 16 → Block 16) (message : Option (Bytes × Bytes)) (context : Gmac C) :
    Prop :=
  Enciphers function context.cipher ∧ Keyed function context ∧
    match message with
    | none => context.start = none
    | some (iv, data) => Holds function context iv data data.length

section Steady
variable (function : Block 16 → Block 16) (message : Option (Bytes × Bytes)) (context : Gmac C)
  (awaits : Awaits function message context)
include awaits

theorem serve_reset (iv : Bytes) :
    (context.serve (.reset iv)).1 = expected function message (.reset iv) ∧
      Awaits function (track message (.reset iv, expected function message (.reset iv)))
        (context.serve (.reset iv)).2 := by
  by_cases empty : iv = []
  · subst empty
    exact ⟨rfl, awaits⟩
  · obtain ⟨answer, same, holds⟩ := reset_holds function context awaits.2.1 iv empty
    have done : expected function message (.reset iv) = .done := if_neg empty
    rw [done]
    refine ⟨answer, ?_, holds.keyed, holds⟩
    rw [same]
    exact awaits.1

theorem serve_absorb (data : Bytes) :
    Awaits function (track message (.absorb data, .done)) (context.absorb data) := by
  obtain ⟨steady, keyed, state⟩ := awaits
  refine ⟨steady, keyed, ?_⟩
  cases message with
  | none => exact state
  | some message =>
      obtain ⟨iv, earlier⟩ := message
      have holds := absorb_holds function context iv earlier earlier.length state data
      rw [← List.length_append] at holds
      exact holds

theorem serve_finish (size : Nat) :
    (context.serve (.finish size)).1 = expected function message (.finish size) ∧
      Awaits function (track message (.finish size, expected function message (.finish size)))
        (context.serve (.finish size)).2 := by
  obtain ⟨steady, keyed, state⟩ := awaits
  cases message with
  | none =>
      rw [serve, finish_unstarted context size state]
      exact ⟨rfl, steady, keyed, state⟩
  | some message =>
      obtain ⟨iv, data⟩ := message
      by_cases inside : 4 ≤ size ∧ size ≤ 16
      · obtain ⟨after, kept, called⟩ :=
          steady.call function context.cipher _ (Gcm.first_counter_length function iv)
        have given : expected function (some (iv, data)) (.finish size) =
            .tag (Gcm.Standard.cipherTag function iv data [] size) := if_pos inside
        rw [serve, finish_answered function context iv data data.length state size inside after
          called, masked_hash_closed, given]
        exact ⟨rfl, kept, keyed, rfl⟩
      · have refused : expected function (some (iv, data)) (.finish size) =
            .refused .invalidParameter := if_neg inside
        rw [serve, finish_outside context size inside, refused]
        exact ⟨rfl, steady, keyed, state⟩

theorem serve_exact (call : MacCall Bytes) :
    (context.serve call).1 = expected function message call ∧
      Awaits function (track message (call, (context.serve call).1)) (context.serve call).2 := by
  cases call with
  | reset iv =>
      obtain ⟨answer, next⟩ := serve_reset function message context awaits iv
      exact ⟨answer, by rwa [answer]⟩
  | absorb data => exact ⟨rfl, serve_absorb function message context awaits data⟩
  | finish size =>
      obtain ⟨answer, next⟩ := serve_finish function message context awaits size
      exact ⟨answer, by rwa [answer]⟩

theorem serve_refused (call : MacCall Bytes) (cause : Error)
    (refused : (context.serve call).1 = .refused cause) :
    cause = .invalidParameter ∧ (context.serve call).2 = context := by
  cases call with
  | absorb data => cases refused
  | reset iv =>
      by_cases empty : iv = []
      · subst empty
        cases refused
        exact ⟨rfl, rfl⟩
      · rw [(serve_exact function message context awaits (.reset iv)).1, expected, if_neg empty]
          at refused
        cases refused
  | finish size =>
      by_cases inside : 4 ≤ size ∧ size ≤ 16
      · cases message with
        | none =>
            rw [serve, finish_unstarted context size awaits.2.2] at refused ⊢
            cases refused
            exact ⟨rfl, rfl⟩
        | some message =>
            rw [(serve_exact function _ context awaits (.finish size)).1, expected,
              if_pos inside] at refused
            cases refused
      · rw [serve, finish_outside context size inside] at refused ⊢
        cases refused
        exact ⟨rfl, rfl⟩

-- How the message came about is not seen.
theorem later_alike (other : Gmac C) (same : Awaits function message other)
    (calls : List (MacCall Bytes)) :
    (CallRun.run serve context calls).1 = (CallRun.run serve other calls).1 := by
  apply CallRun.run_alike serve serve
    (fun left right => ∃ message, Awaits function message left ∧ Awaits function message right)
    ?step context other ⟨message, awaits, same⟩ calls
  case step =>
    rintro left right call ⟨message, leftAwaits, rightAwaits⟩
    obtain ⟨leftAnswer, leftNext⟩ := serve_exact function message left leftAwaits call
    obtain ⟨rightAnswer, rightNext⟩ := serve_exact function message right rightAwaits call
    rw [rightAnswer] at rightNext
    rw [leftAnswer] at leftNext
    exact ⟨leftAnswer.trans rightAnswer.symm, _, leftNext, rightNext⟩

end Steady

theorem run_awaits (function : Block 16 → Block 16) (fresh : Gmac C)
    (awaits : Awaits function none fresh) (calls : List (MacCall Bytes)) :
    Awaits function (message? (CallRun.run serve fresh calls).1)
      (CallRun.run serve fresh calls).2 := by
  apply CallRun.run_keeps serve (fun history context => Awaits function (message? history) context)
    ?step fresh awaits calls
  case step =>
    intro history context call here
    rw [message?, List.foldl_append]
    exact (serve_exact function _ context here call).2

theorem sealing_nothing (function : Block 16 → Block 16) (sealer : Gcm C)
    (keyed : Gcm.Over function sealer) (iv data buffer : Bytes) (size : Nat) (given : iv ≠ [])
    (inside : 4 ≤ size ∧ size ≤ 16) :
    (sealer.encrypt iv data [] buffer size).tag =
      .ok (Gcm.Standard.cipherTag function iv data [] size) := by
  have width : (Bytes.zeros size).length = size := List.length_replicate
  have accepted : Gcm.check iv (Bytes.zeros size).length 0 buffer.length = .ok () := by
    rw [width]
    exact (Gcm.check_ok_iff _ _ _ _).mpr
      ⟨⟨given, inside⟩, (Gcm.check_text_ok_iff _ _).mpr ⟨Nat.zero_le _, Nat.zero_le _⟩⟩
  obtain ⟨last, _, answer⟩ :=
    Gcm.encrypt_into_exact function sealer keyed iv data [] buffer (Bytes.zeros size) accepted
  have nothing : Gcm.concealed function (Ghash.startBlock sealer.key iv) [] = [] := Bytes.xor_nil _
  rw [nothing, Gcm.cipher_tag_exact function sealer keyed, width] at answer
  rw [Gcm.encrypt, answer]

section Keying
variable {Engine : Type} [BlockCipher Engine] (algorithm : CipherAlgorithm Engine) (key : Bytes)
  (cipher : KeyedCipher Engine) (wide : algorithm.blockSize = 16)
  (accepted : (algorithm.withKey key).run.value = .ok cipher)
include wide accepted

theorem of_key_value : (ofKey algorithm key).run.value = ofCipher cipher := by
  have size : ¬algorithm.blockSize ≠ Gcm.blockSize := not_not_intro wide
  rw [ofKey, if_neg size]
  exact Attempt.bind_value _ _ cipher accepted

theorem sealer_of_key_value : (Gcm.ofKey algorithm key).run.value = Gcm.ofCipher cipher := by
  have size : ¬algorithm.blockSize ≠ Gcm.blockSize := not_not_intro wide
  rw [Gcm.ofKey, if_neg size]
  exact Attempt.bind_value _ _ cipher accepted

end Keying

theorem of_cipher_awaits (function : Block 16 → Block 16) (cipher : C)
    (steady : Enciphers function cipher) :
    ∃ fresh, ofCipher cipher = .ok fresh ∧ Awaits function none fresh := by
  obtain ⟨after, kept, answer⟩ := steady.call function cipher (Bytes.zeros 16) List.length_replicate
  have asked : BlockCipher.encryptBlock cipher (Bytes.zeros Gcm.blockSize) Gcm.blockSize =
      (.ok (function (Block.ofFront 16 (Bytes.zeros 16))), after) := answer
  rw [ofCipher, asked]
  exact ⟨_, rfl, kept, rfl, rfl⟩

/-- A tag is given exactly for a length in range and a message under way, and it is the tag of
enciphering no text under the vector and data of that message, whatever else the enciphering
context was used for. A refused call leaves the context as it was, and what was called before a
vector was set is forgotten. -/
theorem tags_as_sealing_nothing {Engine : Type} [BlockCipher Engine]
    (algorithm : CipherAlgorithm Engine) (key : Bytes) (cipher : KeyedCipher Engine)
    (function : Block 16 → Block 16) (wide : algorithm.blockSize = 16)
    (accepted : (algorithm.withKey key).run.value = .ok cipher)
    (steady : Enciphers function cipher) :
    ∃ fresh sealer, (ofKey algorithm key).run.value = .ok fresh ∧
      (Gcm.ofKey algorithm key).run.value = .ok sealer ∧ ∀ calls,
        let history := (CallRun.run serve fresh calls).1
        let context := (CallRun.run serve fresh calls).2
        (∀ size, (∃ tag, (context.finish size).1 = .ok tag) ↔
          4 ≤ size ∧ size ≤ 16 ∧ ∃ iv data, message? history = some (iv, data)) ∧
        (∀ size iv data tag, message? history = some (iv, data) →
          (context.finish size).1 = .ok tag → ∀ uses buffer,
            ((sealer.serveAll uses).encrypt iv data [] buffer size).tag = .ok tag) ∧
        (∀ call cause, (context.serve call).1 = .refused cause →
          cause = .invalidParameter ∧ (context.serve call).2 = context) ∧
        (∀ iv, (context.serve (.reset iv)).1 = .done ↔ iv ≠ []) ∧
        (∀ others iv later, iv ≠ [] →
          (CallRun.run serve context (.reset iv :: later)).1 =
            (CallRun.run serve (CallRun.run serve fresh others).2 (.reset iv :: later)).1) := by
  obtain ⟨fresh, made, awaits⟩ := of_cipher_awaits function cipher steady
  obtain ⟨sealer, sealerMade, sealerKeyed⟩ := Gcm.of_cipher_over function cipher steady
  refine ⟨fresh, sealer, (of_key_value algorithm key cipher wide accepted).trans made,
    (sealer_of_key_value algorithm key cipher wide accepted).trans sealerMade, ?_⟩
  intro calls history context
  have here : Awaits function (message? history) context := run_awaits function fresh awaits calls
  have answer : ∀ size tag, (context.finish size).1 = .ok tag ↔
      ∃ iv data, message? history = some (iv, data) ∧ (4 ≤ size ∧ size ≤ 16) ∧
        Gcm.Standard.cipherTag function iv data [] size = tag := by
    intro size tag
    rw [← expected_tag_iff, ← (serve_exact function _ context here (.finish size)).1]
    exact (MacAnswer.of_tag_tag_iff _ tag).symm
  refine ⟨?tagged, ?same, ?refused, ?vector, ?forgotten⟩
  case tagged =>
    intro size
    simp only [answer]
    constructor
    · rintro ⟨tag, iv, data, under, inside, _⟩
      exact ⟨inside.1, inside.2, iv, data, under⟩
    · rintro ⟨least, most, iv, data, under⟩
      exact ⟨_, iv, data, under, ⟨least, most⟩, rfl⟩
  case same =>
    intro size iv data tag under given uses buffer
    obtain ⟨_, _, stands, inside, rfl⟩ := (answer size tag).mp given
    cases under.symm.trans stands
    rw [under] at here
    exact sealing_nothing function _ (Gcm.serve_all_over function sealer sealerKeyed uses) iv data
      buffer size here.2.2.given inside
  case refused => exact serve_refused function _ context here
  case vector =>
    intro iv
    rw [(serve_exact function _ context here (.reset iv)).1, expected]
    by_cases empty : iv = [] <;> simp [empty]
  case forgotten =>
    intro others iv later given
    have started : ∀ message (context : Gmac (KeyedCipher Engine)),
        Awaits function message context →
        (context.serve (.reset iv)).1 = .done ∧
          Awaits function (some (iv, [])) (context.serve (.reset iv)).2 := by
      intro message context awaits
      obtain ⟨done, next⟩ := serve_exact function message context awaits (.reset iv)
      have done : (context.serve (.reset iv)).1 = .done := by rw [done, expected, if_neg given]
      rw [done] at next
      exact ⟨done, next⟩
    obtain ⟨left, leftNext⟩ := started _ context here
    obtain ⟨right, rightNext⟩ := started _ _ (run_awaits function fresh awaits others)
    rw [CallRun.run, CallRun.run, left, right, later_alike function _ _ leftNext _ rightNext later]

-- Takes any key and adds one byte to all bytes of a block.
def maskingAlgorithm : CipherAlgorithm (BlockFunction 16) :=
  { name := "MASKING", oid := [], blockSize := 16, keySizes := .range 0 64 1,
    flags := CipherFlags.none, expand := fun _ => .ok (.engine Gcm.masking) }

theorem two_pieces_tagged_as_one :
    ∃ fresh sealer, (ofKey maskingAlgorithm [1]).run.value = .ok fresh ∧
      (Gcm.ofKey maskingAlgorithm [1]).run.value = .ok sealer ∧
      let context := (CallRun.run serve fresh
        [.absorb [9], .reset [1], .absorb [2], .finish 3, .absorb [3, 4]]).2
      ∃ tag, (context.finish 4).1 = .ok tag ∧ (sealer.encrypt [1] [2, 3, 4] [] [] 4).tag =
        .ok tag := by
  obtain ⟨fresh, sealer, made, sealerMade, law⟩ := tags_as_sealing_nothing maskingAlgorithm [1]
    (.engine Gcm.masking) Gcm.masking.apply rfl rfl
    (Gcm.masking.enciphers.engine _ _)
  obtain ⟨given, same, _⟩ := law [.absorb [9], .reset [1], .absorb [2], .finish 3, .absorb [3, 4]]
  have under : message? (CallRun.run serve fresh
      [.absorb [9], .reset [1], .absorb [2], .finish 3, .absorb [3, 4]]).1 =
        some ([1], [2, 3, 4]) := by
    cases made
    decide +kernel
  obtain ⟨tag, tagged⟩ := (given 4).mpr ⟨by decide, by decide, _, _, under⟩
  exact ⟨fresh, sealer, made, sealerMade, tag, tagged, same 4 _ _ tag under tagged [] []⟩

end SymmetricKey.Gmac
