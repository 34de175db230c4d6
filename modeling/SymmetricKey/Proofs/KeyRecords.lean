import SymmetricKey.Authentication.Cmac
import SymmetricKey.Authentication.Gmac
import SymmetricKey.Confidentiality.Xts
import SymmetricKey.Derivation.Scrypt
import SymmetricKey.Proofs.BuiltInCiphers
import SymmetricKey.Proofs.GcmCalls
import SymmetricKey.Proofs.XcbcStandard

/-!
The records of calls that log anything: those that make something from a key,
memory for a derived key, and a tag that is wrong. What is logged is read off
the algorithm and the length of the key, or off the parameters, except for the
one record of a wrong tag.
-/

namespace SymmetricKey

namespace Attempt

variable {α β : Type}

theorem of_except_records (outcome : Except Error α) : (ofExcept outcome).run.records = [] := rfl

theorem bind_records (step : Attempt α) (next : α → Attempt β) (given : α)
    (made : step.run.value = .ok given) :
    (step >>= next).run.records = step.run.records ++ (next given).run.records := by
  change step.run.records ++ (ExceptT.bindCont next step.run.value).records = _
  rw [made]
  rfl

theorem refused_records (step : Attempt α) (next : α → Attempt β) (cause : Error)
    (refused : step.run.value = .error cause) :
    (step >>= next).run.records = step.run.records := by
  change step.run.records ++ (ExceptT.bindCont next step.run.value).records = _
  rw [refused]
  exact List.append_nil _

theorem quiet_records (step : Attempt α) (next : α → Attempt β)
    (quiet : ∀ given, (next given).run.records = []) :
    (step >>= next).run.records = step.run.records := by
  cases first : step.run.value with
  | error cause => exact refused_records step next cause first
  | ok given => rw [bind_records step next given first, quiet, List.append_nil]

end Attempt

namespace CipherAlgorithm

variable {Engine : Type} (algorithm : CipherAlgorithm Engine)

def keyRecords (length : Nat) : List LogRecord :=
  if algorithm.keySizes.contains length then
    [{ level := .debug
       text :=
         algorithm.name ++ " context initialized (" ++ (toString (length * 8) ++ "-bit key") ++
           ")" }]
  else []

theorem with_key_records (key : Bytes) :
    (algorithm.withKey key).run.records = algorithm.keyRecords key.length := by
  rw [withKey, keyRecords]
  split
  · rfl
  · rfl

theorem with_key_refused (key : Bytes) (unlisted : ¬algorithm.keySizes.contains key.length = true) :
    (algorithm.withKey key).run.value = .error .invalidKeyLength := by
  rw [withKey, if_neg unlisted]
  rfl

theorem with_key_accepted [BlockCipher Engine] (known : algorithm ∈ builtIn) (key : Bytes)
    (listed : algorithm.keySizes.contains key.length = true) :
    ∃ cipher, (algorithm.withKey key).run.value = .ok cipher ∧
      BlockCipher.blockSize cipher = algorithm.blockSize := by
  rw [algorithm.with_key_value key listed]
  exact algorithm.expand_made known key listed

theorem checked_key_records {Made : Type} (outside : Prop) [Decidable outside] (cause : Error)
    (key : Bytes) (next : KeyedCipher Engine → Attempt Made)
    (quiet : ∀ cipher, (next cipher).run.records = []) :
    (do
      if outside then throw cause
      let cipher ← algorithm.withKey key
      next cipher : Attempt Made).run.records =
        if outside then [] else algorithm.keyRecords key.length := by
  by_cases refused : outside
  · rw [if_pos refused, if_pos refused]
    rfl
  · rw [if_neg refused, if_neg refused]
    exact (Attempt.quiet_records _ _ quiet).trans (algorithm.with_key_records key)

-- Where the first cipher is made, another key of the same length follows.
theorem with_key_twice [BlockCipher Engine] (known : algorithm ∈ builtIn) {Made : Type}
    (length : Nat) (key : Bytes) (exact : key.length = length)
    (next : KeyedCipher Engine → Attempt Made)
    (again : ∀ cipher, BlockCipher.blockSize cipher = algorithm.blockSize →
      (next cipher).run.records = algorithm.keyRecords length) :
    (algorithm.withKey key >>= next).run.records =
      algorithm.keyRecords length ++ algorithm.keyRecords length := by
  have first : (algorithm.withKey key).run.records = algorithm.keyRecords length := by
    rw [with_key_records, exact]
  -- A key of this length is always taken or never, so the second one fares as the first.
  by_cases listed : algorithm.keySizes.contains key.length = true
  · obtain ⟨cipher, made, sized⟩ := algorithm.with_key_accepted known key listed
    rw [Attempt.bind_records _ _ cipher made, first, again cipher sized]
  · have nothing : algorithm.keyRecords length = [] := by rw [keyRecords, ← exact, if_neg listed]
    rw [Attempt.refused_records _ _ _ (algorithm.with_key_refused key listed), first, nothing]
    rfl

end CipherAlgorithm

section Built
variable {Engine : Type} [BlockCipher Engine] (algorithm : CipherAlgorithm Engine)

def Xts.keyRecords (length : Nat) : List LogRecord :=
  if algorithm.blockSize ≠ Xts.blockSize ∨ length = 0 ∨ length % 2 ≠ 0 then []
  else algorithm.keyRecords (length / 2) ++ algorithm.keyRecords (length / 2)

-- Both halves of a key have the same length.
theorem Xts.of_key_records (known : algorithm ∈ CipherAlgorithm.builtIn) (key : Bytes) :
    (Xts.ofKey algorithm key).run.records = Xts.keyRecords algorithm key.length := by
  rw [Xts.keyRecords, Xts.ofKey]
  by_cases narrow : algorithm.blockSize ≠ Xts.blockSize
  · rw [if_pos narrow, if_pos (Or.inl narrow)]
    rfl
  · rw [if_neg narrow]
    by_cases uneven : key.isEmpty = true ∨ key.length % 2 ≠ 0
    · have outside : algorithm.blockSize ≠ Xts.blockSize ∨ key.length = 0 ∨ key.length % 2 ≠ 0 := by
        rw [List.isEmpty_iff, ← List.length_eq_zero_iff] at uneven
        exact Or.inr uneven
      rw [if_pos outside]
      simp only [if_pos uneven]
      rfl
    · have inside :
          ¬(algorithm.blockSize ≠ Xts.blockSize ∨ key.length = 0 ∨ key.length % 2 ≠ 0) := by
        rw [List.isEmpty_iff, ← List.length_eq_zero_iff] at uneven
        rintro (wide | odd)
        · exact narrow wide
        · exact uneven odd
      have front : (key.take (key.length / 2)).length = key.length / 2 := by
        rw [List.length_take]
        omega
      have back : (key.drop (key.length / 2)).length = key.length / 2 := by
        rw [List.length_drop]
        omega
      rw [if_neg inside]
      simp only [if_neg uneven]
      apply algorithm.with_key_twice known _ _ front
      intro data _
      rw [Attempt.quiet_records _ _ fun _ => rfl, algorithm.with_key_records, back]

def Gcm.keyRecords (length : Nat) : List LogRecord :=
  if algorithm.blockSize ≠ Gcm.blockSize then [] else algorithm.keyRecords length

theorem Gcm.of_key_records (key : Bytes) :
    (Gcm.ofKey algorithm key).run.records = Gcm.keyRecords algorithm key.length :=
  algorithm.checked_key_records _ _ key _ fun _ => rfl

theorem Gmac.of_key_records (key : Bytes) :
    (Gmac.ofKey algorithm key).run.records = Gcm.keyRecords algorithm key.length :=
  algorithm.checked_key_records _ _ key _ fun _ => rfl

def Cmac.keyRecords (length : Nat) : List LogRecord :=
  if (Cmac.reduction? algorithm.blockSize).isNone then [] else algorithm.keyRecords length

theorem Cmac.of_key_records (key : Bytes) :
    (Cmac.ofKey algorithm key).run.records = Cmac.keyRecords algorithm key.length :=
  algorithm.checked_key_records _ _ key _ fun _ => rfl

end Built

def Xcbc.keyRecords {Engine : Type} (algorithm : CipherAlgorithm Engine) (length : Nat) :
    List LogRecord :=
  if algorithm.blockSize ≠ Xcbc.size ∨ length ≠ Xcbc.size then []
  else algorithm.keyRecords Xcbc.size ++ algorithm.keyRecords Xcbc.size

-- The derived key of the chain is as long as the key that it is derived from.
theorem Xcbc.of_key_records (algorithm : CipherAlgorithm Empty)
    (known : algorithm ∈ CipherAlgorithm.builtIn) (key : Bytes) :
    (Xcbc.ofKey algorithm key).run.records = Xcbc.keyRecords algorithm key.length := by
  rw [Xcbc.keyRecords, Xcbc.ofKey]
  by_cases narrow : algorithm.blockSize ≠ Xcbc.size
  · rw [if_pos narrow, if_pos (Or.inl narrow)]
    rfl
  · rw [if_neg narrow]
    by_cases other : key.length ≠ Xcbc.size
    · rw [if_pos (Or.inr other)]
      simp only [if_pos other]
      rfl
    · have inside : ¬(algorithm.blockSize ≠ Xcbc.size ∨ key.length ≠ Xcbc.size) := by
        rintro (wide | long)
        · exact narrow wide
        · exact other long
      rw [if_neg inside]
      simp only [if_neg other]
      apply algorithm.with_key_twice known _ _ (not_not.mp other)
      intro user sized
      obtain ⟨function, steady⟩ :=
        BuiltInCipher.enciphers_wide user (sized.trans (not_not.mp narrow))
      have chainKey := Block.on_bytes_length function (List.replicate 16 1)
      rw [Xcbc.subkeys_steady function user steady]
      refine (Attempt.bind_records _ _ _ rfl).trans ?_
      rw [Attempt.of_except_records, List.nil_append, Attempt.quiet_records _ _ fun _ => rfl,
        algorithm.with_key_records, chainKey]
      rfl

theorem Cmac.compute_records {Engine : Type} [BlockCipher Engine]
    (algorithm : CipherAlgorithm Engine) (key data : Bytes) (size : Nat) :
    (Cmac.compute algorithm key data size).run.records = Cmac.keyRecords algorithm key.length := by
  rw [Cmac.compute, Attempt.quiet_records]
  · exact Cmac.of_key_records algorithm key
  · intro context
    cases context.absorb data with
    | mk refusal after => cases refusal <;> rfl

theorem Xcbc.compute_records (algorithm : CipherAlgorithm Empty)
    (known : algorithm ∈ CipherAlgorithm.builtIn) (key data : Bytes) (length : Nat) :
    (Xcbc.compute algorithm key data length).run.records =
      Xcbc.keyRecords algorithm key.length := by
  rw [Xcbc.compute, Attempt.quiet_records]
  · exact Xcbc.of_key_records algorithm known key
  · intro context
    cases context.absorb data with
    | mk refusal after => cases refusal <;> rfl

theorem Gmac.compute_records {Engine : Type} [BlockCipher Engine]
    (algorithm : CipherAlgorithm Engine) (key iv data : Bytes) (size : Nat) :
    (Gmac.compute algorithm key iv data size).run.records =
      Gcm.keyRecords algorithm key.length := by
  rw [Gmac.compute, Attempt.quiet_records]
  · exact Gmac.of_key_records algorithm key
  · intro context
    exact Attempt.quiet_records _ _ fun _ => rfl

def StreamAlgorithm.keyRecords (algorithm : StreamAlgorithm) (keyLength ivLength : Nat) :
    List LogRecord :=
  if algorithm.keySizes.contains keyLength ∧ algorithm.ivSizes.contains ivLength then
    [{ level := .debug
       text :=
         algorithm.name ++ " keystream initialized (" ++ (toString (keyLength * 8) ++ "-bit key") ++
         ")" }]
  else []

theorem StreamAlgorithm.with_key_records (algorithm : StreamAlgorithm) (key iv : Bytes) :
    (algorithm.withKey key iv).run.records = algorithm.keyRecords key.length iv.length := by
  rw [keyRecords, withKey]
  cases keyed : algorithm.keySizes.contains key.length with
  | false => rfl
  | true =>
      cases started : algorithm.ivSizes.contains iv.length with
      | false => rfl
      | true => rfl

def Derivation.scryptRecords (cost : UInt64) (width lanes : UInt32) : List LogRecord :=
  match Scrypt.checkParameters cost width lanes with
  | .error _ => []
  | .ok () => [{ level := .debug, text := Scrypt.reservationText cost width lanes }]

theorem Derivation.scrypt_records (allocator : Scrypt.Allocator) (password salt : Bytes)
    (cost : UInt64) (width lanes : UInt32) (size : Nat) :
    (scryptWith allocator password salt cost width lanes size).run.records =
      scryptRecords cost width lanes := by
  rw [scryptWith, scryptRecords]
  cases checked : Scrypt.checkParameters cost width lanes with
  | error cause => rfl
  | ok accepted =>
      refine (Attempt.bind_records _ _ () rfl).trans ?_
      refine Attempt.quiet_records _ _ fun _ => ?_
      refine Attempt.quiet_records _ _ fun _ => ?_
      exact Attempt.quiet_records _ _ fun _ => rfl

theorem SegmentStep.run_never {C : Type} (step : SegmentStep C) (cause : Error)
    (never : ∀ cipher register segment, (step cipher register segment).1 ≠ .error cause)
    (cipher : C) (register : Bytes) (segments : List Bytes) :
    (step.run cipher register segments).refusal ≠ some cause := by
  induction segments generalizing cipher register with
  | nil => simp [run]
  | cons segment rest ih =>
      have here := never cipher register segment
      rw [run]
      cases answered : step cipher register segment with
      | mk answer after =>
          rw [answered] at here
          cases answer with
          | error other => exact fun same => here (congrArg _ (Option.some.inj same))
          | ok result => exact ih after result.2

theorem BuiltInCipher.crypt_block_never (direction : Direction) (cipher : BuiltInCipher)
    (input : Bytes) (room : Nat) :
    (BlockCipher.cryptBlock direction cipher input room).1 ≠ .error .authenticationFailed := by
  intro refused
  cases crypt_block_cause direction cipher input room _ refused

theorem Ctr.encrypt_never (cipher : BuiltInCipher) (bits : Nat) (counter input : Bytes)
    (room : Nat) :
    (encrypt cipher bits counter input room).refusal ≠ some .authenticationFailed := by
  have never : ∀ (cipher : BuiltInCipher) (register segment : Bytes),
      (step (bits / 8) cipher register segment).1 ≠ .error .authenticationFailed := by
    intro cipher register segment
    have block := cipher.crypt_block_never .encrypt register register.length
    rw [step, BlockCipher.encryptBlock]
    cases answered : BlockCipher.cryptBlock .encrypt cipher register register.length with
    | mk answer after =>
        rw [answered] at block
        cases answer with
        | error cause => exact fun same => block (congrArg _ (Except.error.inj same))
        | ok key => simp
  rw [encrypt]
  split
  · next cause refused =>
      rw [checkRegister] at refused
      split_ifs at refused <;> cases refused <;> simp [Progress.refused]
  · split
    · simp [Progress.refused]
    · exact SegmentStep.run_never _ _ never _ _ _

namespace Gcm

def mismatch : LogRecord := { level := .debug, text := "GCM tag mismatch" }

theorem tag_never (context : Gcm BuiltInCipher) (start aad text : Bytes) (size : Nat) :
    (context.tag start aad text size).1 ≠ .error .authenticationFailed := by
  have block := context.cipher.crypt_block_never .encrypt start blockSize
  rw [tag, BlockCipher.encryptBlock]
  cases answered : BlockCipher.cryptBlock .encrypt context.cipher start blockSize with
  | mk answer after =>
      rw [answered] at block
      cases answer with
      | error cause => exact fun same => block (congrArg _ (Except.error.inj same))
      | ok mask => simp

-- Only a wrong tag is answered as one.
theorem decrypt_records (context : Gcm BuiltInCipher) (iv aad input buffer tag : Bytes) :
    (context.decrypt iv aad input buffer tag).records =
      if (context.decrypt iv aad input buffer tag).value.refusal =
        some .authenticationFailed then [mismatch]
      else [] := by
  rw [decrypt]
  cases checked : check iv tag.length input.length buffer.length with
  | error cause =>
      rcases check_cause _ _ _ _ cause checked with rfl | rfl <;> rfl
  | ok accepted =>
      have block := context.tag_never (Ghash.startBlock context.key iv) aad input tag.length
      simp only
      cases computed : context.tag (Ghash.startBlock context.key iv) aad input tag.length with
      | mk outcome after =>
          rw [computed] at block
          cases outcome with
          | error cause =>
              have other : ¬some cause = some Error.authenticationFailed := fun same =>
                block (congrArg _ (Option.some.inj same))
              exact (if_neg other).symm
          | ok expected =>
              by_cases right : expected.agree tag = true
              · have text := Ctr.encrypt_never after.cipher 32
                  (Ctr.increment 4 (Ghash.startBlock context.key iv)) input input.length
                simp only [if_pos right]
                exact (if_neg text).symm
              · simp only [if_neg right]
                rfl

end Gcm

end SymmetricKey
