import SymmetricKey.Authentication.Gmac
import SymmetricKey.Proofs.BufferedHash
import SymmetricKey.Proofs.GcmBuffers

/-!
Authenticated encryption, and tags of data alone, in a machine's buffers. The
hash cannot fail, so a call stops at a refusal of the cipher or not at all.
Whatever the cipher does, a call comes to its end; with a plain cipher it is
that of the library.
-/

namespace SymmetricKey

namespace Gcm

section Calls
variable {C : Type} [ForeignCipher C]

def bufferedKeyed (cipher : C) : Checked (Except Error (Gcm C)) := do
  let written ← ForeignCipher.cryptFront .encrypt cipher (Bytes.zeros 16) (Bytes.zeros 16) 16
  match written.refusal with
  | some cause => .ok (.error cause)
  | none => .ok (.ok { cipher := written.after, key := GhashKey.ofBlock written.output })

def bufferedOfCipher (cipher : C) : Checked (Except Error (Gcm C)) :=
  if ForeignCipher.blockSize cipher ≠ blockSize then .ok (.error .invalidParameter)
  else bufferedKeyed cipher

/-- A hash under the mask of a message, cut to the length of the caller's tag. -/
def bufferedMask (cipher : C) (start hashed tag : Bytes) : Checked (Written C) := do
  let written ← ForeignCipher.cryptFront .encrypt cipher start (Bytes.zeros 16) 16
  if written.refusal.isSome then .ok { written with output := tag }
  else
    let front ← Checked.slice (hashed.mask written.output) 0 tag.length
    let tag ← Checked.copyInto tag 0 tag.length front
    .ok { written with output := tag }

def bufferedTag (context : Gcm C) (start aad text tag : Bytes) : Checked (Written C) := do
  let hash ← HashBuffer.absorb context.key HashBuffer.empty aad
  let hash ← HashBuffer.pad context.key hash
  let hash ← HashBuffer.absorb context.key hash text
  let hash ← HashBuffer.close context.key hash (UInt64.ofNat aad.length) (UInt64.ofNat text.length)
  bufferedMask context.cipher start (BigEndian.bytes128 hash.sum) tag

def bufferedText (cipher : C) (start input output : Bytes) : Checked (Leftover C) :=
  Ctr.buffered cipher 32 (Ctr.increment 4 start) input output

def bufferedEncrypt (context : Gcm C) (iv aad input output tag : Bytes) : Checked (Sealed C) :=
  match check iv tag.length input.length output.length with
  | .error cause => .ok { refusal := some cause, output, tag, context }
  | .ok () => do
      let front ← Checked.slice output 0 input.length
      let start ← HashBuffer.startBlock context.key iv
      let done ← bufferedText context.cipher start input front
      let output := Checked.spliced output 0 input.length done.output
      let after := { context with cipher := done.cipher }
      if done.refusal.isSome then .ok { refusal := done.refusal, output, tag, context := after }
      else
        let written ← bufferedTag after start aad done.output tag
        .ok { refusal := written.refusal, output, tag := written.output
              context := { after with cipher := written.after } }

/-- The expected tag has a buffer as long as the longest tag. -/
def bufferedDecrypt (context : Gcm C) (iv aad input output tag : Bytes) : Checked (Opening C) :=
  match check iv tag.length input.length output.length with
  | .error cause => .ok { refusal := some cause, output, context }
  | .ok () => do
      let front ← Checked.slice output 0 input.length
      let start ← HashBuffer.startBlock context.key iv
      let room ← Checked.slice (Bytes.zeros maxTagSize) 0 tag.length
      let written ← bufferedTag context start aad input room
      let after := { context with cipher := written.after }
      if written.refusal.isSome then .ok { refusal := written.refusal, output, context := after }
      else
        let expected ← Checked.slice
          (Checked.spliced (Bytes.zeros maxTagSize) 0 tag.length written.output) 0 tag.length
        if expected.agree tag then
          let done ← bufferedText after.cipher start input front
          .ok { refusal := done.refusal, output := Checked.spliced output 0 input.length done.output
                context := { after with cipher := done.cipher } }
        else
          .ok { refusal := some .authenticationFailed
                output := Checked.spliced output 0 input.length front.cleared, context := after }

end Calls

section Keys
variable {Engine : Type} [ForeignCipher Engine]

def bufferedOfKey (algorithm : CipherAlgorithm Engine) (key : Bytes) :
    Checked (Except Error (Gcm (KeyedCipher Engine))) :=
  if algorithm.blockSize ≠ blockSize then .ok (.error .invalidParameter)
  else (algorithm.checkedWithKey key).andThen bufferedOfCipher

end Keys

def keyed {C : Type} [BlockCipher C] (cipher : C) : Except Error (Gcm C) :=
  match BlockCipher.encryptBlock cipher (Bytes.zeros blockSize) blockSize with
  | (.error cause, _) => .error cause
  | (.ok block, after) => .ok { cipher := after, key := GhashKey.ofBlock block.toList }

section Runs
variable {C : Type} [ForeignCipher C] [BlockCipher C]

theorem buffered_keyed_makes (cipher : C) :
    Checked.Makes (fun _ => True) (Plain C) Eq (bufferedKeyed cipher) (keyed cipher) := by
  obtain ⟨written, ran, _, _, answer⟩ :=
    ForeignCipher.crypt_front_runs .encrypt cipher (Bytes.zeros 16)
      (Bytes.zeros 16) 16 (Nat.le_refl 16)
  rw [bufferedKeyed, ran, Checked.ok_bind]
  cases refused : written.refusal with
  | some cause =>
      apply Checked.makes_refused
      intro plain
      obtain ⟨other, after, answered, rfl⟩ := Written.answer_refused _ _ _ (answer plain)
        (Option.isSome_of_eq_some refused)
      cases refused
      have asked : BlockCipher.encryptBlock cipher (Bytes.zeros blockSize) blockSize =
          (.error cause, after) := answered
      rw [keyed, asked]
  | none =>
      refine ⟨_, rfl, fun _ _ => trivial, ?_⟩
      intro plain
      obtain ⟨block, after, answered, rfl⟩ := Written.answer_whole _ rfl _ _ (answer plain)
        (Option.not_isSome_iff_eq_none.mpr refused)
      have asked : BlockCipher.encryptBlock cipher (Bytes.zeros blockSize) blockSize =
          (.ok block, after) := answered
      rw [keyed, asked]
      rfl

theorem buffered_of_cipher_makes (cipher : C) :
    Checked.Makes (fun _ => True) (Plain C) Eq (bufferedOfCipher cipher) (ofCipher cipher) := by
  rw [bufferedOfCipher, ofCipher]
  by_cases narrow : ForeignCipher.blockSize cipher ≠ blockSize
  · rw [if_pos narrow]
    apply Checked.makes_refused
    intro plain
    rw [plain.size] at narrow
    rw [if_pos narrow]
  · obtain ⟨made, ran, kept, same⟩ := buffered_keyed_makes cipher
    rw [if_neg narrow]
    refine ⟨made, ran, kept, ?_⟩
    intro plain
    rw [plain.size] at narrow
    rw [if_neg narrow]
    exact same plain

theorem buffered_mask_runs (cipher : C) (start hashed tag : Bytes) (wide : hashed.length = 16)
    (fits : tag.length ≤ 16) :
    ∃ written, bufferedMask cipher start hashed tag = .ok written ∧
      written.output.length = tag.length ∧ (written.refusal.isSome → written.output = tag) ∧
      (Plain C →
        (match BlockCipher.encryptBlock cipher start blockSize with
        | (.error cause, after) => (.error cause, after)
        | (.ok mask, after) => (.ok ((hashed.xor mask.toList).take tag.length), after)) =
          (written.outcome, written.after)) := by
  obtain ⟨written, ran, wider, _, answer⟩ := ForeignCipher.crypt_front_runs .encrypt cipher start
    (Bytes.zeros 16) 16 (Nat.le_refl 16)
  rw [bufferedMask, ran, Checked.ok_bind]
  by_cases refused : written.refusal.isSome
  · rw [if_pos refused]
    refine ⟨_, rfl, rfl, fun _ => rfl, ?_⟩
    intro plain
    obtain ⟨cause, after, answered, rfl⟩ := Written.answer_refused _ _ _ (answer plain) refused
    have asked : BlockCipher.encryptBlock cipher start blockSize = (.error cause, after) := answered
    rw [asked]
    rfl
  · have room : (hashed.mask written.output).length = 16 := (Bytes.mask_length _ _).trans wide
    have front : ((hashed.mask written.output).take tag.length).length = tag.length :=
      List.length_take_of_le (by omega)
    rw [if_neg refused, Checked.slice_front _ _ (by omega), Checked.ok_bind,
      Checked.copy_into_whole _ _ front, Checked.ok_bind]
    refine ⟨_, rfl, front, fun stopped => absurd stopped refused, ?_⟩
    intro plain
    obtain ⟨mask, after, answered, rfl⟩ := Written.answer_whole _ rfl _ _ (answer plain) refused
    have asked : BlockCipher.encryptBlock cipher start blockSize = (.ok mask, after) := answered
    have covered := Bytes.mask_exact hashed mask.toList
      (Nat.le_of_eq (wide.trans mask.length_toList.symm))
    rw [asked]
    simp only [Written.outcome, covered]
    rfl

theorem buffered_tag_runs (context : Gcm C) (start aad text tag : Bytes) (fits : tag.length ≤ 16) :
    ∃ written, bufferedTag context start aad text tag = .ok written ∧
      written.output.length = tag.length ∧ (written.refusal.isSome → written.output = tag) ∧
      (Plain C → context.tag start aad text tag.length =
        (written.outcome, { context with cipher := written.after })) := by
  obtain ⟨first, absorbed, sound, same⟩ :=
    HashBuffer.absorb_exact context.key HashBuffer.empty aad HashBuffer.empty_sound
  obtain ⟨padded, filled, sound, padding⟩ := HashBuffer.pad_exact context.key first sound
  obtain ⟨second, further, sound, more⟩ := HashBuffer.absorb_exact context.key padded text sound
  obtain ⟨closed, ended, _, closing⟩ := HashBuffer.close_exact context.key second
    (UInt64.ofNat aad.length) (UInt64.ofNat text.length) sound
  have hashed : BigEndian.bytes128 closed.sum = textHash context.key aad text := by
    rw [textHash, Ghash.value, ← show HashBuffer.empty.view = Ghash.empty from rfl, ← same,
      ← padding, ← more, ← closing, HashBuffer.view]
  obtain ⟨written, ran, even, spared, answer⟩ := buffered_mask_runs context.cipher start
    (BigEndian.bytes128 closed.sum) tag rfl fits
  rw [bufferedTag, absorbed, Checked.ok_bind, filled, Checked.ok_bind, further, Checked.ok_bind,
    ended, Checked.ok_bind]
  refine ⟨written, ran, even, spared, ?_⟩
  intro plain
  have given := answer plain
  rw [hashed] at given
  rw [Gcm.tag]
  rcases answered :
    BlockCipher.encryptBlock context.cipher start blockSize with ⟨cause | mask, after⟩
  all_goals
    rw [answered] at given
    obtain ⟨outcome, state⟩ := Prod.mk.inj given
    rw [← outcome, ← state]

omit [ForeignCipher C] [BlockCipher C] in
-- Text that is laid over the range that a call was given is laid over the caller's output.
theorem text_in_place (progress : Progress C) (output : Bytes) (size : Nat)
    (fits : size ≤ output.length) (short : progress.produced.length ≤ size) :
    Checked.spliced output 0 size (progress.output (output.take size)) = progress.output output :=
  Bytes.overlay_front output progress.produced size fits short

theorem buffered_encrypt_runs (context : Gcm C) (iv aad input output tag : Bytes) :
    ∃ left, bufferedEncrypt context iv aad input output tag = .ok left ∧
      (Plain C → left = context.encryptInto iv aad input output tag) := by
  cases checked : check iv tag.length input.length output.length with
  | error cause =>
      rw [bufferedEncrypt, checked]
      exact ⟨_, rfl, fun _ => (encrypt_refused context iv aad input output tag cause checked).symm⟩
  | ok accepted =>
      cases accepted
      obtain ⟨⟨_, _, most⟩, text⟩ := (check_ok_iff _ _ _ _).mp checked
      have fits := ((check_text_ok_iff _ _).mp text).2
      have room : (output.take input.length).length = input.length := List.length_take_of_le fits
      have bound := conceal_bound context iv input
      obtain ⟨done, ran, shows⟩ := Ctr.buffered_runs context.cipher 32
        (Ctr.increment 4 (Ghash.startBlock context.key iv)) input (output.take input.length)
      rw [room] at shows
      rw [bufferedEncrypt, checked]
      simp only [Checked.slice_front _ _ fits, Checked.ok_bind, HashBuffer.start_block_exact,
        bufferedText, ran]
      -- What was enciphered before a refusal stays in the buffer of the text.
      by_cases refused : done.refusal.isSome
      · rw [if_pos refused]
        refine ⟨_, rfl, ?_⟩
        intro plain
        obtain ⟨rfl, _⟩ := shows plain
        obtain ⟨cause, failed⟩ := Option.isSome_iff_exists.mp refused
        rw [encrypt_stopped context iv aad input output tag cause checked failed,
          ← text_in_place _ output input.length fits bound, ← failed]
        rfl
      · obtain ⟨written, tagged, even, spared, answer⟩ := buffered_tag_runs
          { context with cipher := done.cipher } (Ghash.startBlock context.key iv) aad done.output
            tag most
        rw [if_neg refused, tagged, Checked.ok_bind]
        refine ⟨_, rfl, ?_⟩
        intro plain
        have given := answer plain
        obtain ⟨rfl, whole⟩ := shows plain
        have concealed := Option.not_isSome_iff_eq_none.mp refused
        have text := whole concealed
        have produced : (context.conceal iv input).output (output.take input.length) =
            (context.conceal iv input).produced := Bytes.overlay_whole _ _ (text.trans room.symm)
        have laid := text_in_place _ output input.length fits bound
        have asked : (context.afterText iv input).tag (Ghash.startBlock context.key iv) aad
            (context.conceal iv input).produced tag.length =
              (written.outcome, { context with cipher := written.after }) := by
          rw [← produced]
          exact given
        by_cases stopped : written.refusal.isSome
        · obtain ⟨cause, because, answered⟩ := Written.outcome_refused asked stopped
          rw [encrypt_untagged context iv aad input output tag cause _ checked concealed answered,
            ← laid, spared stopped, because]
          rfl
        · obtain ⟨none, answered⟩ := Written.outcome_given asked stopped
          rw [encrypt_sealed context iv aad input output tag _ _ checked concealed answered, ← laid,
            none]
          rfl

theorem buffered_decrypt_runs (context : Gcm C) (iv aad input output tag : Bytes) :
    ∃ left, bufferedDecrypt context iv aad input output tag = .ok left ∧
      (Plain C → left = (context.decrypt iv aad input output tag).value) := by
  cases checked : check iv tag.length input.length output.length with
  | error cause =>
      rw [bufferedDecrypt, checked]
      exact ⟨_, rfl, fun _ => (decrypt_refused context iv aad input output tag cause checked).symm⟩
  | ok accepted =>
      cases accepted
      obtain ⟨⟨_, _, most⟩, text⟩ := (check_ok_iff _ _ _ _).mp checked
      have fits := ((check_text_ok_iff _ _).mp text).2
      have room : (output.take input.length).length = input.length := List.length_take_of_le fits
      have inside : tag.length ≤ (Bytes.zeros maxTagSize).length := most
      have width : ((Bytes.zeros maxTagSize).take tag.length).length = tag.length :=
        List.length_take_of_le inside
      obtain ⟨written, tagged, even, _, answer⟩ := buffered_tag_runs context
        (Ghash.startBlock context.key iv) aad input ((Bytes.zeros maxTagSize).take tag.length)
        (by omega)
      rw [width] at even answer
      rw [bufferedDecrypt, checked]
      simp only [Checked.slice_front _ _ fits, Checked.ok_bind, HashBuffer.start_block_exact,
        Checked.slice_front _ _ inside, tagged]
      -- Only behind a computed tag is the text written or wiped.
      by_cases stopped : written.refusal.isSome
      · rw [if_pos stopped]
        refine ⟨_, rfl, ?_⟩
        intro plain
        obtain ⟨cause, because, answered⟩ := Written.outcome_refused (answer plain) stopped
        rw [decrypt_unverified context iv aad input output tag cause _ checked answered, because]
      · have spliced := Checked.spliced_length (Bytes.zeros maxTagSize) 0 tag.length written.output
          (Nat.zero_le _) inside even
        have front : (Checked.spliced (Bytes.zeros maxTagSize) 0 tag.length written.output).take
            tag.length = written.output := by
          rw [Checked.spliced_front, List.take_left' even]
        rw [if_neg stopped, Checked.slice_front _ _ (by omega), Checked.ok_bind, front]
        by_cases verdict : written.output.agree tag
        · obtain ⟨done, ran, shows⟩ := Ctr.buffered_runs written.after 32
            (Ctr.increment 4 (Ghash.startBlock context.key iv)) input (output.take input.length)
          rw [room] at shows
          rw [if_pos verdict, bufferedText, ran, Checked.ok_bind]
          refine ⟨_, rfl, ?_⟩
          intro plain
          obtain ⟨none, answered⟩ := Written.outcome_given (answer plain) stopped
          obtain ⟨rfl, _⟩ := shows plain
          rw [(Bytes.agree_iff _ _).mp verdict] at answered
          have bound := conceal_bound { context with cipher := written.after } iv input
          have laid := text_in_place _ output input.length fits bound
          rw [conceal] at laid
          rw [decrypt_verified context iv aad input output tag _ checked answered, ← laid]
          rfl
        · rw [if_neg verdict]
          refine ⟨_, rfl, ?_⟩
          intro plain
          obtain ⟨none, answered⟩ := Written.outcome_given (answer plain) stopped
          have different : written.output ≠ tag := fun same =>
            verdict ((Bytes.agree_iff _ _).mpr same)
          have cleared : Bytes.cleared (output.take input.length) = Bytes.zeros input.length := by
            rw [Bytes.cleared, List.map_const', room, Bytes.zeros]
          rw [decrypt_mismatch context iv aad input output tag _ _ checked answered different,
            wiped_exact _ _ fits, cleared]
          rfl

end Runs

theorem buffered_of_key_makes {Engine : Type} [ForeignCipher Engine] [BlockCipher Engine]
    (algorithm : CipherAlgorithm Engine) (key : Bytes) (counted : algorithm.Counts key) :
    Checked.Makes (fun _ => True) (Plain (KeyedCipher Engine)) Eq (bufferedOfKey algorithm key)
      (ofKey algorithm key).run.value := by
  rw [bufferedOfKey, ofKey]
  by_cases narrow : algorithm.blockSize ≠ blockSize
  · rw [if_pos narrow, if_pos narrow]
    exact Checked.makes_refusal _ _ _ _
  · rw [if_neg narrow, if_neg narrow]
    refine Checked.makes_further (algorithm.checked_with_key_makes _ key counted) ?_
    intro cipher _
    exact buffered_of_cipher_makes cipher

end Gcm

structure GmacBuffer (C : Type) where
  cipher : C
  key : GhashKey
  hash : HashBuffer
  start : Bytes
  length : UInt64
  started : Bool

namespace GmacBuffer

section Calls
variable {C : Type} [ForeignCipher C]

def ofGcm (context : Gcm C) : GmacBuffer C :=
  { cipher := context.cipher, key := context.key, hash := .empty, start := Bytes.zeros 16,
    length := 0, started := false }

-- A refusal leaves the context as it was.
def reset (context : GmacBuffer C) (iv : Bytes) : Checked (Option Error × GmacBuffer C) :=
  if iv.isEmpty then .ok (some .invalidParameter, context)
  else do
    let start ← HashBuffer.startBlock context.key iv
    .ok (none, { context with hash := .empty, start, length := 0, started := true })

def absorb (context : GmacBuffer C) (data : Bytes) : Checked (GmacBuffer C) := do
  let hash ← context.hash.absorb context.key data
  .ok { context with hash, length := context.length + UInt64.ofNat data.length }

def finish (context : GmacBuffer C) (tag : Bytes) : Checked (Written (GmacBuffer C)) :=
  match checkTagSize tag.length Gcm.minTagSize Gcm.maxTagSize with
  | .error cause => .ok { refusal := some cause, output := tag, after := context }
  | .ok () =>
      if context.started then do
        let hash ← context.hash.close context.key context.length 0
        let written ← Gcm.bufferedMask context.cipher context.start
          (BigEndian.bytes128 hash.sum) tag
        if written.refusal.isSome then
          .ok { written with after := { context with cipher := written.after, hash } }
        else
          .ok { written with after := { context with
            cipher := written.after, hash := .empty, start := Bytes.zeros 16, length := 0
            started := false } }
      else .ok { refusal := some .invalidParameter, output := tag, after := context }

def ofKey {Engine : Type} [ForeignCipher Engine] (algorithm : CipherAlgorithm Engine)
    (key : Bytes) :
    Checked (Except Error (GmacBuffer (KeyedCipher Engine))) :=
  if algorithm.blockSize ≠ Gcm.blockSize then .ok (.error .invalidParameter)
  else (algorithm.checkedWithKey key).andThen fun cipher =>
    (Gcm.bufferedKeyed cipher).andThen fun context => .ok (.ok (ofGcm context))

def compute {Engine : Type} [ForeignCipher Engine] (algorithm : CipherAlgorithm Engine)
    (key iv data tag : Bytes) : Checked (Written Unit) :=
  Checked.tagOnce (ofKey algorithm key) tag fun fresh => do
    let (refusal, started) ← fresh.reset iv
    if refusal.isSome then .ok { refusal, output := tag, after := () }
    else
      let absorbed ← started.absorb data
      let left ← absorbed.finish tag
      .ok { left with after := () }

end Calls

def view {C : Type} (context : GmacBuffer C) : Gmac C :=
  { cipher := context.cipher, key := context.key, hash := context.hash.view
    start := if context.started then some context.start else none, length := context.length }

theorem reset_runs {C : Type} [BlockCipher C] (context : GmacBuffer C) (iv : Bytes)
    (sound : context.hash.Sound) :
    ∃ left, reset context iv = .ok left ∧ left.2.hash.Sound ∧ (left.1.isSome → left.2 = context) ∧
      context.view.reset iv =
        match left.1 with
        | some cause => .error cause
        | none => .ok left.2.view := by
  rw [reset, Gmac.reset]
  by_cases none : iv.isEmpty
  · rw [if_pos none, if_pos none]
    exact ⟨_, rfl, sound, fun _ => rfl, rfl⟩
  · rw [if_neg none, if_neg none, HashBuffer.start_block_exact]
    exact ⟨_, rfl, HashBuffer.empty_sound, fun refused => absurd refused Bool.false_ne_true, rfl⟩

theorem absorb_runs {C : Type} [BlockCipher C] (context : GmacBuffer C) (data : Bytes)
    (sound : context.hash.Sound) :
    ∃ after, absorb context data = .ok after ∧ after.hash.Sound ∧
      after.view = context.view.absorb data := by
  obtain ⟨hash, ran, kept, same⟩ := HashBuffer.absorb_exact context.key context.hash data sound
  rw [absorb, ran, Checked.ok_bind]
  refine ⟨_, rfl, kept, ?_⟩
  rw [view, same]
  rfl

theorem finish_runs {C : Type} [ForeignCipher C] [BlockCipher C] (context : GmacBuffer C)
    (tag : Bytes) (sound : context.hash.Sound) :
    ∃ left, finish context tag = .ok left ∧ left.after.hash.Sound ∧
      (left.refusal.isSome → left.output = tag) ∧
      (Plain C → context.view.finish tag.length = (left.outcome, left.after.view)) := by
  rw [finish, Gmac.finish]
  by_cases inside : 4 ≤ tag.length ∧ tag.length ≤ 16
  · have right : checkTagSize tag.length Gcm.minTagSize Gcm.maxTagSize = .ok () :=
      check_tag_size_inside _ _ _ inside.1 inside.2
    rw [right]
    by_cases started : context.started = true
    · have start : context.view.start = some context.start := if_pos started
      obtain ⟨hash, ran, kept, same⟩ :=
        HashBuffer.close_exact context.key context.hash context.length 0 sound
      obtain ⟨written, masked, _, spared, answer⟩ := Gcm.buffered_mask_runs context.cipher
        context.start (BigEndian.bytes128 hash.sum) tag rfl inside.2
      have closed : context.view.hash.close context.view.key context.view.length 0 = hash.view :=
        same.symm
      simp only [start, if_pos started, ran, Checked.ok_bind, masked, closed]
      -- The hash is closed before the mask is asked for and stays so if that is refused.
      by_cases refused : written.refusal.isSome
      · rw [if_pos refused]
        refine ⟨_, rfl, kept, spared, ?_⟩
        intro plain
        obtain ⟨other, because, answered⟩ := Written.outcome_refused (answer plain) refused
        rcases asked : BlockCipher.encryptBlock context.cipher context.start Gcm.blockSize with
          ⟨cause | mask, state⟩
        · rw [asked] at answered
          cases answered
          have asked : BlockCipher.encryptBlock context.view.cipher context.start Gcm.blockSize =
            (.error other, written.after) := asked
          rw [asked]
          simp only [Written.outcome, because, view, if_pos started]
        · rw [asked] at answered
          cases answered
      · rw [if_neg refused]
        refine ⟨_, rfl, HashBuffer.empty_sound, spared, ?_⟩
        intro plain
        obtain ⟨none, answered⟩ := Written.outcome_given (answer plain) refused
        rcases asked : BlockCipher.encryptBlock context.cipher context.start Gcm.blockSize with
          ⟨cause | mask, state⟩
        · rw [asked] at answered
          cases answered
        · rw [asked] at answered
          obtain ⟨text, rfl⟩ := Prod.mk.inj answered
          have asked : BlockCipher.encryptBlock context.view.cipher context.start Gcm.blockSize =
            (.ok mask, written.after) := asked
          rw [asked]
          simp only [Written.outcome, none, ← text]
          rfl
    · have start : context.view.start = none := if_neg started
      simp only [start, if_neg started]
      exact ⟨_, rfl, sound, fun _ => rfl, fun _ => rfl⟩
  · have wrong : checkTagSize tag.length Gcm.minTagSize Gcm.maxTagSize = .error .invalidParameter :=
      check_tag_size_outside _ _ _ (by simp only [Gcm.minTagSize, Gcm.maxTagSize]; omega)
    rw [wrong]
    exact ⟨_, rfl, sound, fun _ => rfl, fun _ => rfl⟩

theorem of_cipher_map {C : Type} [BlockCipher C] (cipher : C) :
    Gmac.ofCipher cipher = (Gcm.keyed cipher).map fun context => (ofGcm context).view := by
  rw [Gmac.ofCipher, Gcm.keyed]
  rcases BlockCipher.encryptBlock cipher (Bytes.zeros Gcm.blockSize) Gcm.blockSize with
    ⟨cause | block, after⟩ <;> rfl

section Keys
variable {Engine : Type} [ForeignCipher Engine] [BlockCipher Engine]
  (algorithm : CipherAlgorithm Engine) (key : Bytes) (counted : algorithm.Counts key)
include counted

theorem of_key_makes :
    Checked.Makes (fun context => context.hash.Sound) (Plain (KeyedCipher Engine))
      (fun context library => context.view = library) (ofKey algorithm key)
      (Gmac.ofKey algorithm key).run.value := by
  rw [ofKey, Gmac.ofKey]
  by_cases narrow : algorithm.blockSize ≠ Gcm.blockSize
  · rw [if_pos narrow, if_pos narrow]
    exact Checked.makes_refusal _ _ _ _
  · rw [if_neg narrow, if_neg narrow]
    refine Checked.makes_further (algorithm.checked_with_key_makes _ key counted) ?_
    intro cipher _
    have made := Checked.makes_map (fun context => context.hash.Sound)
      (fun context library => context.view = library) ofGcm (fun context => (ofGcm context).view)
      (Gcm.buffered_keyed_makes cipher) (fun _ _ => HashBuffer.empty_sound)
      (fun _ _ same => congrArg (fun context => (ofGcm context).view) same)
    rw [← of_cipher_map] at made
    exact made

theorem compute_tags (iv data tag : Bytes) :
    Checked.Tags (Plain (KeyedCipher Engine)) tag (compute algorithm key iv data tag)
      (Gmac.compute algorithm key iv data tag.length).run.value := by
  refine Checked.tag_once_tags (of_key_makes algorithm key counted) ?_
  intro fresh sound
  obtain ⟨⟨refusal, started⟩, begun, sound, _, answer⟩ := reset_runs fresh iv sound
  rw [begun, Checked.ok_bind]
  cases refusal with
  | some cause =>
      refine ⟨_, rfl, fun _ => rfl, ?_⟩
      rintro _ library rfl
      rw [answer]
      rfl
  | none =>
      obtain ⟨absorbed, taken, sound, same⟩ := absorb_runs started data sound
      obtain ⟨left, tagged, _, spared, given⟩ := finish_runs absorbed tag sound
      simp only [Option.isSome_none, Bool.false_eq_true, if_false, taken, Checked.ok_bind, tagged]
      refine ⟨_, rfl, spared, ?_⟩
      rintro plain library rfl
      rw [answer]
      change ((started.view.absorb data).finish tag.length).1 = left.outcome
      rw [← same, given plain]

end Keys

end GmacBuffer

end SymmetricKey
