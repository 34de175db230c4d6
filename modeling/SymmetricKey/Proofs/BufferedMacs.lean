import SymmetricKey.Proofs.BlockDoubling
import SymmetricKey.Proofs.BufferedChains

/-!
The MACs of a block cipher in a machine's buffers. The block size that counts is
the one that the cipher reports when the MAC is made; it does not change, so
the masks, the chain and the longest tag agree with each other in every later
call.
-/

namespace SymmetricKey

structure BlockMac (C : Type) where
  cipher : C
  fullMask : Bytes
  partMask : Bytes
  chain : ChainBuffers

namespace BlockMac

def reset {C : Type} (mac : BlockMac C) : BlockMac C := { mac with chain := mac.chain.reset }

def view {C : Type} (mac : BlockMac C) : ChainMac C :=
  { cipher := mac.cipher, fullMask := mac.fullMask.take mac.chain.blockSize
    partMask := mac.partMask.take mac.chain.blockSize, chain := mac.chain.view }

/-- The width of the masks and of the longest tag is that of the chain. -/
structure Sound {C : Type} (width : Nat) (mac : BlockMac C) : Prop where
  fits : width = mac.chain.blockSize
  full : mac.fullMask.length = 16
  part : mac.partMask.length = 16
  chain : mac.chain.Sound

theorem reset_sound {C : Type} (width : Nat) (mac : BlockMac C) (sound : Sound width mac) :
    Sound width mac.reset :=
  ⟨sound.fits, sound.full, sound.part,
    ChainBuffers.empty_sound _ sound.chain.positive sound.chain.small⟩

theorem reset_view {C : Type} [BlockCipher C] (width : Nat) (mac : BlockMac C)
    (sound : Sound width mac) : mac.reset.view = mac.view.reset := by
  have fresh : mac.reset.chain.view = CbcChain.empty mac.chain.blockSize :=
    ChainBuffers.empty_view _ sound.chain.small
  rw [view, fresh]
  rfl

section Calls
variable {C : Type} [ForeignCipher C]

def absorb (mac : BlockMac C) (data : Bytes) : Checked (Option Error × BlockMac C) := do
  let step ← mac.chain.absorb mac.cipher data
  .ok (step.refusal, { mac with cipher := step.cipher, chain := step.chain })

-- The tag has a buffer as long as the longest block first.
def finish (width : Nat) (mac : BlockMac C) (tag : Bytes) : Checked (Written (BlockMac C)) :=
  match checkTagSize tag.length 1 width with
  | .error cause => .ok { refusal := some cause, output := tag, after := mac }
  | .ok () => do
      let full ← Checked.slice mac.fullMask 0 width
      let partly ← Checked.slice mac.partMask 0 width
      let left ← mac.chain.finish mac.cipher full partly (Bytes.zeros 16)
      let after := { mac with cipher := left.after.cipher, chain := left.after.chain }
      if left.refusal.isSome then .ok { refusal := left.refusal, output := tag, after }
      else
        let front ← Checked.slice left.output 0 tag.length
        let tag ← Checked.copyInto tag 0 tag.length front
        .ok { refusal := none, output := tag, after }

def tagFrom (width : BlockMac C → Nat) (fresh : BlockMac C) (data tag : Bytes) :
    Checked (Written Unit) := do
  let absorbed ← fresh.absorb data
  if absorbed.1.isSome then .ok { refusal := absorbed.1, output := tag, after := () }
  else
    let left ← absorbed.2.finish (width absorbed.2) tag
    .ok { left with after := () }

end Calls

section Runs
variable {C : Type} [ForeignCipher C] [BlockCipher C] (width : Nat) (mac : BlockMac C)
  (sound : Sound width mac)
include sound

theorem absorb_runs (data : Bytes) :
    ∃ left, absorb mac data = .ok left ∧ Sound width left.2 ∧
      ForeignCipher.blockSize left.2.cipher = ForeignCipher.blockSize mac.cipher ∧
      (Plain C → mac.view.absorb data = (left.1, left.2.view)) := by
  obtain ⟨fits, full, part, chain⟩ := sound
  obtain ⟨step, ran, kept, same, constant, answer⟩ :=
    ChainBuffers.absorb_turns_runs mac.cipher mac.chain chain data.length data (Nat.le_refl _)
  rw [absorb, ChainBuffers.absorb, ran, Checked.ok_bind]
  refine ⟨_, rfl, ⟨fits.trans same.symm, full, part, kept⟩, constant, ?_⟩
  intro plain
  simp only [ChainMac.absorb, view, same, answer plain]

theorem finish_runs (tag : Bytes) :
    ∃ left, finish width mac tag = .ok left ∧ Sound width left.after ∧
      ForeignCipher.blockSize left.after.cipher = ForeignCipher.blockSize mac.cipher ∧
      (left.refusal.isSome → left.output = tag) ∧
      (Plain C → mac.view.finish tag.length = (left.outcome, left.after.view)) := by
  obtain ⟨fits, full, part, chain⟩ := sound
  subst fits
  have size : mac.view.chain.blockSize = mac.chain.blockSize := rfl
  have small := chain.small
  by_cases inside : 1 ≤ tag.length ∧ tag.length ≤ mac.chain.blockSize
  · have right : checkTagSize tag.length 1 mac.chain.blockSize = .ok () :=
      check_tag_size_inside _ _ _ inside.1 inside.2
    have fullWidth : (mac.fullMask.take mac.chain.blockSize).length = mac.chain.blockSize :=
      List.length_take_of_le (by omega)
    have partWidth : (mac.partMask.take mac.chain.blockSize).length = mac.chain.blockSize :=
      List.length_take_of_le (by omega)
    obtain ⟨left, ran, kept, same, constant, wide, answer⟩ :=
      ChainBuffers.finish_runs mac.cipher mac.chain
        chain _ _ (Bytes.zeros 16) fullWidth partWidth (Bytes.zeros_length 16)
    rw [finish, right]
    simp only [Checked.slice_front _ _ (show mac.chain.blockSize ≤ mac.fullMask.length by omega),
      Checked.slice_front _ _ (show mac.chain.blockSize ≤ mac.partMask.length by omega),
      Checked.ok_bind, ran]
    have library (plain : Plain C) : mac.view.finish tag.length =
        (left.outcome.map fun bytes => (bytes.take mac.chain.blockSize).take tag.length,
          { mac.view with chain := left.after.chain.view, cipher := left.after.cipher }) := by
      have ended : mac.view.chain.finish mac.view.cipher mac.view.fullMask mac.view.partMask = _ :=
        answer plain
      rw [ChainMac.finish, size, right]
      simp only [ended]
      cases left.outcome <;> rfl
    by_cases refused : left.refusal.isSome
    · rw [if_pos refused]
      refine ⟨_, rfl, ⟨same.symm, full, part, kept⟩, constant, fun _ => rfl, ?_⟩
      intro plain
      obtain ⟨cause, because⟩ := Option.isSome_iff_exists.mp refused
      rw [library plain]
      simp only [Written.outcome, because, view, same]
      rfl
    · have front : (left.output.take tag.length).length = tag.length :=
        List.length_take_of_le (by omega)
      rw [if_neg refused, Checked.slice_front _ _ (by omega), Checked.ok_bind,
        Checked.copy_into_whole _ _ front, Checked.ok_bind]
      refine ⟨_, rfl, ⟨same.symm, full, part, kept⟩, constant,
        fun stopped => absurd stopped Bool.false_ne_true, ?_⟩
      intro plain
      have none := Option.not_isSome_iff_eq_none.mp refused
      rw [library plain]
      simp only [Written.outcome, none, view, same, Except.map, List.take_take,
        Nat.min_eq_left inside.2]
  · have wrong : checkTagSize tag.length 1 mac.chain.blockSize = .error .invalidParameter :=
      check_tag_size_outside _ _ _ (by omega)
    rw [finish, wrong, ChainMac.finish, size, wrong]
    exact ⟨_, rfl, ⟨rfl, full, part, chain⟩, rfl, fun _ => rfl, fun _ => rfl⟩

-- The width may be read off the cipher as long as the cipher reports one size.
theorem tag_from_runs (read : BlockMac C → Nat)
    (steady : ∀ later : BlockMac C, ForeignCipher.blockSize later.cipher =
      ForeignCipher.blockSize mac.cipher → read later = width)
    (data tag : Bytes) :
    ∃ absorbed, absorb mac data = .ok absorbed ∧ Sound width absorbed.2 ∧
      ForeignCipher.blockSize absorbed.2.cipher = ForeignCipher.blockSize mac.cipher ∧
      ∃ left, tagFrom read mac data tag = .ok left ∧ (left.refusal.isSome → left.output = tag) ∧
        (Plain C → mac.view.absorb data = (absorbed.1, absorbed.2.view) ∧
          left.outcome = match absorbed.1 with
            | some cause => .error cause
            | none => (absorbed.2.view.finish tag.length).1) := by
  obtain ⟨absorbed, taken, kept, constant, answer⟩ := absorb_runs width mac sound data
  obtain ⟨left, ran, _, _, spared, given⟩ := finish_runs width absorbed.2 kept tag
  refine ⟨absorbed, taken, kept, constant, ?_⟩
  rw [tagFrom, taken, Checked.ok_bind, steady _ constant]
  cases refusal : absorbed.1 with
  | some cause => exact ⟨_, rfl, fun _ => rfl, fun plain => ⟨refusal ▸ answer plain, rfl⟩⟩
  | none =>
      rw [if_neg (by simp), ran, Checked.ok_bind]
      refine ⟨_, rfl, spared, fun plain => ⟨refusal ▸ answer plain, ?_⟩⟩
      rw [given plain]
      rfl

end Runs

theorem computed_alike {C Context : Type} [BlockCipher C] (view : Context → ChainMac C)
    (finish : Context → Except Error Bytes × Context) (length : Nat) (refusal : Option Error)
    (after : Context) (mac : BlockMac C)
    (finished : mac.view.finish length = ((finish after).1, view (finish after).2)) :
    (match refusal with
      | some cause => throw cause
      | none => Attempt.ofExcept (finish after).1 : Attempt Bytes).run.value =
      match refusal with
      | some cause => .error cause
      | none => (mac.view.finish length).1 := by
  rw [finished]
  cases refusal <;> rfl

end BlockMac

namespace Field.BigEndian

-- The last byte takes the carry afterwards.
def checkedDouble (reduction : UInt8) (block : Bytes) : Checked Bytes := do
  let top ← Checked.byteAt block 0
  let last ← Checked.subtract block.length 1
  let low ← Checked.byteAt (shift 0 block) last
  Checked.setByte (shift 0 block) last (low ^^^ carryOf top reduction)

theorem shift_carry (carry byte : UInt8) (rest : Bytes) :
    ∃ low, (shift 0 (byte :: rest))[rest.length]? = some low ∧
      (shift 0 (byte :: rest)).set rest.length (low ^^^ carry) = shift carry (byte :: rest) := by
  induction rest generalizing byte with
  | nil =>
      refine ⟨byte <<< 1 ^^^ 0, rfl, ?_⟩
      rw [shift, shift, UInt8.xor_zero]
      rfl
  | cons next rest ih =>
      obtain ⟨low, last, whole⟩ := ih next
      refine ⟨low, last, ?_⟩
      rw [shift, shift, List.length_cons, List.set_cons_succ, whole]

theorem checked_double_exact (reduction : UInt8) (block : Bytes) (some : block ≠ []) :
    checkedDouble reduction block = .ok (double reduction block) := by
  cases block with
  | nil => exact absurd rfl some
  | cons byte rest =>
      obtain ⟨low, last, whole⟩ := shift_carry (carryOf byte reduction) byte rest
      have width := shift_length 0 (byte :: rest)
      rw [List.length_cons] at width
      rw [checkedDouble, Checked.byte_at_within (byte :: rest) 0 (Nat.zero_lt_succ _),
        Checked.ok_bind, List.length_cons, Checked.subtract_within _ _ (Nat.le_add_left 1 _),
        Checked.ok_bind, Nat.add_sub_cancel, Checked.byteAt, last]
      simp only [Checked.ok_bind]
      rw [Checked.set_byte_within _ _ _ (by omega)]
      exact congrArg Except.ok whole

end Field.BigEndian

namespace Cmac

section Calls
variable {C : Type} [ForeignCipher C]

def doubleFront (reduction : UInt8) (buffer : Bytes) (size : Nat) : Checked Bytes := do
  let range ← Checked.slice buffer 0 size
  let doubled ← Field.BigEndian.checkedDouble reduction range
  .ok (Checked.spliced buffer 0 size doubled)

def bufferedOfCipher (cipher : C) : Checked (Except Error (BlockMac C)) :=
  let size := ForeignCipher.blockSize cipher
  match reduction? size with
  | none => .ok (.error .invalidParameter)
  | some reduction => do
      let zeros ← Checked.slice (Bytes.zeros 16) 0 size
      let written ← ForeignCipher.cryptFront .encrypt cipher zeros (Bytes.zeros 16) size
      match written.refusal with
      | some cause => .ok (.error cause)
      | none => do
          let fullMask ← doubleFront reduction written.output size
          let front ← Checked.slice fullMask 0 size
          let copy ← Checked.copyInto (Bytes.zeros 16) 0 size front
          let partMask ← doubleFront reduction copy size
          .ok (.ok { cipher := written.after, fullMask, partMask, chain := .empty size })

/-- The size that the algorithm is listed with is looked at before the key is. -/
def bufferedOfKey {Engine : Type} [ForeignCipher Engine] (algorithm : CipherAlgorithm Engine)
    (key : Bytes) : Checked (Except Error (BlockMac (KeyedCipher Engine))) :=
  if (reduction? algorithm.blockSize).isNone then .ok (.error .invalidParameter)
  else (algorithm.checkedWithKey key).andThen bufferedOfCipher

end Calls

/-- The cipher still reports the size that the chain was made for. -/
def Fits {C : Type} [ForeignCipher C] (mac : BlockMac C) : Prop :=
  mac.Sound (ForeignCipher.blockSize mac.cipher)

theorem reduction_size (size : Nat) (reduction : UInt8)
    (defined : reduction? size = some reduction) :
    0 < size ∧ size ≤ 16 := by
  rw [reduction?] at defined
  split_ifs at defined <;> omega

theorem double_front_runs (reduction : UInt8) (buffer : Bytes) (size : Nat) (positive : 0 < size)
    (fits : size ≤ buffer.length) :
    ∃ doubled, doubleFront reduction buffer size = .ok doubled ∧ doubled.length = buffer.length ∧
      doubled.take size = Field.BigEndian.double reduction (buffer.take size) := by
  have front : (buffer.take size).length = size := List.length_take_of_le fits
  have some : buffer.take size ≠ [] := List.length_pos_iff.mp (by omega)
  have width : (Field.BigEndian.double reduction (buffer.take size)).length = size :=
    (Field.BigEndian.double_length _ _).trans front
  rw [doubleFront, Checked.slice_front _ _ fits, Checked.ok_bind,
    Field.BigEndian.checked_double_exact reduction _ some, Checked.ok_bind]
  refine ⟨_, rfl, ?_, List.take_left' width⟩
  exact Checked.spliced_length buffer 0 size _ (Nat.zero_le _) fits width

theorem buffered_of_cipher_makes {C : Type} [ForeignCipher C] [BlockCipher C] (cipher : C) :
    Checked.Makes Fits (Plain C) (fun mac context => context.view = mac.view)
      (bufferedOfCipher cipher) (ofCipher cipher) := by
  obtain ⟨size, reported⟩ : ∃ size, ForeignCipher.blockSize cipher = size := ⟨_, rfl⟩
  have same (plain : Plain C) : BlockCipher.blockSize cipher = size :=
    (plain.size cipher).symm.trans reported
  simp only [bufferedOfCipher, reported]
  cases defined : reduction? size with
  | none =>
      apply Checked.makes_refused
      intro plain
      obtain rfl := same plain
      simp only [ofCipher, defined]
  | some reduction =>
      obtain ⟨positive, small⟩ := reduction_size size reduction defined
      have blank := Bytes.zeros_take 16 size small
      obtain ⟨written, ran, wider, constant, answer⟩ :=
        ForeignCipher.crypt_front_runs .encrypt cipher
          (Bytes.zeros size) (Bytes.zeros 16) size small
      have wide : written.output.length = 16 := wider.trans (Bytes.zeros_length 16)
      simp only [Checked.slice_front (Bytes.zeros 16) size small, Checked.ok_bind, blank, ran]
      cases refused : written.refusal with
      | some cause =>
          apply Checked.makes_refused
          intro plain
          obtain rfl := same plain
          obtain ⟨other, after, answered, rfl⟩ := Written.answer_refused _ _ _ (answer plain)
            (Option.isSome_of_eq_some refused)
          cases refused
          simp only [ofCipher, defined, BlockCipher.encryptBlock, answered]
      | none =>
          -- The second mask is the first, copied and doubled once more.
          obtain ⟨full, doubled, fullWidth, once⟩ :=
            double_front_runs reduction written.output size positive (by omega)
          have front : (full.take size).length = size := List.length_take_of_le (by omega)
          have copied : (full.take size ++ (Bytes.zeros 16).drop size).length = 16 :=
            Checked.front_length (Bytes.zeros 16) size _ small front
          obtain ⟨part, doubledAgain, partWidth, twice⟩ := double_front_runs reduction
            (full.take size ++ (Bytes.zeros 16).drop size) size positive (by omega)
          simp only [doubled, Checked.ok_bind, Checked.slice_front full size (by omega),
            Checked.copy_into_front (Bytes.zeros 16) size _ small front, doubledAgain]
          refine ⟨_, rfl, ?_, ?_⟩
          · rintro mac ⟨⟩
            exact ⟨constant.trans reported, fullWidth.trans wide, partWidth.trans copied,
              ChainBuffers.empty_sound size positive small⟩
          · intro plain
            obtain rfl := same plain
            obtain ⟨block, after, answered, rfl⟩ := Written.answer_given _ _ _ (answer plain)
              (Option.not_isSome_iff_eq_none.mpr refused)
            have laid := Bytes.overlay_fitting (Bytes.zeros 16) block.toList
              (by rw [block.length_toList]; exact small)
            rw [laid, List.take_left' block.length_toList] at once
            rw [List.take_left' front, once] at twice
            have chained := ChainBuffers.empty_view _ small
            simp only [ofCipher, defined, BlockCipher.encryptBlock, answered]
            change view _ = BlockMac.view _
            simp only [view, BlockMac.view, ← chained]
            exact congrArg₂ (fun fullMask partMask => ChainMac.mk after fullMask partMask _)
              once.symm twice.symm

theorem buffered_of_key_makes {Engine : Type} [ForeignCipher Engine] [BlockCipher Engine]
    (algorithm : CipherAlgorithm Engine) (key : Bytes) (counted : algorithm.Counts key) :
    Checked.Makes Fits (Plain (KeyedCipher Engine)) (fun mac context => context.view = mac.view)
      (bufferedOfKey algorithm key) (ofKey algorithm key).run.value := by
  rw [bufferedOfKey, ofKey]
  by_cases unknown : (reduction? algorithm.blockSize).isNone
  · rw [if_pos unknown, if_pos unknown]
    exact Checked.makes_refusal _ _ _ _
  · rw [if_neg unknown, if_neg unknown]
    refine Checked.makes_further (algorithm.checked_with_key_makes _ key counted) ?_
    intro cipher _
    exact buffered_of_cipher_makes cipher

section Alike
variable {C : Type} [ForeignCipher C] [BlockCipher C] (plain : Plain C) (mac : BlockMac C)
  (fits : Fits mac) (context : Cmac C) (same : context.view = mac.view)
include plain same

theorem size_alike : context.size = ForeignCipher.blockSize mac.cipher := by
  have cipher : context.cipher = mac.cipher := congrArg ChainMac.cipher same
  rw [size, cipher, plain.size]

include fits in
theorem finish_alike (length : Nat) :
    mac.view.finish length = ((context.finish length).1, (context.finish length).2.view) := by
  have chain : context.chain = mac.chain.view := congrArg ChainMac.chain same
  rw [← same]
  apply finish_view
  rw [size_alike plain mac context same, fits.fits, chain]
  rfl

end Alike

def bufferedCompute {Engine : Type} [ForeignCipher Engine] (algorithm : CipherAlgorithm Engine)
    (key data tag : Bytes) : Checked (Written Unit) :=
  Checked.tagOnce (bufferedOfKey algorithm key) tag fun fresh =>
    fresh.tagFrom (fun mac => ForeignCipher.blockSize mac.cipher) data tag

theorem buffered_compute_tags {Engine : Type} [ForeignCipher Engine] [BlockCipher Engine]
    (algorithm : CipherAlgorithm Engine) (key data tag : Bytes) (counted : algorithm.Counts key) :
    Checked.Tags (Plain (KeyedCipher Engine)) tag (bufferedCompute algorithm key data tag)
      (compute algorithm key data tag.length).run.value := by
  refine Checked.tag_once_tags (buffered_of_key_makes algorithm key counted) ?_
  intro fresh fits
  obtain ⟨absorbed, taken, kept, constant, left, ran, spared, answer⟩ :=
    BlockMac.tag_from_runs _ fresh
      fits (fun mac => ForeignCipher.blockSize mac.cipher) (fun _ same => same) data tag
  refine ⟨left, ran, spared, ?_⟩
  intro plain context same
  obtain ⟨through, outcome⟩ := answer plain
  rw [← same] at through
  have refusal : (context.absorb data).1 = absorbed.1 := congrArg Prod.fst through
  have later : (context.absorb data).2.view = absorbed.2.view := congrArg Prod.snd through
  have fitting : Fits absorbed.2 := by
    rw [Fits, constant]
    exact kept
  rw [outcome, ← refusal]
  exact BlockMac.computed_alike view (finish · tag.length) tag.length _ _ absorbed.2
    (finish_alike plain absorbed.2 fitting _ later tag.length)

end Cmac

namespace Xcbc

section Calls
variable {C : Type} [ForeignCipher C]

def bufferedSubkey (cipher : C) (byte : UInt8) : Checked (Written C) :=
  ForeignCipher.cryptFront .encrypt cipher (List.replicate size byte) (Bytes.zeros size) size

def bufferedSubkeys (cipher : C) : Checked (Except Error (Bytes × Bytes × Bytes)) := do
  let first ← bufferedSubkey cipher 0x01
  match first.refusal with
  | some cause => .ok (.error cause)
  | none => do
      let second ← bufferedSubkey first.after 0x02
      match second.refusal with
      | some cause => .ok (.error cause)
      | none => do
          let third ← bufferedSubkey second.after 0x03
          match third.refusal with
          | some cause => .ok (.error cause)
          | none => .ok (.ok (first.output, second.output, third.output))

def bufferedOfKey {Engine : Type} [ForeignCipher Engine] (algorithm : CipherAlgorithm Engine)
    (key : Bytes) : Checked (Except Error (BlockMac (KeyedCipher Engine))) :=
  if algorithm.blockSize ≠ size then .ok (.error .invalidParameter)
  else if key.length ≠ size then .ok (.error .invalidKeyLength)
  else
    (algorithm.checkedWithKey key).andThen fun user =>
      (bufferedSubkeys user).andThen fun (chainKey, fullMask, partMask) =>
        (algorithm.checkedWithKey chainKey).andThen fun cipher =>
          .ok (.ok { cipher, fullMask, partMask, chain := .empty size })

def bufferedCompute {Engine : Type} [ForeignCipher Engine] (algorithm : CipherAlgorithm Engine)
    (key data tag : Bytes) : Checked (Written Unit) :=
  Checked.tagOnce (bufferedOfKey algorithm key) tag fun fresh =>
    fresh.tagFrom (fun _ => size) data tag

end Calls

section Keys
variable {C : Type} [ForeignCipher C] [BlockCipher C]

theorem buffered_subkey_runs (cipher : C) (byte : UInt8) :
    ∃ written, bufferedSubkey cipher byte = .ok written ∧ written.output.length = 16 ∧
      (Plain C → subkey cipher byte = (written.outcome, written.after)) := by
  obtain ⟨written, ran, wider, _, answer⟩ := ForeignCipher.crypt_front_runs .encrypt cipher
    (List.replicate size byte) (Bytes.zeros size) size (Nat.le_of_eq (Bytes.zeros_length _).symm)
  refine ⟨written, ran, wider.trans (Bytes.zeros_length 16), ?_⟩
  intro plain
  by_cases refused : written.refusal.isSome
  · obtain ⟨cause, after, answered, rfl⟩ := Written.answer_refused _ _ _ (answer plain) refused
    rw [subkey, BlockCipher.encryptBlock, answered]
    rfl
  · obtain ⟨block, after, answered, rfl⟩ := Written.answer_whole _ (Bytes.zeros_length _).symm _ _
      (answer plain) refused
    rw [subkey, BlockCipher.encryptBlock, answered]
    rfl

theorem buffered_subkeys_makes (cipher : C) :
    Checked.Makes (fun keys => keys.1.length = 16 ∧ keys.2.1.length = 16 ∧ keys.2.2.length = 16)
      (Plain C) Eq (bufferedSubkeys cipher) (subkeys cipher) := by
  obtain ⟨first, firstRan, firstWidth, firstKey⟩ := buffered_subkey_runs cipher 0x01
  obtain ⟨second, secondRan, secondWidth, secondKey⟩ := buffered_subkey_runs first.after 0x02
  obtain ⟨third, thirdRan, thirdWidth, thirdKey⟩ := buffered_subkey_runs second.after 0x03
  have library (plain : Plain C) : subkeys cipher = (do
      let key1 ← first.outcome
      let key2 ← second.outcome
      let key3 ← third.outcome
      pure (key1, key2, key3)) := by
    simp only [subkeys, firstKey plain, secondKey plain, thirdKey plain]
  rw [bufferedSubkeys, firstRan, Checked.ok_bind]
  cases one : first.refusal with
  | some cause =>
      apply Checked.makes_refused
      intro plain
      rw [library plain, Written.outcome, one]
      rfl
  | none =>
      simp only [secondRan, Checked.ok_bind]
      cases two : second.refusal with
      | some cause =>
          apply Checked.makes_refused
          intro plain
          rw [library plain]
          simp only [Written.outcome, one, two]
          rfl
      | none =>
          simp only [thirdRan, Checked.ok_bind]
          cases three : third.refusal with
          | some cause =>
              apply Checked.makes_refused
              intro plain
              rw [library plain]
              simp only [Written.outcome, one, two, three]
              rfl
          | none =>
              refine ⟨_, rfl, ?_, ?_⟩
              · rintro _ ⟨⟩
                exact ⟨firstWidth, secondWidth, thirdWidth⟩
              · intro plain
                rw [library plain]
                simp only [Written.outcome, one, two, three]
                rfl

end Keys

theorem buffered_of_key_makes {Engine : Type} [ForeignCipher Engine] [BlockCipher Engine]
    (algorithm : CipherAlgorithm Engine) (key : Bytes) :
    Checked.Makes (BlockMac.Sound 16) (Plain (KeyedCipher Engine))
      (fun mac context => context.view = mac.view) (bufferedOfKey algorithm key)
      (ofKey algorithm key).run.value := by
  rw [bufferedOfKey, ofKey]
  by_cases narrow : algorithm.blockSize ≠ size
  · rw [if_pos narrow, if_pos narrow]
    exact Checked.makes_refusal _ _ _ _
  · rw [if_neg narrow, if_neg narrow]
    by_cases short : key.length ≠ size
    · simp only [if_pos short]
      exact Checked.makes_refusal _ _ _ _
    · simp only [if_neg short]
      have width : key.length = 16 := not_not.mp short
      refine Checked.makes_further (algorithm.checked_with_key_makes _ key fun _ => by omega) ?_
      intro user _
      have derived : Checked.Makes _ (Plain (KeyedCipher Engine)) Eq (bufferedSubkeys user)
          (Attempt.ofExcept (subkeys user)).run.value := buffered_subkeys_makes user
      refine Checked.makes_further derived ?_
      rintro ⟨chainKey, fullMask, partMask⟩ ⟨chainWidth, fullWidth, partWidth⟩
      have counted : algorithm.Counts chainKey := by
        intro _
        rw [show chainKey.length = 16 from chainWidth]
        decide
      refine Checked.makes_further (algorithm.checked_with_key_makes _ chainKey counted) ?_
      intro cipher _
      apply Checked.makes_result
      · exact ⟨rfl, fullWidth, partWidth, ChainBuffers.empty_sound 16 (by decide) (Nat.le_refl 16)⟩
      · intro _
        have full : fullMask.take 16 = fullMask := List.take_of_length_le (Nat.le_of_eq fullWidth)
        have part : partMask.take 16 = partMask := List.take_of_length_le (Nat.le_of_eq partWidth)
        have chained := ChainBuffers.empty_view 16 (Nat.le_refl 16)
        simp only [view, BlockMac.view, size, chained]
        exact congrArg₂ (fun fullMask partMask => ChainMac.mk cipher fullMask partMask _) full.symm
          part.symm

theorem finish_alike {C : Type} [BlockCipher C] (mac : BlockMac C) (sound : mac.Sound 16)
    (context : Xcbc C) (same : context.view = mac.view) (length : Nat) :
    mac.view.finish length = ((context.finish length).1, (context.finish length).2.view) := by
  have chain : context.chain = mac.chain.view := congrArg ChainMac.chain same
  rw [← same]
  apply finish_view
  rw [chain]
  exact sound.fits

theorem buffered_compute_tags {Engine : Type} [ForeignCipher Engine] [BlockCipher Engine]
    (algorithm : CipherAlgorithm Engine) (key data tag : Bytes) :
    Checked.Tags (Plain (KeyedCipher Engine)) tag (bufferedCompute algorithm key data tag)
      (compute algorithm key data tag.length).run.value := by
  refine Checked.tag_once_tags (buffered_of_key_makes algorithm key) ?_
  intro fresh sound
  obtain ⟨absorbed, taken, kept, _, left, ran, spared, answer⟩ :=
    BlockMac.tag_from_runs 16 fresh sound (fun _ => size) (fun _ _ => rfl) data tag
  refine ⟨left, ran, spared, ?_⟩
  intro plain context same
  obtain ⟨through, outcome⟩ := answer plain
  rw [← same] at through
  have refusal : (context.absorb data).1 = absorbed.1 := congrArg Prod.fst through
  have later : (context.absorb data).2.view = absorbed.2.view := congrArg Prod.snd through
  rw [outcome, ← refusal]
  exact BlockMac.computed_alike view (finish · tag.length) tag.length _ _ absorbed.2
    (finish_alike absorbed.2 kept _ later tag.length)

end Xcbc

end SymmetricKey
