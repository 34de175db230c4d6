import SymmetricKey.Proofs.CmacStandard
import Mathlib.Dynamics.PeriodicPts.Defs

/-!
The MACs over a chain of blocks after the cipher has refused a call. A block is
added to the chaining value before the cipher is asked, and masked before that,
and neither is taken back. The next tag is then that of another message, until
four refusals have undone each other.
-/

namespace SymmetricKey

namespace CbcChain

variable {size : Nat} (full partly : Bytes)

def maskFor (size : Nat) (full partly : Bytes) (count : Nat) : Bytes :=
  if count = size then full else partly

def marker (size count : Nat) : Bytes :=
  if count = size then [] else 0x80 :: Bytes.zeros (size - count - 1)

/-- The mask as far as it lay over held bytes. A last block that is refused leaves this behind. -/
def remnant (size : Nat) (full partly : Bytes) (count : Nat) : Bytes :=
  (maskFor size full partly count).take count ++ Bytes.zeros (size - count)

/-- What a message of this value and this last block comes to after so many refusals. -/
def inputBehind (value block remnant : Bytes) (count : Nat) : Bytes :=
  match count % 4 with
  | 0 => Bytes.xor value block
  | 1 => Bytes.xor value remnant
  | 2 => Bytes.xor (Bytes.xor value remnant) block
  | _ => value

theorem last_block_exact (chain : CbcChain) (shaped : Shaped size chain) :
    chain.lastBlock full partly =
      Bytes.xor (chain.pending ++ marker size chain.pending.length)
        (maskFor size full partly chain.pending.length) := by
  rw [lastBlock, shaped.blocks]
  by_cases whole : chain.pending.length = size
  · simp only [marker, maskFor, if_pos whole, List.append_nil]
  · simp only [marker, maskFor, if_neg whole]

theorem mask_for_length (count : Nat) (fullWidth : full.length = size)
    (partWidth : partly.length = size) : (maskFor size full partly count).length = size := by
  by_cases whole : count = size
  · rw [maskFor, if_pos whole, fullWidth]
  · rw [maskFor, if_neg whole, partWidth]

theorem masked_pending (chain : CbcChain) (shaped : Shaped size chain) :
    (masked chain full partly).pending =
      Bytes.xor chain.pending
        ((maskFor size full partly chain.pending.length).take chain.pending.length) := by
  rw [masked, last_block_exact full partly chain shaped, Bytes.xor_take, List.take_left]

theorem spoiled_input (chain : CbcChain) (shaped : Shaped size chain)
    (held : chain.pending.length = size) :
    Bytes.xor (spoiled chain).value ((spoiled chain).lastBlock full partly) =
      Bytes.xor chain.value full := by
  -- A block that was refused among the data is in the value, and goes in once more behind its
  -- mask.
  have filled : (spoiled chain).pending.length = (spoiled chain).blockSize :=
    held.trans shaped.blocks.symm
  rw [lastBlock, if_pos filled]
  exact Bytes.xor_bridge _ _ _ (by rw [shaped.value, held])

section Masking
variable (chain : CbcChain) (shaped : Shaped size chain) (fullWidth : full.length = size)
  (partWidth : partly.length = size)
include shaped fullWidth partWidth

theorem masked_pending_length :
    (masked chain full partly).pending.length = chain.pending.length := by
  have width := mask_for_length full partly chain.pending.length fullWidth partWidth
  have held := shaped.pending
  rw [masked_pending full partly chain shaped, Bytes.xor_length,
    List.length_take, width]
  omega

theorem masked_last_block :
    (masked chain full partly).lastBlock full partly =
      Bytes.xor (chain.lastBlock full partly)
        (remnant size full partly chain.pending.length) := by
  have width := mask_for_length full partly chain.pending.length fullWidth partWidth
  have held := shaped.pending
  have under : chain.pending.length =
      ((maskFor size full partly chain.pending.length).take chain.pending.length).length := by
    rw [List.length_take, width]
    omega
  have marked : (marker size chain.pending.length).length = size - chain.pending.length := by
    rw [marker]
    split <;> simp [Bytes.zeros] <;> omega
  have untouched := Bytes.xor_zeros (marker size chain.pending.length)
  rw [marked] at untouched
  rw [last_block_exact full partly _ (masked_shaped chain shaped full partly fullWidth partWidth),
    masked_pending_length full partly chain shaped fullWidth partWidth,
    masked_pending full partly chain shaped,
    last_block_exact full partly chain shaped, Bytes.xor_assoc, Bytes.xor_comm (maskFor _ _ _ _),
    ← Bytes.xor_assoc, remnant, Bytes.xor_append _ _ _ _ under, untouched]

theorem remnant_length : (remnant size full partly chain.pending.length).length = size := by
  have width := mask_for_length full partly chain.pending.length fullWidth partWidth
  have held := shaped.pending
  rw [remnant, List.length_append, List.length_take, width, Bytes.zeros, List.length_replicate]
  omega

theorem masked_input :
    Bytes.xor (masked chain full partly).value ((masked chain full partly).lastBlock full partly) =
      Bytes.xor chain.value (remnant size full partly chain.pending.length) := by
  have single := last_block_length chain shaped full partly fullWidth partWidth
  rw [masked_last_block full partly chain shaped fullWidth partWidth]
  exact Bytes.xor_bridge _ _ _ (by rw [shaped.value, single])

theorem masked_twice :
    masked (masked chain full partly) full partly =
      { chain with
        value := Bytes.xor chain.value (remnant size full partly chain.pending.length) } := by
  -- The second refusal takes the mask off again, and the block out of the value.
  have again := masked_shaped chain shaped full partly fullWidth partWidth
  have length := masked_pending_length full partly chain shaped fullWidth partWidth
  have width := mask_for_length full partly chain.pending.length fullWidth partWidth
  have held := shaped.pending
  have value : (masked (masked chain full partly) full partly).value =
      Bytes.xor chain.value (remnant size full partly chain.pending.length) :=
    masked_input full partly chain shaped fullWidth partWidth
  have pending : (masked (masked chain full partly) full partly).pending = chain.pending := by
    rw [masked_pending full partly _ again, length,
      masked_pending full partly chain shaped, Bytes.xor_cancel]
    rw [List.length_take, width]
    omega
  have blocks : (masked (masked chain full partly) full partly).blockSize = chain.blockSize := rfl
  rw [← value, ← pending, ← blocks]

theorem masked_four :
    Function.IsPeriodicPt (fun chain => masked chain full partly) 4 chain := by
  have twice := masked_twice full partly chain shaped fullWidth partWidth
  have rest := remnant_length full partly chain shaped fullWidth partWidth
  have again : Shaped size (masked (masked chain full partly) full partly) :=
    masked_shaped _ (masked_shaped chain shaped full partly fullWidth partWidth) full partly
      fullWidth partWidth
  change masked (masked (masked (masked chain full partly) full partly) full partly) full partly =
    chain
  rw [masked_twice full partly _ again fullWidth partWidth, twice,
    Bytes.xor_cancel _ _ (by rw [shaped.value, rest])]

theorem input_behind_exact (count : Nat) :
    let behind := (fun chain => masked chain full partly)^[count] chain
    Bytes.xor behind.value (behind.lastBlock full partly) =
      inputBehind chain.value (chain.lastBlock full partly)
        (remnant size full partly chain.pending.length) count := by
  intro behind
  have rest := remnant_length full partly chain shaped fullWidth partWidth
  have twice := masked_twice full partly chain shaped fullWidth partWidth
  have period : behind = (fun chain => masked chain full partly)^[count % 4] chain :=
    ((masked_four full partly chain shaped fullWidth partWidth).iterate_mod_apply count).symm
  have cases : count % 4 = 0 ∨ count % 4 = 1 ∨ count % 4 = 2 ∨ count % 4 = 3 := by omega
  rw [period, inputBehind]
  rcases cases with none | one | two | three
  · simp only [none, Function.iterate_zero, id]
  · simp only [one, Function.iterate_one]
    exact masked_input full partly chain shaped fullWidth partWidth
  · simp only [two, Function.iterate_succ, Function.iterate_zero, Function.comp, id, twice]
    rfl
  · have again : Shaped size (masked (masked chain full partly) full partly) :=
      masked_shaped _ (masked_shaped chain shaped full partly fullWidth partWidth) full partly
        fullWidth partWidth
    have third := masked_input full partly _ again fullWidth partWidth
    rw [twice, Bytes.xor_cancel _ _ (by rw [shaped.value, rest])] at third
    simp only [three, Function.iterate_succ, Function.iterate_zero, Function.comp, id, twice]
    exact third

end Masking

end CbcChain

open CbcChain (Shaped StandsFor takeAll spoiled masked valueBefore maskedLast lastOf tagOf remnant
  inputBehind)

namespace ChainMac

variable {C : Type} [BlockCipher C] {size : Nat} (function : Block size → Block size)
  (full partly : Bytes)

/-- So many requests for the tag of this chain were refused. -/
structure Behind (origin : CbcChain) (count : Nat) (mac : ChainMac C) : Prop where
  awaits : Awaits function full partly none mac
  chain : mac.chain = (fun chain => masked chain full partly)^[count] origin

theorem behind_refused (fullWidth : full.length = size) (partWidth : partly.length = size)
    (origin : CbcChain) (count : Nat) (mac : ChainMac C)
    (behind : Behind function full partly origin count mac) (length : Nat)
    (inside : 1 ≤ length ∧ length ≤ size) (cause : Error)
    (refused : (mac.finish length).1 = .error cause) :
    Behind function full partly origin (count + 1) (mac.finish length).2 := by
  obtain ⟨awaits, chain⟩ := behind
  have next := finish_awaits function full partly none mac awaits fullWidth partWidth length
  have lost : track size none (.finish length, .ofTag (mac.finish length).1) = none := by
    rw [refused]
    exact if_pos inside
  rw [lost] at next
  refine ⟨next, ?_⟩
  obtain ⟨after, _, answered | ⟨other, _, broken⟩⟩ :=
    finish_inside function full partly none mac awaits fullWidth partWidth length inside
  · rw [answered] at refused
    cases refused
  · rw [broken, Function.iterate_succ_apply', ← chain]

theorem behind_tag (fullWidth : full.length = size) (partWidth : partly.length = size)
    (origin : CbcChain) (shaped : Shaped size origin) (count : Nat) (mac : ChainMac C)
    (behind : Behind function full partly origin count mac) (length : Nat) (tag : Bytes)
    (given : (mac.finish length).1 = .ok tag) :
    tag = (Block.onBytes function (inputBehind origin.value (origin.lastBlock full partly)
      (remnant size full partly origin.pending.length) count)).take length := by
  obtain ⟨awaits, chain⟩ := behind
  by_cases inside : 1 ≤ length ∧ length ≤ size
  · obtain ⟨after, _, answered | ⟨cause, _, broken⟩⟩ :=
      finish_inside function full partly none mac awaits fullWidth partWidth length inside
    · rw [answered, chain] at given
      cases given
      rw [CbcChain.input_behind_exact full partly origin shaped fullWidth partWidth count]
    · rw [broken] at given
      cases given
  · rw [finish_outside function full partly none mac awaits length (by omega)] at given
    cases given

-- The data was taken up to a byte that found a complete block in its way. That block is in the
-- chaining value, and is held still, so that the next tag takes it out again.
theorem absorb_refused (positive : 0 < size) (fullWidth : full.length = size)
    (partWidth : partly.length = size) (mac : ChainMac C) (message : Bytes)
    (awaits : Awaits function full partly (some message) mac) (data : Bytes) (cause : Error)
    (refused : (mac.absorb data).1 = some cause) :
    ∃ taken byte more, data = taken ++ byte :: more ∧ message ++ taken ≠ [] ∧
      (message ++ taken).length % size = 0 ∧ ∀ length tag,
        ((mac.absorb data).2.finish length).1 = .ok tag →
          tag = (Block.onBytes function
            (Bytes.xor (valueBefore function (message ++ taken)) full)).take length := by
  have next := absorb_awaits function full partly _ mac awaits positive data
  obtain ⟨honest, _, _, shaped, standing⟩ := awaits
  obtain ⟨after, _, through | ⟨taken, byte, more, other, cut, held, broken⟩⟩ :=
    CbcChain.absorb_outcomes function positive mac.cipher honest mac.chain shaped data
  · rw [absorb, through] at refused
    cases refused
  · have whole := CbcChain.take_all_shaped function positive mac.chain shaped taken
    obtain ⟨value, _, complete⟩ := CbcChain.stands_exact function positive _ _ whole
      (CbcChain.take_all_stands_for function positive mac.chain message
        (standing message rfl) taken)
    obtain ⟨present, aligned⟩ := complete.mpr held
    refine ⟨taken, byte, more, cut, present, aligned, ?_⟩
    have chain : (mac.absorb data).2.chain = spoiled (takeAll function mac.chain taken) := by
      rw [absorb, broken]
    intro length tag given
    have lost : track size (some message) (.absorb data, .ofRefusal (mac.absorb data).1) =
        none := by
      rw [absorb, broken]
      rfl
    rw [lost] at next
    have last := behind_tag function full partly fullWidth partWidth _ next.shaped 0 _ ⟨next, rfl⟩
      length tag given
    rw [last, inputBehind, chain, ← value]
    exact congrArg (fun string => (Block.onBytes function string).take length)
      (CbcChain.spoiled_input full partly _ whole held)

/-- What refusals leave behind in a context whose chain is keyed by `function`. -/
structure RefusalsRemain {Context : Type} (serve : Context → MacCall Unit → MacAnswer × Context)
    (fresh : Context) : Prop where
  outside : ∀ calls length, length = 0 ∨ size < length →
    serve (CallRun.run serve fresh calls).2 (.finish length) =
      (.refused .invalidParameter, (CallRun.run serve fresh calls).2)
  finished : ∀ calls message, message? size (CallRun.run serve fresh calls).1 = some message →
    ∀ sizes : List Nat, (∀ length ∈ sizes, 1 ≤ length ∧ length ≤ size) →
      let tried := CallRun.run serve (CallRun.run serve fresh calls).2 (sizes.map .finish)
      (∀ entry ∈ tried.1, ∃ cause, entry.2 = .refused cause) → ∀ length tag,
        (serve tried.2 (.finish length)).1 = .tag tag →
          tag = (Block.onBytes function (inputBehind (valueBefore function message)
            (maskedLast size full partly message)
            (remnant size full partly (lastOf size message).length) sizes.length)).take length
  absorbed : ∀ calls message, message? size (CallRun.run serve fresh calls).1 = some message →
    ∀ data cause, (serve (CallRun.run serve fresh calls).2 (.absorb data)).1 = .refused cause →
      ∃ taken byte more, data = taken ++ byte :: more ∧ message ++ taken ≠ [] ∧
        (message ++ taken).length % size = 0 ∧ ∀ length tag,
          (serve (serve (CallRun.run serve fresh calls).2 (.absorb data)).2 (.finish length)).1 =
              .tag tag →
            tag = (Block.onBytes function
              (Bytes.xor (valueBefore function (message ++ taken)) full)).take length

theorem refusals_remain {Context : Type} (view : Context → ChainMac C)
    (whole : Function.Injective view) (serve : Context → MacCall Unit → MacAnswer × Context)
    (positive : 0 < size) (fullWidth : full.length = size) (partWidth : partly.length = size)
    (alike : ∀ context message, Awaits function full partly message (view context) → ∀ call,
      (view context).serve call = ((serve context call).1, view (serve context call).2))
    (fresh : Context) (awaits : Awaits function full partly (some []) (view fresh)) :
    RefusalsRemain function full partly serve fresh := by
  have reached := run_awaits view serve function full partly positive fullWidth partWidth alike
    fresh awaits
  have viewed : ∀ context, Awaits function full partly none (view context) → ∀ length,
      (serve context (.finish length)).1 = .ofTag ((view context).finish length).1 ∧
        view (serve context (.finish length)).2 = ((view context).finish length).2 := by
    intro context here length
    have same := alike context none here (.finish length)
    exact ⟨(congrArg Prod.fst same).symm, (congrArg Prod.snd same).symm⟩
  refine ⟨?outside, ?finished, ?absorbed⟩
  case outside =>
    intro calls length outside
    have here := (reached calls).forget
    obtain ⟨answer, kept⟩ := viewed _ here length
    rw [finish_outside function full partly none _ here length outside] at answer kept
    exact Prod.ext answer (whole kept)
  case finished =>
    intro calls message under sizes inside tried refused length tag given
    have here := reached calls
    rw [under] at here
    have standing := here.standing message rfl
    obtain ⟨value, last, _⟩ := CbcChain.stands_exact function positive _ _ here.shaped standing
    have block := CbcChain.last_block_masked function positive _ _ full partly here.shaped standing
    -- Each refusal masks the buffer once more, so the invariant counts them.
    have behind := CallRun.run_refused serve
      (fun count context => Behind function full partly _ count (view context)) _
      ?step 0 _ ⟨here.forget, rfl⟩ sizes inside refused
    case step =>
      intro count context size cause behind inside refused
      obtain ⟨answer, next⟩ := viewed context behind.awaits size
      rw [next]
      rw [answer] at refused
      exact behind_refused function full partly fullWidth partWidth _ count _ behind size inside
        cause ((MacAnswer.of_tag_refused_iff _ cause).mp refused)
    rw [(viewed _ behind.awaits length).1] at given
    have tagged := behind_tag function full partly fullWidth partWidth _ here.shaped _ _ behind
      length tag ((MacAnswer.of_tag_tag_iff _ tag).mp given)
    rwa [value, block, last, Nat.zero_add] at tagged
  case absorbed =>
    intro calls message under data cause refused
    have here := reached calls
    rw [under] at here
    have same := alike _ _ here (.absorb data)
    have next := serve_awaits function full partly _ _ here positive fullWidth partWidth
      (.absorb data)
    have moved : view (serve (CallRun.run serve fresh calls).2 (.absorb data)).2 =
        ((view (CallRun.run serve fresh calls).2).absorb data).2 := (congrArg Prod.snd same).symm
    have broken : ((view (CallRun.run serve fresh calls).2).absorb data).1 = some cause :=
      (MacAnswer.of_refusal_refused_iff _ cause).mp ((congrArg Prod.fst same).trans refused)
    obtain ⟨taken, byte, more, cut, present, aligned, tags⟩ :=
      absorb_refused function full partly positive fullWidth partWidth _ message here data cause
        broken
    refine ⟨taken, byte, more, cut, present, aligned, ?_⟩
    intro length tag given
    rw [(viewed _ (by rw [moved]; exact next.forget) length).1, moved] at given
    exact tags length tag ((MacAnswer.of_tag_tag_iff _ tag).mp given)

end ChainMac

namespace Xcbc

theorem subkey_length {C : Type} [BlockCipher C] (cipher : C) (byte : UInt8) (key : Bytes)
    (made : (subkey cipher byte).1 = .ok key) : key.length = size := by
  rw [subkey] at made
  split at made
  · cases made
  · cases made
    exact Vector.length_toList

theorem subkeys_length {C : Type} [BlockCipher C] (cipher : C) (first second third : Bytes)
    (made : subkeys cipher = .ok (first, second, third)) :
    second.length = size ∧ third.length = size := by
  rw [subkeys] at made
  cases one : subkey cipher 0x01 with
  | mk key1 next =>
      cases two : subkey next 0x02 with
      | mk key2 last =>
          -- The masks are the second and the third key; the first is looked at before them.
          cases key1 with
          | error cause =>
              simp only [one] at made
              cases made
          | ok key1 =>
              cases key2 with
              | error cause =>
                  simp only [one, two] at made
                  cases made
              | ok key2 =>
                  cases three : (subkey last 0x03).1 with
                  | error cause =>
                      simp only [one, two, three] at made
                      cases made
                  | ok key3 =>
                      simp only [one, two, three] at made
                      cases made
                      exact ⟨subkey_length next _ _ (congrArg Prod.fst two),
                        subkey_length last _ _ three⟩

theorem of_key_awaits {Engine : Type} [BlockCipher Engine] (algorithm : CipherAlgorithm Engine)
    (key : Bytes) (fresh : Xcbc (KeyedCipher Engine)) (function : Block 16 → Block 16)
    (made : (ofKey algorithm key).run.value = .ok fresh)
    (honest : AnswersBy function fresh.cipher) :
    fresh.fullMask.length = 16 ∧ fresh.partMask.length = 16 ∧
      ChainMac.Awaits function fresh.fullMask fresh.partMask (some []) fresh.view := by
  rw [ofKey] at made
  by_cases narrow : algorithm.blockSize ≠ size
  · rw [if_pos narrow] at made
    cases made
  · rw [if_neg narrow] at made
    by_cases short : key.length ≠ size
    · simp only [if_pos short] at made
      cases made
    · simp only [if_neg short] at made
      obtain ⟨user, _, made⟩ := Attempt.bind_made _ _ fresh made
      obtain ⟨⟨chainKey, fullMask, partMask⟩, derived, made⟩ := Attempt.bind_made _ _ fresh made
      obtain ⟨cipher, _, made⟩ := Attempt.bind_made _ _ fresh made
      cases made
      obtain ⟨second, third⟩ := subkeys_length user chainKey fullMask partMask derived
      refine ⟨second, third, honest, rfl, rfl, CbcChain.empty_shaped 16, ?_⟩
      rintro known ⟨⟩
      exact CbcChain.empty_stands_for function

/-- The cipher under the user's key refuses nothing, and the one under the derived key its first
block. -/
def refusing : CipherAlgorithm (Planned (BlockFunction 16)) :=
  { name := "REFUSING", oid := [], blockSize := 16, keySizes := .range 0 64 1,
    flags := CipherFlags.none
    expand := fun key => .ok (.engine
      { cipher := Cmac.adding 16, plan := if key.head? = some 0 then [] else [some .failure] }) }

end Xcbc

/-- A refused length changes nothing. A refused last block does: the next tag that is given for the
message is that of what the refusals have made of it. Where data was refused it is that of the
bytes up to there, with nothing but the mask for their last block. A refused call is taken to hand
no bytes back: a `ForeignCipher` that has overwritten part of its block by then would leave those
bytes in the chained value, and is not covered here. -/
theorem refusals_left_behind {C Engine : Type} [BlockCipher C] [BlockCipher Engine] {size : Nat}
    (function : Block size → Block size) (cipher : C) (derived : Block 16 → Block 16)
    (algorithm : CipherAlgorithm Engine) (key : Bytes) :
    (∀ fresh : Cmac C, AnswersBy function cipher → Cmac.ofCipher cipher = .ok fresh →
      ChainMac.RefusalsRemain function fresh.fullMask fresh.partMask Cmac.serve fresh) ∧
    (∀ fresh : Xcbc (KeyedCipher Engine), (Xcbc.ofKey algorithm key).run.value = .ok fresh →
      AnswersBy derived fresh.cipher →
        ChainMac.RefusalsRemain derived fresh.fullMask fresh.partMask Xcbc.serve fresh) := by
  refine ⟨?cmac, ?xcbc⟩
  case cmac =>
    intro fresh honest made
    obtain ⟨sizes, first, second, awaits⟩ := Cmac.of_cipher_awaits function cipher fresh honest made
    exact ChainMac.refusals_remain function _ _ Cmac.view Cmac.view_injective Cmac.serve (by omega)
      first.width second.width
      (fun context message here =>
        context.serve_view (Cmac.awaits_agrees function _ _ message context here))
      fresh awaits
  case xcbc =>
    intro fresh made honest
    obtain ⟨full, partly, awaits⟩ := Xcbc.of_key_awaits algorithm key fresh derived made honest
    exact ChainMac.refusals_remain derived _ _ Xcbc.view Xcbc.view_injective Xcbc.serve (by decide)
      full partly (fun context message here => context.serve_view here.shaped.blocks.symm)
      fresh awaits

theorem both_spoiled_once :
    (∃ fresh, Cmac.ofCipher Cmac.refusing = .ok fresh ∧
      let refused := (CallRun.run Cmac.serve fresh [.absorb [1], .absorb [2], .finish 8]).2
      ∃ tag, (refused.finish 3).1 = .ok tag ∧
        tag = (Block.onBytes (Cmac.adding 8).apply
          (Bytes.xor (valueBefore (Cmac.adding 8).apply [1, 2])
            (remnant 8 fresh.fullMask fresh.partMask 2))).take 3) ∧
    ∃ fresh, (Xcbc.ofKey Xcbc.refusing (Bytes.zeros 16)).run.value = .ok fresh ∧
      let refused := (CallRun.run Xcbc.serve fresh [.absorb (List.replicate 17 1)]).2
      ∃ tag, (refused.finish 3).1 = .ok tag ∧
        tag = (Block.onBytes (Cmac.adding 16).apply
          (Bytes.xor (valueBefore (Cmac.adding 16).apply (List.replicate 16 1))
            fresh.fullMask)).take 3 := by
  refine ⟨⟨_, rfl, ?cmac⟩, ⟨_, rfl, ?xcbc⟩⟩
  case cmac =>
    have remain := (refusals_left_behind (Cmac.adding 8).apply Cmac.refusing
      (Cmac.adding 16).apply Xcbc.refusing (Bytes.zeros 16)).1 _ Cmac.refusing_answers rfl
    refine ⟨_, rfl, ?_⟩
    exact remain.finished [.absorb [1], .absorb [2]] [1, 2] rfl [8] (by decide)
      (by
        intro entry member
        exact ⟨.failure, by rw [List.mem_singleton.mp member]; rfl⟩) 3 _ rfl
  case xcbc =>
    have honest : AnswersBy (Cmac.adding 16).apply (KeyedCipher.engine
        { cipher := Cmac.adding 16, plan := [some .failure] : Planned (BlockFunction 16) }) :=
      AnswersBy.engine _ _ (Planned.answers_by _ _ ((Cmac.adding 16).enciphers.answers_by _ _) _)
    have remain := (refusals_left_behind (Cmac.adding 8).apply Cmac.refusing
      (Cmac.adding 16).apply Xcbc.refusing (Bytes.zeros 16)).2 _ rfl honest
    obtain ⟨taken, byte, more, cut, present, aligned, tags⟩ :=
      remain.absorbed [] [] rfl (List.replicate 17 1) .failure rfl
    have lengths := congrArg List.length cut
    have sixteen : taken.length = 16 := by
      have some := List.length_pos_iff.mpr present
      simp at lengths aligned some
      omega
    have front : List.replicate 16 1 = taken := by
      have fronts := congrArg (List.take 16) cut
      rwa [List.take_left' sixteen] at fronts
    rw [front]
    exact ⟨_, rfl, tags 3 _ rfl⟩

/-- The tag is asked for again, and is not that of the message. -/
theorem second_tag_spoiled :
    ∃ fresh, Cmac.ofCipher Cmac.refusing = .ok fresh ∧
      let absorbed := (CallRun.run Cmac.serve fresh [.absorb [1]]).2
      (absorbed.finish 4).1 = .error .failure ∧
        ∃ tag, ((absorbed.finish 4).2.finish 4).1 = .ok tag ∧
          tag ≠ (tagOf (Cmac.adding 8).apply fresh.fullMask fresh.partMask [1]).take 4 := by
  refine ⟨_, rfl, rfl, _, rfl, ?_⟩
  decide +kernel

end SymmetricKey
