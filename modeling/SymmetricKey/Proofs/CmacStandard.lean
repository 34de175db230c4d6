import SymmetricKey.Proofs.BlockDoubling
import SymmetricKey.Proofs.ChainMacs

/-!
CMAC as its standard has it: the masks of the last block are multiples of the
enciphered zeros in a field of 2^64 or 2^128 elements, and the tag is that of
the message in one piece, however it was cut and whatever came before it.
-/

namespace SymmetricKey.Cmac

open Polynomial
open Field.BigEndian (polynomial modulus)
open CbcChain (tagOf)

noncomputable def fieldModulus (size : Nat) : (ZMod 2)[X] :=
  if size = 8 then Field.modulus64 else Field.modulus128

theorem field_modulus_exact (size : Nat) (reduction : UInt8)
    (defined : reduction? size = some reduction) :
    (size = 8 ∨ size = 16) ∧ modulus size reduction = fieldModulus size := by
  by_cases narrow : size = 8
  · subst narrow
    cases defined
    rw [Field.BigEndian.modulus_of_reduction64, fieldModulus, if_pos rfl]
    exact ⟨Or.inl rfl, rfl⟩
  · by_cases wide : size = 16
    · subst wide
      cases defined
      rw [Field.BigEndian.modulus_of_reduction128, fieldModulus, if_neg (by decide)]
      exact ⟨Or.inr rfl, rfl⟩
    · rw [reduction?, if_neg narrow, if_neg wide] at defined
      cases defined

/-- The enciphered zeros times a power of `x`, in the field. -/
structure IsMask {size : Nat} (function : Block size → Block size) (power : Nat) (mask : Bytes) :
    Prop where
  width : mask.length = size
  product : polynomial mask =
    (X ^ power * polynomial (Block.onBytes function (Bytes.zeros size))) %ₘ fieldModulus size

theorem mask_unique {size : Nat} (function : Block size → Block size) (power : Nat)
    (left right : Bytes) (first : IsMask function power left)
    (second : IsMask function power right) : left = right :=
  Field.BigEndian.polynomial_injective left right (first.width.trans second.width.symm)
    (first.product.trans second.product.symm)

theorem doubled_masks {size : Nat} (function : Block size → Block size) (reduction : UInt8)
    (defined : reduction? size = some reduction) :
    let zeros := Block.onBytes function (Bytes.zeros size)
    IsMask function 1 (Field.BigEndian.double reduction zeros) ∧
      IsMask function 2
        (Field.BigEndian.double reduction (Field.BigEndian.double reduction zeros)) := by
  intro zeros
  obtain ⟨sizes, field⟩ := field_modulus_exact size reduction defined
  have width : zeros.length = size := Block.on_bytes_length function _
  have some : zeros ≠ [] := List.length_pos_iff.mp (by omega)
  have doubled : (Field.BigEndian.double reduction zeros).length = size :=
    (Field.BigEndian.double_length reduction zeros).trans width
  refine ⟨⟨doubled, ?_⟩, ⟨(Field.BigEndian.double_length reduction _).trans doubled, ?_⟩⟩
  · rw [Field.BigEndian.double_exact reduction zeros some, width, field, pow_one]
  · have twice := Field.BigEndian.double_iterate_exact reduction zeros some 2
    rw [width, field] at twice
    exact twice

section Runs
variable {C : Type} [BlockCipher C] {size : Nat} (function : Block size → Block size)

theorem of_cipher_awaits (cipher : C) (fresh : Cmac C) (honest : AnswersBy function cipher)
    (made : ofCipher cipher = .ok fresh) :
    (size = 8 ∨ size = 16) ∧ IsMask function 1 fresh.fullMask ∧ IsMask function 2 fresh.partMask ∧
      ChainMac.Awaits function fresh.fullMask fresh.partMask (some []) fresh.view := by
  have blocks := honest.block_size function cipher
  subst blocks
  rw [ofCipher] at made
  cases defined : reduction? (BlockCipher.blockSize cipher) with
  | none =>
      rw [defined] at made
      cases made
  | some reduction =>
      obtain ⟨next, kept, answered | ⟨cause, refused⟩⟩ :=
        honest.call function cipher (Bytes.zeros _) List.length_replicate
      · simp only [defined, answered] at made
        cases made
        obtain ⟨first, second⟩ := doubled_masks function reduction defined
        refine ⟨(field_modulus_exact _ reduction defined).1, first, second, kept, rfl, rfl,
          CbcChain.empty_shaped _, ?_⟩
        rintro known ⟨⟩
        exact CbcChain.empty_stands_for function
      · simp only [defined, refused] at made
        cases made

theorem awaits_agrees (full partly : Bytes) (message : Option Bytes) (context : Cmac C)
    (awaits : context.view.Awaits function full partly message) :
    context.size = context.chain.blockSize :=
  (awaits.honest.block_size function context.cipher).trans awaits.shaped.blocks.symm

theorem absorb_cut (context : Cmac C) (data more : Bytes)
    (taken : (context.absorb (data ++ more)).1 = none) :
    (context.absorb data).1 = none ∧
      context.absorb (data ++ more) = (context.absorb data).2.absorb more := by
  have cut := CbcChain.absorb_append context.cipher context.chain data more
  rw [absorb, cut] at taken
  cases first : (CbcChain.absorb context.cipher context.chain data).refusal with
  | some cause => simp [first] at taken
  | none =>
      refine ⟨first, ?_⟩
      rw [absorb, cut]
      simp [first, absorb]

theorem absorb_pieces (context : Cmac C) (pieces : List Bytes)
    (taken : (context.absorb pieces.flatten).1 = none) :
    CallRun.run serve context (pieces.map .absorb) =
      (pieces.map fun piece => (.absorb piece, .done), (context.absorb pieces.flatten).2) := by
  induction pieces generalizing context with
  | nil => rfl
  | cons piece rest ih =>
      obtain ⟨first, whole⟩ := absorb_cut context piece rest.flatten taken
      rw [List.flatten_cons, whole] at taken ⊢
      have answer : serve context (.absorb piece) = (.done, (context.absorb piece).2) := by
        change (MacAnswer.ofRefusal (context.absorb piece).1, (context.absorb piece).2) = _
        rw [first]
        rfl
      rw [List.map_cons, CallRun.run, answer, ih _ taken]
      rfl

-- A context is not to be had only for another block size or where the zeros are refused.
theorem of_cipher_refused (cipher : C) (blocks : BlockCipher.blockSize cipher = size)
    (cause : Error) (refused : ofCipher cipher = .error cause) :
    size ≠ 8 ∧ size ≠ 16 ∧ cause = .invalidParameter ∨
      (BlockCipher.encryptBlock cipher (Bytes.zeros size) size).1 = .error cause := by
  subst blocks
  rw [ofCipher] at refused
  cases defined : reduction? (BlockCipher.blockSize cipher) with
  | none =>
      rw [defined] at refused
      cases refused
      left
      rw [reduction?] at defined
      split_ifs at defined with narrow wide
      exact ⟨narrow, wide, rfl⟩
  | some reduction =>
      right
      simp only [defined] at refused
      cases called :
        BlockCipher.encryptBlock cipher (Bytes.zeros _) (BlockCipher.blockSize cipher) with
      | mk outcome next =>
          rw [called] at refused
          cases outcome with
          | error other =>
              cases refused
              rfl
          | ok answer => cases refused

/-- As long as the cipher has refused nothing since a message began, its tag is the standard's,
also over a cipher that refused before. Neither data nor a length in range is refused unless the
cipher refuses a call for it; a length out of range changes nothing. Where data is cut is not
seen. -/
theorem tags_as_standard (cipher : C) (honest : AnswersBy function cipher) :
    (∀ cause, ofCipher cipher = .error cause →
      size ≠ 8 ∧ size ≠ 16 ∧ cause = .invalidParameter ∨
        (BlockCipher.encryptBlock cipher (Bytes.zeros size) size).1 = .error cause) ∧
    ∀ fresh, ofCipher cipher = .ok fresh →
      (size = 8 ∨ size = 16) ∧ (∃ full, IsMask function 1 full) ∧
      (∃ partly, IsMask function 2 partly) ∧
      ∀ calls,
        let history := (CallRun.run serve fresh calls).1
        let context := (CallRun.run serve fresh calls).2
        (∀ full partly, IsMask function 1 full → IsMask function 2 partly →
          ∀ message length tag, ChainMac.message? size history = some message →
            (context.finish length).1 = .ok tag →
              tag = (tagOf function full partly message).take length) ∧
        (∀ length, length = 0 ∨ size < length →
          context.finish length = (.error .invalidParameter, context)) ∧
        (∀ length cause, 1 ≤ length ∧ length ≤ size → (context.finish length).1 = .error cause →
          ∃ block, block.length = size ∧
            (BlockCipher.encryptBlock context.cipher block size).1 = .error cause) ∧
        (∀ data cause, (context.absorb data).1 = some cause →
          ∃ last block, Answered size context.cipher last ∧ block.length = size ∧
            BlockCipher.encryptBlock last block size =
              (.error cause, (context.absorb data).2.cipher)) ∧
        (∀ pieces : List Bytes, (context.absorb pieces.flatten).1 = none →
          CallRun.run serve context (pieces.map .absorb) =
            (pieces.map fun piece => (.absorb piece, .done),
              (context.absorb pieces.flatten).2)) := by
  refine ⟨of_cipher_refused cipher (honest.block_size function cipher), fun fresh made => ?_⟩
  obtain ⟨sizes, first, second, awaits⟩ := of_cipher_awaits function cipher fresh honest made
  have positive : 0 < size := by omega
  refine ⟨sizes, ⟨_, first⟩, ⟨_, second⟩, ?_⟩
  intro calls history context
  -- The invariant of the run. It holds with and without a message under way.
  have here : ChainMac.Awaits function fresh.fullMask fresh.partMask
      (ChainMac.message? size history) context.view :=
    ChainMac.run_awaits view serve function _ _ positive first.width second.width
      (fun context message awaits =>
        serve_view context (awaits_agrees function _ _ message context awaits))
      fresh awaits calls
  have seen := finish_view context (awaits_agrees function _ _ _ context here)
  refine ⟨?tagged, ?outside, ?refused, ?broken, absorb_pieces context⟩
  case tagged =>
    intro full partly isFull isPartly message length tag under given
    cases mask_unique function 1 _ full first isFull
    cases mask_unique function 2 _ partly second isPartly
    rw [under] at here
    apply ChainMac.finish_tag function _ _ positive first.width second.width context.view message
      here length tag
    rw [seen]
    exact given
  case outside =>
    intro length outside
    have size : context.size = size := here.honest.block_size function context.cipher
    rw [finish, size, check_tag_size_outside length 1 _ (by omega)]
  case refused =>
    intro length cause inside refused
    apply ChainMac.finish_refused function _ _ _ context.view here first.width second.width length
      inside cause
    rw [seen]
    exact refused
  case broken =>
    intro data cause refused
    obtain ⟨blocks, value, -⟩ := here.shaped
    have whole : context.chain.value.length = context.chain.blockSize := value.trans blocks.symm
    have failed := CbcChain.absorb_refused context.cipher context.chain whole data cause refused
    have width : context.chain.blockSize = size := blocks
    rw [width] at failed
    exact failed

end Runs

def adding (size : Nat) : BlockFunction size :=
  ⟨fun block => Block.ofFront size (block.toList.map (· + 0x81))⟩

/-- Gives the masks, refuses the first block of a message and then nothing more. -/
def refusing : Planned (BlockFunction 8) := { cipher := adding 8, plan := [none, some .failure] }

theorem refusing_answers : AnswersBy (adding 8).apply refusing :=
  Planned.answers_by _ _ ((adding 8).enciphers.answers_by _ _) _

theorem tag_behind_a_reset :
    ∃ fresh, ofCipher refusing = .ok fresh ∧
      let refused := CallRun.run serve fresh [.absorb [1, 2, 3, 4, 5, 6, 7, 8, 9]]
      let anew := CallRun.run serve refused.2 [.reset (), .absorb [1], .absorb [], .absorb [2]]
      ∃ full partly tag, IsMask (adding 8).apply 1 full ∧ IsMask (adding 8).apply 2 partly ∧
        (anew.2.finish 4).1 = .ok tag ∧
        tag = (tagOf (adding 8).apply full partly [1, 2]).take 4 := by
  refine ⟨_, rfl, ?_⟩
  obtain ⟨_, ⟨full, first⟩, ⟨partly, second⟩, answers⟩ :=
    (tags_as_standard (adding 8).apply refusing refusing_answers).2 _ rfl
  refine ⟨full, partly, _, first, second, rfl, ?_⟩
  exact (answers [.absorb [1, 2, 3, 4, 5, 6, 7, 8, 9], .reset (), .absorb [1], .absorb [],
    .absorb [2]]).1 full partly first second [1, 2] 4 _ rfl rfl

end SymmetricKey.Cmac
