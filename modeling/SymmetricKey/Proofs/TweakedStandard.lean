import SymmetricKey.Proofs.BlockDoubling
import SymmetricKey.Proofs.TweakedText

/-!
The tweaked codebook as IEEE 1619 has it. The tweak of a block is the enciphered
position times a power of `x` in the field of 2^128 elements, its bytes read from
the low end, and the power is the block's number. Only a last whole block in front
of a rest goes through under the number behind its own.
-/

namespace SymmetricKey.Xts

open Polynomial
open Field.LittleEndian (polynomial)

/-- The enciphered position times a power of `x`, in the field. -/
structure IsTweak (first : Block 16) (power : Nat) (tweak : Bytes) : Prop where
  width : tweak.length = 16
  product : polynomial tweak = (X ^ power * polynomial first.toList) %ₘ Field.modulus128

theorem tweak_unique (first : Block 16) (power : Nat) (left right : Bytes)
    (one : IsTweak first power left) (other : IsTweak first power right) : left = right :=
  Field.LittleEndian.polynomial_injective left right (one.width.trans other.width.symm)
    (one.product.trans other.product.symm)

theorem iterate_is_tweak (first : Block 16) (power : Nat) :
    IsTweak first power (nextTweak^[power] first.toList) := by
  have width : first.toList.length = 16 := Vector.length_toList
  have some : first.toList ≠ [] := List.length_pos_iff.mp (by omega)
  have doubled := Field.LittleEndian.double_iterate_exact Field.reduction128 first.toList some power
  rw [width, Field.BigEndian.modulus_of_reduction128] at doubled
  constructor
  case width => exact (iterate_tweak_length power first.toList).trans width
  case product => exact doubled

def blockAt (index : Nat) (bytes : Bytes) : Bytes := (bytes.drop (16 * index)).take 16

/-- The text of the standard under one tweak for each block. The rest is completed by the tail of
the block that lends, and what that block keeps stands at the end. -/
structure IsText (function : Block 16 → Block 16) (tweaks : Nat → Bytes) (plain text : Bytes) :
    Prop where
  length : text.length = plain.length
  apart : ∀ index, index < plain.length / 16 →
    plain.length % 16 = 0 ∨ index + 1 < plain.length / 16 →
      blockAt index text = masked function (tweaks index) (blockAt index plain)
  stolen : plain.length % 16 ≠ 0 →
    let whole := plain.length / 16
    let lender := masked function (tweaks (whole - 1)) (blockAt (whole - 1) plain)
    blockAt (whole - 1) text =
        masked function (tweaks whole)
          (plain.drop (16 * whole) ++ lender.drop (plain.length % 16)) ∧
      text.drop (16 * whole) = lender.take (plain.length % 16)

theorem block_at_front (index : Nat) (front more : Bytes)
    (inside : 16 * (index + 1) ≤ front.length) :
    blockAt index (front ++ more) = blockAt index front := by
  have left : 16 ≤ (front.drop (16 * index)).length := by
    rw [List.length_drop]
    omega
  rw [blockAt, List.drop_append_of_le_length (by omega), List.take_append_of_le_length left,
    blockAt]

theorem body_block_at (input : Bytes) (index : Nat) (inside : index < plainBlocks input.length) :
    (Bytes.segments 16 (body input))[index]? = some (blockAt index input) := by
  have width := body_length input
  have count : (body input).length / 16 = plainBlocks input.length := by omega
  have front := block_at_front index (body input) (ending input) (by omega)
  rw [body_ending] at front
  rw [Bytes.segments_whole 16 _ (by decide) _ width, Bytes.wholeBlocks, count, List.getElem?_map,
    List.getElem?_range inside, front]
  rfl

section Text
variable (function : Block 16 → Block 16) (tweak : Bytes)

theorem whole_text_stolen (input : Bytes) (partly : input.length % 16 ≠ 0) :
    wholeText .encrypt function tweak input =
      bodyText function tweak (Bytes.segments 16 (body input)) ++
        stolenText function (nextTweak^[plainBlocks input.length] tweak)
          (nextTweak^[plainBlocks input.length + 1] tweak)
          (blockAt (plainBlocks input.length) input)
          (input.drop (16 * (plainBlocks input.length + 1))) := by
  -- Behind the plain blocks one block lends, and the rest goes through under the number behind
  -- it.
  have block : (ending input).take 16 = blockAt (plainBlocks input.length) input := by
    rw [ending, blockAt, Nat.mul_comm]
  have rest : (ending input).drop 16 = input.drop (16 * (plainBlocks input.length + 1)) := by
    rw [ending, List.drop_drop, ← Nat.succ_mul, Nat.mul_comm]
  rw [wholeText, if_neg partly, endingText, block, rest, Function.iterate_succ_apply']

variable (wide : tweak.length = 16)
include wide

theorem body_text_block_at (blocks : List Bytes) (index : Nat) (block : Bytes)
    (found : blocks[index]? = some block) :
    blockAt index (bodyText function tweak blocks) =
      masked function (nextTweak^[index] tweak) block := by
  induction blocks generalizing tweak index with
  | nil => cases found
  | cons first rest ih =>
      have width := masked_length function tweak wide first
      cases index with
      | zero =>
          cases found
          exact List.take_left' width
      | succ index =>
          have later := ih (nextTweak tweak) ((next_tweak_length tweak).trans wide) index found
          have further : 16 * (index + 1) = (masked function tweak first).length + 16 * index := by
            omega
          rw [bodyText, blockAt, further, List.drop_length_add_append, Function.iterate_succ_apply]
          exact later

theorem whole_text_is_text (input : Bytes) (enough : 16 ≤ input.length) :
    IsText function (nextTweak^[·] tweak) input (wholeText .encrypt function tweak input) := by
  have front := body_text_length function tweak wide (Bytes.segments 16 (body input))
  rw [body_blocks] at front
  constructor
  case length => exact whole_text_length function tweak wide .encrypt input enough
  case apart =>
    intro index inside plain
    have count : index < plainBlocks input.length := by
      rw [plainBlocks, blockSize]
      split <;> omega
    rw [wholeText, block_at_front index _ _ (by omega)]
    exact body_text_block_at function tweak wide _ index _ (body_block_at input index count)
  case stolen =>
    intro partly whole lender
    have count : plainBlocks input.length = whole - 1 := if_neg partly
    have last : whole - 1 + 1 = whole := by omega
    have text := whole_text_stolen function tweak input partly
    have short : (input.drop (16 * whole)).length = input.length % 16 := by
      rw [List.length_drop]
      omega
    have covered := masked_length function _ ((iterate_tweak_length whole tweak).trans wide)
    rw [count, last, stolenText, short] at text
    constructor
    · rw [text, blockAt, List.drop_left' (by omega), List.take_left' (covered _)]
    · rw [text, ← List.append_assoc,
        List.drop_left' (by rw [List.length_append, front, covered, count]; omega)]

end Text

/-- Over ciphers that never refuse, every input of at least one block becomes the text of the
standard, and what lies behind it in the buffer stays. -/
theorem text_as_standard {C : Type} [BlockCipher C] (function positions : Block 16 → Block 16)
    (context : Xts C) (steady : Enciphers function context.data)
    (positioned : Enciphers positions context.tweak) (position : Block 16) (input buffer : Bytes)
    (enough : 16 ≤ input.length) (fits : input.length ≤ buffer.length) :
    let outcome := encrypt context position input buffer
    outcome.refusal = none ∧ outcome.output.drop input.length = buffer.drop input.length ∧
      (∃ tweaks : Nat → Bytes, ∀ index, IsTweak (positions position) index (tweaks index)) ∧
      ∀ tweaks, (∀ index, IsTweak (positions position) index (tweaks index)) →
        IsText function tweaks input (outcome.output.take input.length) := by
  intro outcome
  obtain ⟨reached, here, answers⟩ := steady.answers function context.data
  obtain ⟨_, _, _, _, answer⟩ :=
    crypt_exact .encrypt function reached answers positions context here
      positioned position input buffer enough fits
  have left : outcome = _ := answer
  have start : Block.onBytes positions position.toList = (positions position).toList := by
    rw [Block.onBytes, Block.of_front_of_list]
  have wide : (positions position).toList.length = 16 := Vector.length_toList
  have width := whole_text_length function _ wide .encrypt input enough
  rw [start] at left
  refine ⟨congrArg Outcome.refusal left, ?_, ⟨_, iterate_is_tweak (positions position)⟩, ?_⟩
  · rw [left]
    exact List.drop_left' width
  · intro tweaks powers
    have same : tweaks = (nextTweak^[·] (positions position).toList) := by
      funext index
      exact tweak_unique _ index _ _ (powers index) (iterate_is_tweak _ index)
    rw [left, same, List.take_left' width]
    exact whole_text_is_text function _ wide input enough

def adding (amount : UInt8) : BlockFunction 16 := ⟨fun block => block.map (· + amount)⟩

/-- Two blocks and a rest of one byte; the tweak of the rest has been reduced. -/
theorem rest_behind_two_blocks :
    let context : Xts (BlockFunction 16) := { data := adding 5, tweak := adding 0x81 }
    let outcome := encrypt context (Block.ofFront 16 [1, 2]) (List.replicate 33 3)
      (List.replicate 34 0)
    outcome.refusal = none ∧ outcome.output.length = 34 ∧
      ∃ tweaks : Nat → Bytes,
      (∀ index, IsTweak ((adding 0x81).apply (Block.ofFront 16 [1, 2])) index (tweaks index)) ∧
        IsText (adding 5).apply tweaks (List.replicate 33 3) (outcome.output.take 33) := by
  intro context outcome
  obtain ⟨finished, _, ⟨tweaks, powers⟩, text⟩ := text_as_standard _ _ context (adding 5).enciphers
    (adding 0x81).enciphers (Block.ofFront 16 [1, 2]) (List.replicate 33 3) (List.replicate 34 0)
    (by decide) (by decide)
  exact ⟨finished, Bytes.overlay_length _ _, tweaks, powers, text tweaks powers⟩

end SymmetricKey.Xts
