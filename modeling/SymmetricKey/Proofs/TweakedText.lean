import SymmetricKey.Confidentiality.Xts
import SymmetricKey.Proofs.BlockFunctions
import SymmetricKey.Proofs.SegmentRuns
import Mathlib.Logic.Function.Iterate

/-!
The tweaked codebook over a function on blocks. All blocks but those that take
part in stealing go through on their own, each under the doubled tweak of the one
before it; the last whole block and the rest behind it go through together.
-/

namespace SymmetricKey.Xts

-- The tweak is added before and after the function.
def masked (function : Block 16 → Block 16) (tweak block : Bytes) : Bytes :=
  Bytes.xor (Block.onBytes function (Bytes.xor block tweak)) tweak

def bodyText (function : Block 16 → Block 16) : Bytes → List Bytes → Bytes
  | _, [] => []
  | tweak, block :: blocks =>
      masked function tweak block ++ bodyText function (nextTweak tweak) blocks

/-- The rest is filled up from the block before it and takes that block's place. -/
def stolenText (function : Block 16 → Block 16) (first second block rest : Bytes) : Bytes :=
  let lender := masked function first block
  masked function second (rest ++ lender.drop rest.length) ++ lender.take rest.length

def endingText (direction : Direction) (function : Block 16 → Block 16) (tweak ending : Bytes) :
    Bytes :=
  match direction with
  | .encrypt => stolenText function tweak (nextTweak tweak) (ending.take 16) (ending.drop 16)
  | .decrypt => stolenText function (nextTweak tweak) tweak (ending.take 16) (ending.drop 16)

def body (input : Bytes) : Bytes := input.take (plainBlocks input.length * 16)

def ending (input : Bytes) : Bytes := input.drop (plainBlocks input.length * 16)

def wholeText (direction : Direction) (function : Block 16 → Block 16) (tweak input : Bytes) :
    Bytes :=
  bodyText function tweak (Bytes.segments 16 (body input)) ++
    if input.length % 16 = 0 then []
    else endingText direction function (nextTweak^[plainBlocks input.length] tweak) (ending input)

theorem next_tweak_length (tweak : Bytes) : (nextTweak tweak).length = tweak.length :=
  Field.LittleEndian.double_length _ tweak

theorem iterate_tweak_length (count : Nat) (tweak : Bytes) :
    (nextTweak^[count] tweak).length = tweak.length := by
  induction count generalizing tweak with
  | zero => rfl
  | succ count ih => rw [Function.iterate_succ_apply, ih, next_tweak_length]

theorem body_length (input : Bytes) : (body input).length = plainBlocks input.length * 16 := by
  have inside : plainBlocks input.length * 16 ≤ input.length := by
    rw [plainBlocks, blockSize]
    split <;> omega
  exact List.length_take_of_le inside

theorem body_blocks (input : Bytes) :
    (Bytes.segments 16 (body input)).length = plainBlocks input.length := by
  rw [Bytes.segments_length 16 _ (by decide), body_length]
  omega

theorem ending_length (input : Bytes) (enough : 16 ≤ input.length) :
    (ending input).length = if input.length % 16 = 0 then 0 else 16 + input.length % 16 := by
  -- Without a rest the body is all, and with one a whole block stands before the rest.
  rw [ending, List.length_drop, plainBlocks, blockSize]
  split <;> omega

theorem body_ending (input : Bytes) : body input ++ ending input = input :=
  List.take_append_drop _ input

section Lengths
variable (function : Block 16 → Block 16) (tweak : Bytes) (wide : tweak.length = 16)
include wide

theorem masked_length (block : Bytes) : (masked function tweak block).length = 16 := by
  rw [masked, Bytes.xor_length, Block.on_bytes_length, wide, Nat.min_self]

theorem body_text_length (blocks : List Bytes) :
    (bodyText function tweak blocks).length = blocks.length * 16 := by
  induction blocks generalizing tweak with
  | nil => rw [bodyText, List.length_nil, List.length_nil, Nat.zero_mul]
  | cons block rest ih =>
      rw [bodyText, List.length_append, masked_length function tweak wide,
        ih _ ((next_tweak_length tweak).trans wide), List.length_cons, Nat.succ_mul, Nat.add_comm]

theorem stolen_text_length (second block rest : Bytes) (wideSecond : second.length = 16)
    (short : rest.length ≤ 16) :
    (stolenText function tweak second block rest).length = 16 + rest.length := by
  have lender := masked_length function tweak wide block
  rw [stolenText, List.length_append, masked_length function second wideSecond, List.length_take,
    lender, Nat.min_eq_left short]

theorem ending_text_length (direction : Direction) (ending : Bytes) (least : 16 ≤ ending.length)
    (most : ending.length ≤ 32) :
    (endingText direction function tweak ending).length = ending.length := by
  have wideNext := (next_tweak_length tweak).trans wide
  have rest : (ending.drop 16).length = ending.length - 16 := List.length_drop
  cases direction with
  | encrypt =>
      rw [endingText, stolen_text_length function tweak wide _ _ _ wideNext (by omega), rest]
      omega
  | decrypt =>
      rw [endingText, stolen_text_length function _ wideNext _ _ _ wide (by omega), rest]
      omega

theorem whole_text_length (direction : Direction) (input : Bytes) (enough : 16 ≤ input.length) :
    (wholeText direction function tweak input).length = input.length := by
  have front := body_text_length function tweak wide (Bytes.segments 16 (body input))
  have cut := congrArg List.length (body_ending input)
  have rest := ending_length input enough
  rw [body_blocks] at front
  rw [List.length_append, body_length] at cut
  rw [wholeText, List.length_append, front]
  by_cases whole : input.length % 16 = 0
  · rw [if_pos whole] at rest ⊢
    rw [List.length_nil]
    omega
  · rw [if_neg whole] at rest ⊢
    rw [ending_text_length function _ ((iterate_tweak_length _ tweak).trans wide) direction _
      (by omega) (by omega)]
    exact cut

end Lengths

section Steady
variable {C : Type} [BlockCipher C] (direction : Direction) (function : Block 16 → Block 16)
  (reached : C → Prop) (steady : Answers direction function reached)
include steady

theorem crypt_block_exact (cipher : C) (here : reached cipher) (tweak block : Bytes)
    (wide : tweak.length = 16) (whole : block.length = 16) :
    ∃ next, reached next ∧
      cryptBlock direction cipher tweak block = (.ok (masked function tweak block), next) := by
  have width : (block.xor tweak).length = 16 := by
    rw [Bytes.xor_length, wide, whole, Nat.min_self]
  obtain ⟨next, kept, answer⟩ := steady.call direction function reached cipher here _ width
  have asked : BlockCipher.cryptBlock direction cipher (block.xor tweak) blockSize =
      (.ok (function (Block.ofFront 16 (block.xor tweak))), next) := answer
  refine ⟨next, kept, ?_⟩
  rw [cryptBlock, asked]
  rfl

theorem run_exact (cipher : C) (here : reached cipher) (tweak : Bytes) (wide : tweak.length = 16)
    (blocks : List Bytes) (whole : ∀ block ∈ blocks, block.length = 16) :
    ∃ next, reached next ∧ (step direction).run cipher tweak blocks =
      { produced := bodyText function tweak blocks, register := nextTweak^[blocks.length] tweak
        cipher := next, refusal := none } := by
  induction blocks generalizing cipher tweak with
  | nil => exact ⟨cipher, here, rfl⟩
  | cons block rest ih =>
      obtain ⟨after, kept, answer⟩ :=
        crypt_block_exact direction function reached steady cipher here
          tweak block wide (whole block List.mem_cons_self)
      obtain ⟨last, keptLast, later⟩ := ih after kept (nextTweak tweak)
        ((next_tweak_length tweak).trans wide)
        (fun other member => whole other (List.mem_cons_of_mem block member))
      refine ⟨last, keptLast, ?_⟩
      rw [SegmentStep.run, step, answer]
      simp only [later]
      rfl

theorem steal_exact (cipher : C) (here : reached cipher) (first second block rest : Bytes)
    (wide : first.length = 16) (wideSecond : second.length = 16) (whole : block.length = 16)
    (short : rest.length ≤ 16) :
    ∃ next, reached next ∧ steal direction cipher first second block rest =
      (.ok (stolenText function first second block rest), next) := by
  obtain ⟨after, kept, lent⟩ :=
    crypt_block_exact direction function reached steady cipher here first
      block wide whole
  have lender := masked_length function first wide block
  have filled : (rest ++ (masked function first block).drop rest.length).length = 16 := by
    rw [List.length_append, List.length_drop, lender]
    omega
  obtain ⟨last, keptLast, answer⟩ := crypt_block_exact direction function reached steady after kept
    second _ wideSecond filled
  refine ⟨last, keptLast, ?_⟩
  rw [steal, lent]
  simp only [answer]
  rfl

theorem steal_in_order_exact (cipher : C) (here : reached cipher) (tweak ending : Bytes)
    (wide : tweak.length = 16) (least : 16 ≤ ending.length) (most : ending.length ≤ 32) :
    ∃ next, reached next ∧
      stealInOrder direction cipher tweak (ending.take 16) (ending.drop 16) =
        (.ok (endingText direction function tweak ending), next) := by
  have wideNext := (next_tweak_length tweak).trans wide
  have whole : (ending.take 16).length = 16 := List.length_take_of_le least
  have short : (ending.drop 16).length ≤ 16 := by
    rw [List.length_drop]
    omega
  cases direction with
  | encrypt =>
      exact steal_exact _ function reached steady cipher here _ _ _ _ wide wideNext whole short
  | decrypt =>
      exact steal_exact _ function reached steady cipher here _ _ _ _ wideNext wide whole short

theorem crypt_text_exact (cipher : C) (here : reached cipher) (tweak input : Bytes)
    (wide : tweak.length = 16) (enough : 16 ≤ input.length) :
    ∃ next, reached next ∧ cryptText direction cipher tweak input =
      { produced := wholeText direction function tweak input
        register := nextTweak^[plainBlocks input.length] tweak, cipher := next, refusal :=
          none } := by
  have whole := Bytes.segments_aligned 16 (body input) (by decide) _ (body_length input)
  obtain ⟨after, kept, front⟩ := run_exact direction function reached steady cipher here tweak wide
    (Bytes.segments 16 (body input)) whole
  have rest := ending_length input enough
  rw [body_blocks, body] at front
  rw [cryptText, wholeText, body]
  by_cases aligned : input.length % 16 = 0
  · refine ⟨after, kept, ?_⟩
    simp only [blockSize, front, aligned, or_true, if_true, List.append_nil]
  · rw [if_neg aligned] at rest
    obtain ⟨last, keptLast, answer⟩ :=
      steal_in_order_exact direction function reached steady after kept
        (nextTweak^[plainBlocks input.length] tweak) (ending input)
        ((iterate_tweak_length _ tweak).trans wide) (by omega) (by omega)
    rw [ending] at answer
    refine ⟨last, keptLast, ?_⟩
    simp only [blockSize, front, answer, aligned, Option.isSome_none, Bool.false_eq_true, or_false,
      if_false, ending]

theorem crypt_exact (positions : Block 16 → Block 16) (context : Xts C)
    (here : reached context.data) (positioned : Enciphers positions context.tweak)
    (position : Block 16) (input buffer : Bytes) (enough : 16 ≤ input.length)
    (fits : input.length ≤ buffer.length) :
    ∃ data tweak, reached data ∧ Enciphers positions tweak ∧
      crypt direction context position input buffer =
        { output := wholeText direction function (Block.onBytes positions position.toList) input ++
            buffer.drop input.length
          context := { data, tweak }, refusal := none } := by
  have block : position.toList.length = 16 := Vector.length_toList
  have wide := Block.on_bytes_length positions position.toList
  obtain ⟨tweak, keptTweak, start⟩ := positioned.call positions context.tweak position.toList block
  have asked : BlockCipher.encryptBlock context.tweak position.toList blockSize =
      (.ok (positions (Block.ofFront 16 position.toList)), tweak) := start
  obtain ⟨data, keptData, answer⟩ := crypt_text_exact direction function reached steady context.data
    here (Block.onBytes positions position.toList) input wide enough
  have width := whole_text_length function _ wide direction input enough
  have inside : ¬(input.length < blockSize ∨ buffer.length < input.length) := by
    rw [blockSize]
    omega
  refine ⟨data, tweak, keptData, keptTweak, ?_⟩
  rw [crypt, if_neg inside, asked]
  change (let progress :=
      cryptText direction context.data (Block.onBytes positions position.toList) input
    ({ output := progress.output buffer, context := { data := progress.cipher, tweak }
       refusal := progress.refusal } : Outcome C)) = _
  simp only [answer, Progress.output]
  rw [Bytes.overlay_fitting buffer _ (by omega), width]

end Steady

end SymmetricKey.Xts
