import SymmetricKey.Proofs.TweakedText

/-!
The tweaked codebook over a permutation of blocks. The call in the opposite
direction cuts a text of the same length at the same places and meets the same
tweaks, in the stolen blocks in the opposite order, so that each block and the
ending go back on their own.
-/

namespace SymmetricKey

def Direction.opposite : Direction → Direction
  | .encrypt => .decrypt
  | .decrypt => .encrypt

namespace Xts

section Pieces
variable (forth back : Block 16 → Block 16) (undone : ∀ block, back (forth block) = block)
include undone

theorem masked_undone (tweak block : Bytes) (wide : tweak.length = 16) (whole : block.length = 16) :
    masked back tweak (masked forth tweak block) = block := by
  have summed : (Bytes.xor block tweak).length = 16 := by
    rw [Bytes.xor_length, whole, wide, Nat.min_self]
  have answered : (Block.onBytes forth (Bytes.xor block tweak)).length = 16 :=
    Block.on_bytes_length _ _
  have inner := Bytes.xor_cancel (Block.onBytes forth (Bytes.xor block tweak)) tweak (by omega)
  have restored := Block.on_bytes_undone forth back undone (Bytes.xor block tweak) summed
  rw [masked, masked, inner, restored]
  exact Bytes.xor_cancel block tweak (by omega)

theorem body_text_undone (tweak : Bytes) (wide : tweak.length = 16) (blocks : List Bytes)
    (whole : ∀ block ∈ blocks, block.length = 16) :
    bodyText back tweak (Bytes.segments 16 (bodyText forth tweak blocks)) = blocks.flatten := by
  induction blocks generalizing tweak with
  | nil =>
      rw [bodyText, Bytes.segments_nil]
      rfl
  | cons block rest ih =>
      have first :=
        masked_undone forth back undone tweak block wide (whole block List.mem_cons_self)
      have later := ih (nextTweak tweak) ((next_tweak_length tweak).trans wide)
        (fun other member => whole other (List.mem_cons_of_mem block member))
      rw [bodyText, Bytes.segments_block 16 _ _ (by decide) (masked_length forth tweak wide block),
        bodyText, first, later, List.flatten_cons]

theorem stolen_text_undone (first second block rest : Bytes) (wide : first.length = 16)
    (wideSecond : second.length = 16) (whole : block.length = 16) (short : rest.length ≤ 16) :
    stolenText back second first ((stolenText forth first second block rest).take 16)
      ((stolenText forth first second block rest).drop 16) = block ++ rest := by
  -- The stolen bytes come back from behind the rest, and with them the lender.
  have width := masked_length forth first wide block
  have lent := masked_undone forth back undone first block wide whole
  simp only [stolenText]
  generalize masked forth first block = lender at width lent ⊢
  have filled : (rest ++ lender.drop rest.length).length = 16 := by
    rw [List.length_append, List.length_drop, width]
    omega
  have stolen : (lender.take rest.length).length = rest.length := List.length_take_of_le (by omega)
  have covered := masked_length forth second wideSecond (rest ++ lender.drop rest.length)
  have opened := masked_undone forth back undone second _ wideSecond filled
  rw [List.take_left' covered, List.drop_left' covered, opened, stolen, List.drop_left,
    List.take_left, List.take_append_drop, lent]

theorem ending_text_undone (direction : Direction) (tweak ending : Bytes) (wide : tweak.length = 16)
    (least : 16 ≤ ending.length) (most : ending.length ≤ 32) :
    endingText direction.opposite back tweak (endingText direction forth tweak ending) =
      ending := by
  have wideNext := (next_tweak_length tweak).trans wide
  have whole : (ending.take 16).length = 16 := List.length_take_of_le least
  have short : (ending.drop 16).length ≤ 16 := by
    rw [List.length_drop]
    omega
  have cut := List.take_append_drop 16 ending
  cases direction with
  | encrypt =>
      exact (stolen_text_undone forth back undone tweak (nextTweak tweak) _ _ wide wideNext whole
        short).trans cut
  | decrypt =>
      exact (stolen_text_undone forth back undone (nextTweak tweak) tweak _ _ wideNext wide whole
        short).trans cut

end Pieces

section Whole
variable (forth back : Block 16 → Block 16) (direction : Direction) (tweak input : Bytes)
  (wide : tweak.length = 16) (enough : 16 ≤ input.length)
include wide enough

theorem whole_text_cut :
    body (wholeText direction forth tweak input) =
        bodyText forth tweak (Bytes.segments 16 (body input)) ∧
      ending (wholeText direction forth tweak input) =
        if input.length % 16 = 0 then []
        else endingText direction forth (nextTweak^[plainBlocks input.length] tweak)
          (ending input) := by
  have width := whole_text_length forth tweak wide direction input enough
  have front := body_text_length forth tweak wide (Bytes.segments 16 (body input))
  rw [body_blocks] at front
  rw [body, ending, width, wholeText]
  constructor
  · exact List.take_left' front
  · exact List.drop_left' front

theorem whole_text_undone (undone : ∀ block, back (forth block) = block) :
    wholeText direction.opposite back tweak (wholeText direction forth tweak input) = input := by
  have width := whole_text_length forth tweak wide direction input enough
  have rest := ending_length input enough
  obtain ⟨bodyCut, endingCut⟩ := whole_text_cut forth direction tweak input wide enough
  have blocks := Bytes.segments_aligned 16 (body input) (by decide) _ (body_length input)
  have bodyBack := body_text_undone forth back undone tweak wide _ blocks
  have whole := body_ending input
  rw [Bytes.segments_flatten 16 _ (by decide)] at bodyBack
  rw [wholeText, width, bodyCut, endingCut, bodyBack]
  by_cases aligned : input.length % 16 = 0
  · rw [if_pos aligned] at rest ⊢
    rw [List.length_eq_zero_iff.mp rest] at whole
    exact whole
  · rw [if_neg aligned] at rest ⊢
    rw [if_neg aligned, ending_text_undone forth back undone direction _ _
      ((iterate_tweak_length _ tweak).trans wide) (by omega) (by omega)]
    exact whole

end Whole

/-- Whatever the first call makes of an input of at least one block, the second one takes back. No
byte behind the input is written. -/
def Restores {C : Type} (forth back : Xts C → Block 16 → Bytes → Bytes → Outcome C)
    (context : Xts C) : Prop :=
  ∀ position input buffer again, 16 ≤ input.length → input.length ≤ buffer.length →
    input.length ≤ again.length →
    let first := forth context position input buffer
    let second := back first.context position (first.output.take input.length) again
    first.refusal = none ∧ first.output.length = buffer.length ∧
      first.output.drop input.length = buffer.drop input.length ∧
      second.refusal = none ∧ second.output = input ++ again.drop input.length

section Calls
variable {C : Type} [BlockCipher C]

theorem crypt_undone (direction : Direction) (forth back positions : Block 16 → Block 16)
    (undone : ∀ block, back (forth block) = block) (reached : C → Prop)
    (steady : Answers direction forth reached)
    (steadyBack : Answers direction.opposite back reached) (context : Xts C)
    (here : reached context.data) (positioned : Enciphers positions context.tweak) :
    Restores (crypt direction) (crypt direction.opposite) context := by
  intro position input buffer again enough fits fitsAgain first second
  have wide := Block.on_bytes_length positions position.toList
  have width := whole_text_length forth _ wide direction input enough
  have restored := whole_text_undone forth back direction _ input wide enough undone
  obtain ⟨data, tweak, kept, keptTweak, there⟩ :=
    crypt_exact direction forth reached steady positions
      context here positioned position input buffer enough fits
  have left : first = _ := there
  have text : first.output.take input.length =
      wholeText direction forth (Block.onBytes positions position.toList) input := by
    rw [left]
    exact List.take_left' width
  obtain ⟨_, _, _, _, answer⟩ := crypt_exact direction.opposite back reached steadyBack positions
    first.context (by rw [left]; exact kept) (by rw [left]; exact keptTweak) position
    (first.output.take input.length) again (by rw [text, width]; exact enough)
    (by rw [text, width]; exact fitsAgain)
  have taken : second = _ := answer
  refine ⟨congrArg Outcome.refusal left, ?length, ?beyond, congrArg Outcome.refusal taken,
    ?restored⟩
  case length =>
    rw [left, List.length_append, List.length_drop, width]
    omega
  case beyond =>
    rw [left]
    exact List.drop_left' width
  case restored => rw [taken, text, restored, width]

/-- Over a permutation of blocks, both directions take back what the other one did, whatever the
length. Too short an input or too little room is refused, and then nothing has changed. -/
theorem directions_undo_each_other :
    (∀ (forward backward positions : Block 16 → Block 16) (context : Xts C),
      Permutes forward backward context.data → Enciphers positions context.tweak →
        Restores encrypt decrypt context ∧ Restores decrypt encrypt context) ∧
    ∀ call : Xts C → Block 16 → Bytes → Bytes → Outcome C, call = encrypt ∨ call = decrypt →
      ∀ context position input buffer, input.length < 16 ∨ buffer.length < input.length →
        call context position input buffer =
          { output := buffer, context, refusal := some .invalidLength } := by
  constructor
  · intro forward backward positions context permutes positioned
    obtain ⟨reached, here, forwards, backwards⟩ := permutes.states
    constructor
    · exact crypt_undone .encrypt forward backward positions permutes.undone reached forwards
        backwards context here positioned
    · exact crypt_undone .decrypt backward forward positions permutes.redone reached backwards
        forwards context here positioned
  · intro call known context position input buffer outside
    rcases known with rfl | rfl
    · exact if_pos outside
    · exact if_pos outside

end Calls

-- Adds a number to every byte and reads the sums backwards.
structure Shifted where
  amount : UInt8

instance : BlockPermutation Shifted where
  size := 16
  encrypt cipher block := (block.map (· + cipher.amount)).reverse
  decrypt cipher block := block.reverse.map (· - cipher.amount)

theorem shifted_permutes (cipher : Shifted) :
    Permutes (BlockPermutation.encrypt cipher) (BlockPermutation.decrypt cipher) cipher := by
  apply BlockPermutation.permutes
  · intro block
    apply Vector.ext
    intro index inside
    simp [BlockPermutation.encrypt, BlockPermutation.decrypt]
  · intro block
    apply Vector.ext
    intro index inside
    simp [BlockPermutation.encrypt, BlockPermutation.decrypt]

/-- One byte behind two blocks goes through and comes back; fifteen bytes are not taken. -/
theorem byte_behind_two_blocks :
    let context : Xts Shifted := { data := ⟨5⟩, tweak := ⟨9⟩ }
    let position := Block.ofFront 16 [1, 2]
    let first := encrypt context position (List.replicate 33 3) (List.replicate 35 0)
    let second := decrypt first.context position (first.output.take 33) (List.replicate 34 7)
    first.output.take 33 ≠ List.replicate 33 3 ∧ first.output.drop 33 = [0, 0] ∧
      second.refusal = none ∧ second.output = List.replicate 33 3 ++ [7] ∧
      (decrypt context position (List.replicate 15 3) []).refusal = some .invalidLength := by
  intro context position first second
  obtain ⟨both, refused⟩ := directions_undo_each_other (C := Shifted)
  obtain ⟨_, _, beyond, finished, restored⟩ := (both _ _ _ context (shifted_permutes context.data)
    (BlockPermutation.enciphers context.tweak)).1 position (List.replicate 33 3)
    (List.replicate 35 0)
    (List.replicate 34 7) (by decide) (by decide) (by decide)
  refine ⟨?_, beyond, finished, restored, ?_⟩
  · decide +kernel
  · rw [refused decrypt (Or.inr rfl) context position (List.replicate 15 3) [] (by decide)]

end Xts

end SymmetricKey
