import SymmetricKey.Proofs.BufferedSegments
import SymmetricKey.Proofs.TweakedText

/-!
Tweaked codebook mode in a machine's buffers: each block is read from its range
of the input and written to the same range of the output, and the last whole
block lends its tail to the rest. Whatever the two ciphers do, a call comes to
its end; with plain ciphers it is that of the library.
-/

namespace SymmetricKey

namespace Xts

section Calls
variable {C : Type} [ForeignCipher C]

def bufferedBlock (direction : Direction) (cipher : C) (tweak input block : Bytes) :
    Checked (Written C) := do
  let text ← Checked.copyInto (Bytes.zeros blockSize) 0 blockSize input
  let written ← ForeignCipher.cryptFront direction cipher (text.mask tweak) block blockSize
  if written.refusal.isSome then .ok written
  else .ok { written with output := written.output.mask tweak }

def bufferedBlocks (direction : Direction) (input : Bytes) :
    (count index : Nat) → C → (tweak block output : Bytes) → Checked (SegmentLeft C)
  | 0, _, cipher, tweak, block, output =>
      .ok { refusal := none, register := tweak, output, cipher, scratch := block }
  | count + 1, index, cipher, tweak, block, output => do
      let first ← Checked.multiply index blockSize
      let next ← Checked.add index 1
      let last ← Checked.multiply next blockSize
      let text ← Checked.slice input first last
      let written ← bufferedBlock direction cipher tweak text block
      if written.refusal.isSome then
        .ok { refusal := written.refusal, register := tweak, output, cipher := written.after
              scratch := written.output }
      else
        let output ← Checked.copyInto output first last written.output
        bufferedBlocks direction input count next written.after (nextTweak tweak)
          written.output output

/-- The last whole block under `front`, then the rest filled up from it under `back`. -/
def bufferedSteal (direction : Direction) (front back : Bytes) (done : SegmentLeft C)
    (input : Bytes) (full rest : Nat) : Checked (SegmentLeft C) := do
  let first ← Checked.multiply full blockSize
  let last ← Checked.add first blockSize
  let text ← Checked.slice input first last
  let lender ← bufferedBlock direction done.cipher front text (Bytes.zeros blockSize)
  if lender.refusal.isSome then .ok { done with refusal := lender.refusal, cipher := lender.after }
  else
    let tail ← Checked.slice input last input.length
    let joined ← Checked.copyInto lender.output 0 rest tail
    let written ← bufferedBlock direction lender.after back joined done.scratch
    if written.refusal.isSome then
      .ok { done with refusal := written.refusal, cipher := written.after }
    else
      let output ← Checked.copyInto done.output first last written.output
      let lent ← Checked.slice lender.output 0 rest
      let output ← Checked.copyInto output last output.length lent
      .ok { done with output, cipher := written.after }

def bufferedEnding (direction : Direction) (done : SegmentLeft C) (input : Bytes)
    (full rest : Nat) :
    Checked (SegmentLeft C) :=
  match direction with
  | .encrypt => bufferedSteal direction done.register (nextTweak done.register) done input full rest
  | .decrypt => bufferedSteal direction (nextTweak done.register) done.register done input full rest

def bufferedText (direction : Direction) (cipher : C) (tweak input output : Bytes) :
    Checked (SegmentLeft C) := do
  let rest := input.length % blockSize
  let full ← Checked.subtract (input.length / blockSize) (if rest = 0 then 0 else 1)
  let done ← bufferedBlocks direction input full 0 cipher tweak (Bytes.zeros blockSize) output
  if done.refusal.isSome ∨ rest = 0 then .ok done
  else bufferedEnding direction done input full rest

def checkedOfKey {Engine : Type} (algorithm : CipherAlgorithm Engine) (key : Bytes) :
    Checked (Except Error (Xts (KeyedCipher Engine))) :=
  if algorithm.blockSize ≠ blockSize then .ok (.error .invalidParameter)
  else if key.isEmpty ∨ key.length % 2 ≠ 0 then .ok (.error .invalidKeyLength)
  else do
    let front ← Checked.slice key 0 (key.length / 2)
    let back ← Checked.slice key (key.length / 2) key.length
    (algorithm.checkedWithKey front).andThen fun data =>
      (algorithm.checkedWithKey back).andThen fun tweak => .ok (.ok { data, tweak })

def buffered (direction : Direction) (context : Xts C) (position : Block 16)
    (input output : Bytes) :
    Checked (Outcome C) :=
  if input.length < blockSize ∨ output.length < input.length then
    .ok { output, context, refusal := some .invalidLength }
  else do
    let front ← Checked.slice output 0 input.length
    let written ← ForeignCipher.cryptFront .encrypt context.tweak position.toList
      (Bytes.zeros blockSize) blockSize
    if written.refusal.isSome then
      .ok { output, context := { context with tweak := written.after }, refusal := written.refusal }
    else
      let done ← bufferedText direction context.data written.output input front
      .ok { output := Checked.spliced output 0 input.length done.output
            context := { data := done.cipher, tweak := written.after }
            refusal := done.refusal }

end Calls

section Runs
variable {C : Type} [ForeignCipher C] [BlockCipher C]

theorem buffered_block_runs (direction : Direction) (cipher : C) (tweak input block : Bytes)
    (wideTweak : tweak.length = 16) (exact : input.length = 16) (wide : block.length = 16) :
    ∃ written, bufferedBlock direction cipher tweak input block = .ok written ∧
      written.output.length = 16 ∧
      (Plain C → cryptBlock direction cipher tweak input = (written.outcome, written.after)) := by
  have text : Checked.copyInto (Bytes.zeros blockSize) 0 blockSize input = .ok input :=
    Checked.copy_into_whole _ _ exact
  have mixed := Bytes.mask_exact input tweak (by omega)
  obtain ⟨written, ran, wider, _, answer⟩ :=
    ForeignCipher.crypt_front_runs direction cipher (input.xor tweak) block blockSize
      (Nat.le_of_eq wide.symm)
  rw [bufferedBlock, text, Checked.ok_bind, mixed, ran, Checked.ok_bind]
  by_cases refused : written.refusal.isSome
  · rw [if_pos refused]
    refine ⟨_, rfl, wider.trans wide, ?_⟩
    intro plain
    obtain ⟨cause, after, answered, rfl⟩ := Written.answer_refused _ _ _ (answer plain) refused
    rw [cryptBlock, answered]
    rfl
  · rw [if_neg refused]
    refine ⟨_, rfl, (Bytes.mask_length _ _).trans (wider.trans wide), ?_⟩
    intro plain
    obtain ⟨result, after, answered, rfl⟩ :=
      Written.answer_whole _ wide.symm _ _ (answer plain) refused
    have size : result.toList.length = 16 := result.length_toList
    rw [cryptBlock, answered]
    simp only [Written.outcome, Bytes.mask_exact result.toList tweak (by omega)]
    rfl

/-- The output of a run that begins at a position. -/
def laidFrom (output : Bytes) (position : Nat) (text : Bytes) : Bytes :=
  output.take position ++ Bytes.overlay (output.drop position) text

/-- A run of the library, as the machine has it in an output that it begins at a position of. A run
that is not refused goes as far as it can reach. -/
structure Matches (done : SegmentLeft C) (output : Bytes) (position reach : Nat)
    (progress : Progress C) : Prop where
  refusal : done.refusal = progress.refusal
  register : done.register = progress.register
  cipher : done.cipher = progress.cipher
  output : done.output = laidFrom output position progress.produced
  short : progress.produced.length ≤ reach
  full : progress.refusal = none → progress.produced.length = reach

omit [ForeignCipher C] [BlockCipher C] in
theorem blocks_from (input : Bytes) (index count : Nat)
    (reached : (index + 1) * 16 ≤ input.length) :
    Bytes.segments 16 ((input.drop (index * 16)).take ((count + 1) * 16)) =
      (input.take ((index + 1) * 16)).drop (index * 16) ::
        Bytes.segments 16 ((input.drop ((index + 1) * 16)).take (count * 16)) := by
  have some : (input.drop (index * 16)).take ((count + 1) * 16) ≠ [] := by
    apply List.length_pos_iff.mp
    rw [List.length_take, List.length_drop]
    omega
  have first : ((input.drop (index * 16)).take ((count + 1) * 16)).take 16 =
      (input.take ((index + 1) * 16)).drop (index * 16) := by
    rw [List.take_take, List.drop_take]
    congr 1
    omega
  have rest : ((input.drop (index * 16)).take ((count + 1) * 16)).drop 16 =
      (input.drop ((index + 1) * 16)).take (count * 16) := by
    rw [List.drop_take, List.drop_drop]
    congr 1
    · omega
    · congr 1
      omega
  rw [Bytes.segments_cons 16 _ (by decide) some, first, rest]

omit [ForeignCipher C] [BlockCipher C] in
theorem laid_from_block (output piece rest : Bytes) (index : Nat) (whole : piece.length = 16)
    (inside : (index + 1) * 16 ≤ output.length) :
    laidFrom (Checked.spliced output (index * 16) ((index + 1) * 16) piece)
      ((index + 1) * 16) rest =
      laidFrom output (index * 16) (piece ++ rest) := by
  have front : (output.take (index * 16) ++ piece).length = (index + 1) * 16 := by
    rw [List.length_append, List.length_take_of_le (by omega), whole, Nat.succ_mul]
  have room : ((output.drop (index * 16)).take 16).length = 16 := by
    rw [List.length_take, List.length_drop]
    omega
  have next : index * 16 + 16 = (index + 1) * 16 := (Nat.succ_mul index 16).symm
  rw [laidFrom, laidFrom, Checked.spliced, List.take_left' front, List.drop_left' front,
    Bytes.overlay_pieces _ piece rest 16 (by omega) (Or.inl whole),
    Bytes.overlay_whole ((output.drop (index * 16)).take 16) piece (by omega), List.drop_drop, next,
    List.append_assoc]

theorem buffered_blocks_run (direction : Direction) (input : Bytes)
    (machine : input.length < 2 ^ 64) (count index : Nat) (cipher : C) (tweak block output : Bytes)
    (wideTweak : tweak.length = 16) (wide : block.length = 16) (even : output.length = input.length)
    (inside : (index + count) * 16 ≤ input.length) :
    ∃ done, bufferedBlocks direction input count index cipher tweak block output = .ok done ∧
      done.output.length = input.length ∧ done.register.length = 16 ∧ done.scratch.length = 16 ∧
      (Plain C → Matches done output (index * 16) (count * 16) ((step direction).run cipher tweak
        (Bytes.segments 16 ((input.drop (index * 16)).take (count * 16))))) := by
  -- The induction is on the blocks to come. The index counts those written.
  induction count generalizing index cipher tweak block output with
  | zero =>
      refine ⟨_, rfl, even, wideTweak, wide, ?_⟩
      intro _
      rw [Nat.zero_mul, List.take_zero, Bytes.segments_nil]
      refine ⟨rfl, rfl, rfl, ?_, Nat.le_refl 0, fun _ => rfl⟩
      rw [laidFrom, SegmentStep.run, Bytes.overlay_nothing, List.take_append_drop]
  | succ count ih =>
      have reached : (index + 1) * 16 ≤ input.length := by omega
      have first := Checked.multiply_within index 16 (by omega)
      have last := Checked.multiply_within (index + 1) 16 (by omega)
      have text : ((input.take ((index + 1) * 16)).drop (index * 16)).length = 16 := by
        rw [Checked.range_length _ _ _ reached]
        omega
      obtain ⟨written, ran, wider, gives⟩ :=
        buffered_block_runs direction cipher tweak _ block wideTweak
          text wide
      rw [bufferedBlocks, blockSize, first, Checked.ok_bind, Checked.add_within _ _ (by omega),
        Checked.ok_bind, last, Checked.ok_bind, Checked.slice_within _ _ _ (by omega) reached,
        Checked.ok_bind, ran, Checked.ok_bind]
      by_cases refused : written.refusal.isSome
      · rw [if_pos refused]
        refine ⟨_, rfl, even, wideTweak, wider, ?_⟩
        intro plain
        obtain ⟨cause, because, answered⟩ := Written.outcome_refused (gives plain) refused
        rw [blocks_from input index count reached, SegmentStep.run, step, answered]
        refine ⟨because, rfl, rfl, ?_, Nat.zero_le _, fun none => by cases none⟩
        change output = laidFrom output (index * 16) []
        rw [laidFrom, Bytes.overlay_nothing, List.take_append_drop]
      · rw [if_neg refused, Checked.copy_into_within _ _ _ _ (by omega) (by omega) (by omega),
          Checked.ok_bind]
        have spliced := Checked.spliced_length output (index * 16) ((index + 1) * 16) written.output
          (by omega) (by omega) (by omega)
        obtain ⟨done, further, kept, stillTweak, still, same⟩ := ih (index + 1) written.after
          (nextTweak tweak) written.output _ ((next_tweak_length tweak).trans wideTweak) wider
          (spliced.trans even) (by omega)
        refine ⟨done, further, kept, stillTweak, still, ?_⟩
        intro plain
        obtain ⟨_, answered⟩ := Written.outcome_given (gives plain) refused
        obtain ⟨refusal, register, last, laid, short, full⟩ := same plain
        rw [laid_from_block output written.output _ index wider (by omega)] at laid
        have joined (produced : Bytes) : (written.output ++ produced).length =
            produced.length + 16 := by
          rw [List.length_append, wider, Nat.add_comm]
        have next := Nat.succ_mul count 16
        rw [blocks_from input index count reached, SegmentStep.run, step, answered]
        exact ⟨refusal, register, last, laid,
          Nat.le_trans (Nat.le_of_eq (joined _))
            (Nat.le_trans (Nat.add_le_add_right short 16) (Nat.le_of_eq next.symm)),
          fun none => (joined _).trans ((congrArg (· + 16) (full none)).trans next.symm)⟩

omit [ForeignCipher C] [BlockCipher C] in
theorem ending_laid (output block lent : Bytes) (first : Nat) (whole : block.length = 16)
    (exact : output.length = first + 16 + lent.length) :
    Checked.spliced (Checked.spliced output first (first + 16) block) (first + 16)
      output.length lent =
      laidFrom output first (block ++ lent) := by
  -- A block and what it lent, one behind the other up to the end of the output.
  have front : (output.take first ++ block).length = first + 16 := by
    rw [List.length_append, List.length_take_of_le (by omega), whole]
  have inner :=
    Checked.spliced_length output first (first + 16) block (by omega) (by omega) (by omega)
  have room : (block ++ lent).length = (output.drop first).length := by
    rw [List.length_append, List.length_drop, whole]
    omega
  rw [Checked.spliced, List.drop_eq_nil_of_le (Nat.le_of_eq inner), List.append_nil,
    Checked.spliced, List.take_left' front, laidFrom, Bytes.overlay_whole _ _ room,
    List.append_assoc]

theorem buffered_steal_runs (direction : Direction) (front back : Bytes) (done : SegmentLeft C)
    (input : Bytes) (full rest : Nat) (machine : input.length < 2 ^ 64)
    (wideFront : front.length = 16) (wideBack : back.length = 16) (wide : done.scratch.length = 16)
    (even : done.output.length = input.length) (short : rest < 16)
    (whole : input.length = full * 16 + 16 + rest) :
    ∃ last, bufferedSteal direction front back done input full rest = .ok last ∧
      last.output.length = input.length ∧
      (Plain C → match steal direction done.cipher front back ((input.drop (full * 16)).take 16)
          ((input.drop (full * 16)).drop 16) with
        | (.error cause, after) => last = { done with refusal := some cause, cipher := after }
        | (.ok text, after) =>
            text.length = 16 + rest ∧
              last = { done with
                output := laidFrom done.output (full * 16) text
                cipher := after }) := by
  have first := Checked.multiply_within full 16 (by omega)
  have last := Checked.add_within (full * 16) 16 (by omega)
  have text : ((input.take (full * 16 + 16)).drop (full * 16)).length = 16 := by
    rw [Checked.range_length _ _ _ (by omega)]
    omega
  have block : (input.take (full * 16 + 16)).drop (full * 16) =
      (input.drop (full * 16)).take 16 := by
    rw [List.drop_take, Nat.add_sub_cancel_left]
  have tail : (input.drop (full * 16)).drop 16 = input.drop (full * 16 + 16) := List.drop_drop
  have tailWidth : (input.drop (full * 16 + 16)).length = rest := by
    rw [List.length_drop]
    omega
  -- The last whole block goes first and lends its end to the short one.
  obtain ⟨lender, ran, wider, gives⟩ := buffered_block_runs direction done.cipher front _
    (Bytes.zeros 16) wideFront text (Bytes.zeros_length 16)
  rw [bufferedSteal, blockSize, first, Checked.ok_bind, last, Checked.ok_bind,
    Checked.slice_within _ _ _ (by omega) (by omega), Checked.ok_bind, ran, Checked.ok_bind]
  rw [block] at gives
  by_cases refused : lender.refusal.isSome
  · rw [if_pos refused]
    refine ⟨_, rfl, even, ?_⟩
    intro plain
    obtain ⟨cause, because, answered⟩ := Written.outcome_refused (gives plain) refused
    rw [steal, answered, because]
  · have joined : (input.drop (full * 16 + 16) ++ lender.output.drop rest).length = 16 := by
      rw [List.length_append, tailWidth, List.length_drop]
      omega
    obtain ⟨written, written_ran, written_wide, written_gives⟩ := buffered_block_runs direction
      lender.after back _ done.scratch wideBack joined wide
    rw [if_neg refused, Checked.slice_back _ _ (by omega), Checked.ok_bind,
      Checked.copy_into_front _ _ _ (by omega) tailWidth, Checked.ok_bind, written_ran,
      Checked.ok_bind, tail]
    by_cases stopped : written.refusal.isSome
    · rw [if_pos stopped]
      refine ⟨_, rfl, even, ?_⟩
      intro plain
      obtain ⟨_, lent⟩ := Written.outcome_given (gives plain) refused
      obtain ⟨cause, because, answered⟩ := Written.outcome_refused (written_gives plain) stopped
      simp only [steal, lent, tailWidth, answered, because]
    · have lentWidth : (lender.output.take rest).length = rest := List.length_take_of_le (by omega)
      have inner := Checked.spliced_length done.output (full * 16) (full * 16 + 16) written.output
        (by omega) (by omega) (by omega)
      have laid := ending_laid done.output written.output (lender.output.take rest) (full * 16)
        written_wide (by omega)
      rw [if_neg stopped, Checked.copy_into_within _ _ _ _ (by omega) (by omega) (by omega),
        Checked.ok_bind, Checked.slice_front _ _ (by omega), Checked.ok_bind,
        Checked.copy_into_within _ _ _ _ (by omega) (by omega) (by omega), Checked.ok_bind, inner]
      have outer := Checked.spliced_length (Checked.spliced done.output (full * 16) (full * 16 + 16)
        written.output) (full * 16 + 16) done.output.length (lender.output.take rest) (by omega)
        (by omega) (by omega)
      refine ⟨_, rfl, outer.trans (inner.trans even), ?_⟩
      intro plain
      obtain ⟨_, lent⟩ := Written.outcome_given (gives plain) refused
      obtain ⟨_, answered⟩ := Written.outcome_given (written_gives plain) stopped
      simp only [steal, lent, tailWidth, answered, laid, List.length_append, written_wide,
        lentWidth, and_self]

theorem buffered_ending_runs (direction : Direction) (done : SegmentLeft C) (input : Bytes)
    (full rest : Nat) (machine : input.length < 2 ^ 64) (wideTweak : done.register.length = 16)
    (wide : done.scratch.length = 16) (even : done.output.length = input.length) (short : rest < 16)
    (whole : input.length = full * 16 + 16 + rest) :
    ∃ last, bufferedEnding direction done input full rest = .ok last ∧
      last.output.length = input.length ∧
      (Plain C → match stealInOrder direction done.cipher done.register
          ((input.drop (full * 16)).take 16) ((input.drop (full * 16)).drop 16) with
        | (.error cause, after) => last = { done with refusal := some cause, cipher := after }
        | (.ok text, after) =>
            text.length = 16 + rest ∧
              last = { done with
                output := laidFrom done.output (full * 16) text
                cipher := after }) := by
  have wideNext := (next_tweak_length done.register).trans wideTweak
  cases direction with
  | encrypt =>
      exact buffered_steal_runs .encrypt done.register (nextTweak done.register) done input
        full rest machine wideTweak wideNext wide even short whole
  | decrypt =>
      exact buffered_steal_runs .decrypt (nextTweak done.register) done.register done input
        full rest machine wideNext wideTweak wide even short whole

omit [ForeignCipher C] [BlockCipher C] in
theorem laid_further (output front rest : Bytes) (position : Nat) (exact : front.length = position)
    (inside : position ≤ output.length) :
    laidFrom (Bytes.overlay output front) position rest = Bytes.overlay output (front ++ rest) := by
  have room : (output.take position).length = position := List.length_take_of_le inside
  rw [Bytes.overlay_pieces output front rest position (by omega) (Or.inl exact),
    Bytes.overlay_whole _ _ (exact.trans room.symm), laidFrom, Bytes.overlay_fitting _ _ (by omega),
    exact, List.take_left' exact, List.drop_left' exact]

omit [ForeignCipher C] in
theorem crypt_text_ending (direction : Direction) (cipher : C) (tweak input : Bytes)
    (unaligned : input.length % 16 ≠ 0) (progress : Progress C)
    (ran : (step direction).run cipher tweak
      (Bytes.segments 16 (input.take (plainBlocks input.length * 16))) = progress)
    (given : ¬progress.refusal.isSome) :
    cryptText direction cipher tweak input =
      match stealInOrder direction progress.cipher progress.register
          ((input.drop (plainBlocks input.length * 16)).take 16)
          ((input.drop (plainBlocks input.length * 16)).drop 16) with
      | (.error cause, after) => { progress with cipher := after, refusal := some cause }
      | (.ok text, after) =>
          { progress with cipher := after, produced := progress.produced ++ text } := by
  subst ran
  exact if_neg (not_or.mpr ⟨given, unaligned⟩)

theorem buffered_text_runs (direction : Direction) (cipher : C) (tweak input output : Bytes)
    (machine : input.length < 2 ^ 64) (wide : tweak.length = 16)
    (even : output.length = input.length) (enough : 16 ≤ input.length) :
    ∃ done, bufferedText direction cipher tweak input output = .ok done ∧
      done.output.length = input.length ∧
      (Plain C → done.refusal = (cryptText direction cipher tweak input).refusal ∧
        done.cipher = (cryptText direction cipher tweak input).cipher ∧
        done.output = Bytes.overlay output (cryptText direction cipher tweak input).produced ∧
        (cryptText direction cipher tweak input).produced.length ≤ input.length) := by
  have count : Checked.subtract (input.length / 16) (if input.length % 16 = 0 then 0 else 1) =
      .ok (plainBlocks input.length) := by
    rw [plainBlocks, blockSize]
    split_ifs
    · exact Checked.subtract_within _ _ (Nat.zero_le _)
    · exact Checked.subtract_within _ _ (by omega)
  have fits : plainBlocks input.length * 16 ≤ input.length := by
    rw [plainBlocks, blockSize]
    split_ifs <;> omega
  obtain ⟨done, ran, kept, wideRegister, wideScratch, same⟩ :=
    buffered_blocks_run direction input machine
      (plainBlocks input.length) 0 cipher tweak (Bytes.zeros 16) output wide
      (Bytes.zeros_length 16) even
      (by omega)
  rw [Nat.zero_mul, List.drop_zero] at same
  rw [bufferedText, blockSize, count, Checked.ok_bind, ran, Checked.ok_bind]
  -- Nothing is stolen behind a refusal, nor where whole blocks end the text.
  by_cases closed : done.refusal.isSome ∨ input.length % 16 = 0
  · rw [if_pos closed]
    refine ⟨done, rfl, kept, ?_⟩
    intro plain
    obtain ⟨refusal, register, last, laid, short, _⟩ := same plain
    rw [refusal] at closed
    have text : cryptText direction cipher tweak input = (step direction).run cipher tweak
        (Bytes.segments 16 (input.take (plainBlocks input.length * 16))) := if_pos closed
    rw [text]
    exact ⟨refusal, last, laid, Nat.le_trans short fits⟩
  · rw [if_neg closed]
    have unaligned : input.length % 16 ≠ 0 := fun aligned => closed (Or.inr aligned)
    have whole : input.length = plainBlocks input.length * 16 + 16 + input.length % 16 := by
      rw [plainBlocks, blockSize, if_neg unaligned]
      omega
    obtain ⟨last, ran, keptLast, sameLast⟩ := buffered_ending_runs direction done input
      (plainBlocks input.length) (input.length % 16) machine wideRegister wideScratch kept
      (Nat.mod_lt _ (by decide)) whole
    refine ⟨last, ran, keptLast, ?_⟩
    intro plain
    obtain ⟨refusal, register, after, laid, short, full⟩ := same plain
    rw [refusal] at closed
    have given := not_or.mp closed
    have ending := sameLast plain
    rw [after, register] at ending
    have text := crypt_text_ending direction cipher tweak input unaligned _ rfl given.1
    have complete := full (Option.not_isSome_iff_eq_none.mp given.1)
    generalize (step direction).run cipher tweak
      (Bytes.segments 16 (input.take (plainBlocks input.length * 16))) = progress at *
    rw [text]
    rcases answered : stealInOrder direction progress.cipher progress.register
      ((input.drop (plainBlocks input.length * 16)).take 16)
      ((input.drop (plainBlocks input.length * 16)).drop 16) with ⟨cause | stolen, final⟩
    · rw [answered] at ending
      rw [ending]
      exact ⟨rfl, rfl, laid, Nat.le_trans short fits⟩
    · rw [answered] at ending
      obtain ⟨size, ending⟩ := ending
      have further := laid_further output progress.produced stolen _ complete (by omega)
      rw [laidFrom, List.take_zero, List.nil_append, List.drop_zero] at laid
      rw [ending, laid, further]
      refine ⟨refusal, rfl, rfl, ?_⟩
      rw [List.length_append]
      omega

/-- Whatever the ciphers do, a call comes to its end; with plain ciphers as in the library. -/
theorem buffered_runs (direction : Direction) (context : Xts C) (position : Block 16)
    (input output : Bytes) (machine : input.length < 2 ^ 64) :
    ∃ outcome, buffered direction context position input output = .ok outcome ∧
      (Plain C → outcome = crypt direction context position input output) := by
  by_cases wrong : input.length < blockSize ∨ output.length < input.length
  · rw [buffered, if_pos wrong, crypt, if_pos wrong]
    exact ⟨_, rfl, fun _ => rfl⟩
  · obtain ⟨enough, fits⟩ := not_or.mp wrong
    rw [blockSize] at enough
    have front : (output.take input.length).length = input.length :=
      List.length_take_of_le (by omega)
    obtain ⟨written, ran, wider, _, answer⟩ := ForeignCipher.crypt_front_runs .encrypt context.tweak
      position.toList (Bytes.zeros blockSize) blockSize (Nat.le_of_eq (Bytes.zeros_length _).symm)
    rw [buffered, if_neg wrong, Checked.slice_front _ _ (by omega), Checked.ok_bind, ran,
      Checked.ok_bind]
    by_cases refused : written.refusal.isSome
    · rw [if_pos refused]
      refine ⟨_, rfl, ?_⟩
      intro plain
      obtain ⟨cause, after, answered, rfl⟩ := Written.answer_refused _ _ _ (answer plain) refused
      rw [crypt, if_neg wrong, BlockCipher.encryptBlock, answered]
    · have wide : written.output.length = 16 := wider.trans (Bytes.zeros_length _)
      obtain ⟨done, further, _, same⟩ :=
        buffered_text_runs direction context.data written.output input
          (output.take input.length) machine wide front (by omega)
      rw [if_neg refused, further, Checked.ok_bind]
      refine ⟨_, rfl, ?_⟩
      intro plain
      obtain ⟨tweak, after, answered, rfl⟩ := Written.answer_whole _ (Bytes.zeros_length _).symm _ _
        (answer plain) refused
      obtain ⟨refusal, cipher, laid, short⟩ := same plain
      rw [crypt, if_neg wrong, BlockCipher.encryptBlock, answered, refusal, cipher, laid,
        Checked.spliced_front, Bytes.overlay_front _ _ _ (by omega) short]
      rfl

end Runs

theorem checked_of_key_makes {Engine : Type} (plain : Prop) (algorithm : CipherAlgorithm Engine)
    (key : Bytes) (front : algorithm.Counts (key.take (key.length / 2)))
    (back : algorithm.Counts (key.drop (key.length / 2))) :
    Checked.Makes (fun _ => True) plain Eq (checkedOfKey algorithm key)
      (ofKey algorithm key).run.value := by
  rw [checkedOfKey, ofKey]
  by_cases narrow : algorithm.blockSize ≠ blockSize
  · rw [if_pos narrow, if_pos narrow]
    exact Checked.makes_refusal _ _ _ _
  · rw [if_neg narrow, if_neg narrow]
    by_cases odd : key.isEmpty ∨ key.length % 2 ≠ 0
    · rw [if_pos odd]
      simp only [if_pos odd]
      exact Checked.makes_refusal _ _ _ _
    · rw [if_neg odd]
      simp only [if_neg odd]
      rw [Checked.slice_front _ _ (by omega), Checked.ok_bind, Checked.slice_back _ _ (by omega),
        Checked.ok_bind]
      refine Checked.makes_further (algorithm.checked_with_key_makes plain _ front) ?_
      intro data _
      refine Checked.makes_further (algorithm.checked_with_key_makes plain _ back) ?_
      intro tweak _
      exact Checked.makes_result _ _ _ _ _ trivial fun _ => rfl

end Xts

end SymmetricKey
