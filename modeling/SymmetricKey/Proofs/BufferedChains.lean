import SymmetricKey.Proofs.ChainMacs
import SymmetricKey.Proofs.ForeignCiphers

/-!
The chain under the MACs of a block cipher in a machine's buffers. The chaining
value and the last block have buffers as long as the longest block; the front
of each is in use. Whatever the cipher does, a call comes to its end; with a
plain cipher it is that of the library.
-/

namespace SymmetricKey

namespace CbcChain

variable {C : Type} [BlockCipher C]

-- What is pending takes no part in a step.
theorem advance_pending (cipher : C) (chain : CbcChain) (block pending : Bytes) :
    advance cipher { chain with pending } block =
      { advance cipher chain block with
        chain := { (advance cipher chain block).chain with pending } } := by
  simp only [advance]
  rcases BlockCipher.encryptBlock cipher (chain.value.xor block) chain.blockSize with
    ⟨cause | value, after⟩ <;> rfl

theorem absorb_full (cipher : C) (chain : CbcChain) (byte : UInt8) (data : Bytes) (step : Step C)
    (full : chain.pending.length = chain.blockSize)
    (ran : advance cipher chain chain.pending = step) (positive : 0 < step.chain.blockSize) :
    absorb cipher chain (byte :: data) =
      if step.refusal.isSome then step
      else absorb step.cipher { step.chain with pending := [] } (byte :: data) := by
  have room : ¬([] : Bytes).length = step.chain.blockSize := Nat.ne_of_lt positive
  rw [absorb, if_pos full, ran, absorb, if_neg room]
  rfl

theorem absorb_within (cipher : C) (chain : CbcChain) (data : Bytes)
    (room : chain.pending.length + data.length ≤ chain.blockSize) :
    absorb cipher chain data =
      { chain := { chain with pending := chain.pending ++ data }, cipher, refusal := none } := by
  induction data generalizing chain with
  | nil => rw [absorb, List.append_nil]
  | cons byte data ih =>
      rw [List.length_cons] at room
      have short : ¬chain.pending.length = chain.blockSize := by omega
      have next : (chain.pending ++ [byte]).length + data.length ≤ chain.blockSize := by
        rw [List.length_append, List.length_singleton]
        omega
      rw [absorb, if_neg short, ih _ next, List.append_assoc]
      rfl

theorem finish_advanced (cipher : C) (chain : CbcChain) (full partly pending : Bytes)
    (step : Step C)
    (ran : advance cipher { chain with pending } (chain.lastBlock full partly) = step) :
    finish cipher chain full partly =
      match step.refusal with
      | some cause =>
          (.error cause,
            { step.chain with
              pending := (chain.lastBlock full partly).take chain.pending.length }, step.cipher)
      | none => (.ok step.chain.value, chain.reset, step.cipher) := by
  rw [advance_pending] at ran
  subst ran
  rfl

end CbcChain

structure ChainBuffers where
  blockSize : Nat
  value : Bytes
  block : Bytes
  filled : Nat

/-- A chain after a step, the refusal if there was one, and the cipher. -/
structure ChainLeft (C : Type) where
  refusal : Option Error
  chain : ChainBuffers
  cipher : C

namespace ChainBuffers

def empty (blockSize : Nat) : ChainBuffers :=
  { blockSize, value := Bytes.zeros 16, block := Bytes.zeros 16, filled := 0 }

def reset (chain : ChainBuffers) : ChainBuffers := empty chain.blockSize

section Calls
variable {C : Type} [ForeignCipher C]

def advance (cipher : C) (chain : ChainBuffers) : Checked (ChainLeft C) := do
  let block ← Checked.slice chain.block 0 chain.blockSize
  let mixed ← Checked.edit chain.value 0 chain.blockSize (Bytes.mask · block)
  let input ← Checked.slice mixed 0 chain.blockSize
  let written ← ForeignCipher.cryptFront .encrypt cipher input mixed chain.blockSize
  .ok { refusal := written.refusal, chain := { chain with value := written.output }
        cipher := written.after }

-- A complete block goes in when it is known that more follows.
def makeRoom (cipher : C) (chain : ChainBuffers) : Checked (ChainLeft C) :=
  if chain.filled = chain.blockSize then do
    let step ← advance cipher chain
    if step.refusal.isSome then .ok step
    else .ok { step with chain := { step.chain with filled := 0 } }
  else .ok { refusal := none, chain, cipher }

def takePiece (chain : ChainBuffers) (data : Bytes) : Checked (ChainBuffers × Bytes) := do
  let room ← Checked.subtract chain.blockSize chain.filled
  let count := min room data.length
  let last ← Checked.add chain.filled count
  let piece ← Checked.slice data 0 count
  let block ← Checked.copyInto chain.block chain.filled last piece
  let rest ← Checked.slice data count data.length
  .ok ({ chain with block, filled := last }, rest)

-- A loop that takes more turns than there are bytes does not end.
def absorbTurns : Nat → C → ChainBuffers → Bytes → Checked (ChainLeft C)
  | _, cipher, chain, [] => .ok { refusal := none, chain, cipher }
  | 0, _, _, _ :: _ => .error .standstill
  | turns + 1, cipher, chain, byte :: data => do
      let step ← makeRoom cipher chain
      if step.refusal.isSome then .ok step
      else
        let taken ← takePiece step.chain (byte :: data)
        absorbTurns turns step.cipher taken.1 taken.2

def absorb (cipher : C) (chain : ChainBuffers) (data : Bytes) : Checked (ChainLeft C) :=
  absorbTurns data.length cipher chain data

/-- A complete last block is masked by `full`; another one is marked, filled up with zeros and
masked by `partly`. -/
def lastBlock (chain : ChainBuffers) (full partly : Bytes) : Checked Bytes :=
  if chain.filled = chain.blockSize then
    Checked.edit chain.block 0 chain.blockSize (Bytes.mask · full)
  else do
    let marked ← Checked.setByte chain.block chain.filled 0x80
    let next ← Checked.add chain.filled 1
    let filledUp ← Checked.edit marked next chain.blockSize Bytes.cleared
    Checked.edit filledUp 0 chain.blockSize (Bytes.mask · partly)

-- The chaining value goes to the front of the tag.
def finish (cipher : C) (chain : ChainBuffers) (full partly tag : Bytes) :
    Checked (Written (ChainLeft C)) := do
  let block ← lastBlock chain full partly
  let step ← advance cipher { chain with block }
  if step.refusal.isSome then .ok { refusal := step.refusal, output := tag, after := step }
  else
    let front ← Checked.slice step.chain.value 0 chain.blockSize
    let tag ← Checked.copyInto tag 0 chain.blockSize front
    .ok { refusal := none, output := tag, after := { step with chain := step.chain.reset } }

end Calls

/-- Behind the fronts in use anything may stand. -/
def view (chain : ChainBuffers) : CbcChain :=
  { blockSize := chain.blockSize, value := chain.value.take chain.blockSize
    pending := chain.block.take chain.filled }

structure Sound (chain : ChainBuffers) : Prop where
  positive : 0 < chain.blockSize
  small : chain.blockSize ≤ 16
  value : chain.value.length = 16
  block : chain.block.length = 16
  filled : chain.filled ≤ chain.blockSize

theorem empty_sound (size : Nat) (positive : 0 < size) (small : size ≤ 16) : Sound (empty size) :=
  ⟨positive, small, Bytes.zeros_length 16, Bytes.zeros_length 16, Nat.zero_le size⟩

theorem empty_view (size : Nat) (small : size ≤ 16) : (empty size).view = CbcChain.empty size := by
  rw [view, empty, CbcChain.empty]
  simp only [Bytes.zeros_take 16 size small, List.take_zero]

section Runs
variable {C : Type} [ForeignCipher C] [BlockCipher C] (cipher : C) (chain : ChainBuffers)
  (sound : Sound chain)
include sound

theorem advance_runs :
    ∃ step, advance cipher chain = .ok step ∧ Sound step.chain ∧
      step.chain.blockSize = chain.blockSize ∧ step.chain.block = chain.block ∧
      step.chain.filled = chain.filled ∧
      ForeignCipher.blockSize step.cipher = ForeignCipher.blockSize cipher ∧
      (Plain C → CbcChain.advance cipher chain.view (chain.block.take chain.blockSize) =
        { chain := step.chain.view, cipher := step.cipher, refusal := step.refusal }) := by
  obtain ⟨positive, small, value, block, filled⟩ := sound
  have front : (chain.value.take chain.blockSize).length = chain.blockSize :=
    List.length_take_of_le (by omega)
  have covered : (chain.block.take chain.blockSize).length = chain.blockSize :=
    List.length_take_of_le (by omega)
  have mixed :=
    Bytes.mask_exact (chain.value.take chain.blockSize) (chain.block.take chain.blockSize)
      (by omega)
  have width :
      (Bytes.xor (chain.value.take chain.blockSize) (chain.block.take chain.blockSize)).length =
      chain.blockSize := by
    rw [Bytes.xor_length, front, covered, Nat.min_self]
  have wide := (Checked.front_length chain.value chain.blockSize _ (by omega) width).trans value
  obtain ⟨written, ran, wider, constant, answer⟩ := ForeignCipher.crypt_front_runs .encrypt cipher
    (Bytes.xor (chain.value.take chain.blockSize) (chain.block.take chain.blockSize))
    (Bytes.xor (chain.value.take chain.blockSize) (chain.block.take chain.blockSize) ++
      chain.value.drop chain.blockSize) chain.blockSize (by omega)
  rw [advance, Checked.slice_front _ _ (by omega), Checked.ok_bind,
    Checked.edit_front _ _ _ (by omega), Checked.ok_bind, mixed, Checked.slice_front _ _ (by omega),
    Checked.ok_bind, List.take_left' width, ran, Checked.ok_bind]
  refine ⟨_, rfl, ⟨positive, small, wider.trans wide, block, filled⟩, rfl, rfl, rfl, constant, ?_⟩
  intro plain
  by_cases refused : written.refusal.isSome
  · obtain ⟨cause, after, answered, rfl⟩ := Written.answer_refused _ _ _ (answer plain) refused
    simp only [CbcChain.advance, view, BlockCipher.encryptBlock, answered, List.take_left' width]
  · obtain ⟨result, after, answered, rfl⟩ := Written.answer_given _ _ _ (answer plain) refused
    have laid := Bytes.overlay_fitting (Bytes.xor (chain.value.take chain.blockSize)
      (chain.block.take chain.blockSize) ++ chain.value.drop chain.blockSize) result.toList
      (by rw [result.length_toList]; omega)
    simp only [CbcChain.advance, view, BlockCipher.encryptBlock, answered, laid,
      List.take_left' result.length_toList]

theorem make_room_runs (byte : UInt8) (data : Bytes) :
    ∃ step, makeRoom cipher chain = .ok step ∧ Sound step.chain ∧
      step.chain.blockSize = chain.blockSize ∧
      ForeignCipher.blockSize step.cipher = ForeignCipher.blockSize cipher ∧
      (¬step.refusal.isSome → step.chain.filled < chain.blockSize) ∧
      (Plain C → CbcChain.absorb cipher chain.view (byte :: data) =
        if step.refusal.isSome then
          { chain := step.chain.view, cipher := step.cipher, refusal := step.refusal }
        else CbcChain.absorb step.cipher step.chain.view (byte :: data)) := by
  by_cases full : chain.filled = chain.blockSize
  · have pending : chain.view.pending.length = chain.view.blockSize := by
      rw [view, List.length_take_of_le (by rw [sound.block, full]; exact sound.small), full]
    obtain ⟨step, ran, kept, same, block, _, constant, answer⟩ := advance_runs cipher chain sound
    have held : chain.view.pending = chain.block.take chain.blockSize := by rw [view, full]
    rw [← held] at answer
    have library (plain : Plain C) :=
      CbcChain.absorb_full cipher chain.view byte data _ pending (answer plain) kept.positive
    rw [makeRoom, if_pos full, ran, Checked.ok_bind]
    by_cases refused : step.refusal.isSome
    · rw [if_pos refused]
      refine ⟨_, rfl, kept, same, constant, fun given => absurd refused given, ?_⟩
      intro plain
      rw [library plain, if_pos refused, if_pos refused]
    · rw [if_neg refused]
      refine ⟨_, rfl, ⟨kept.positive, kept.small, kept.value, kept.block, Nat.zero_le _⟩, same,
        constant, fun _ => sound.positive, ?_⟩
      intro plain
      rw [library plain, if_neg refused, if_neg refused]
      rfl
  · rw [makeRoom, if_neg full]
    have room := Nat.lt_of_le_of_ne sound.filled full
    exact ⟨_, rfl, sound, rfl, rfl, fun _ => room, fun _ => rfl⟩

omit [ForeignCipher C] in
theorem take_piece_runs (data : Bytes) (some : data ≠ []) (room : chain.filled < chain.blockSize) :
    ∃ taken, takePiece chain data = .ok taken ∧ Sound taken.1 ∧
      taken.1.blockSize = chain.blockSize ∧ taken.2.length < data.length ∧
      CbcChain.absorb cipher chain.view data = CbcChain.absorb cipher taken.1.view taken.2 := by
  obtain ⟨positive, small, value, block, filled⟩ := sound
  have long : 0 < data.length := List.length_pos_iff.mpr some
  have inside : min (chain.blockSize - chain.filled) data.length ≤ data.length :=
    Nat.min_le_right _ _
  have piece : (data.take (min (chain.blockSize - chain.filled) data.length)).length =
      min (chain.blockSize - chain.filled) data.length := List.length_take_of_le inside
  have front : (chain.block.take chain.filled).length = chain.filled :=
    List.length_take_of_le (by omega)
  have spliced := Checked.spliced_length chain.block chain.filled
    (chain.filled + min (chain.blockSize - chain.filled) data.length)
    (data.take (min (chain.blockSize - chain.filled) data.length)) (by omega) (by omega) (by omega)
  rw [takePiece, Checked.subtract_within _ _ filled, Checked.ok_bind]
  simp only [Checked.add_within _ _ (show chain.filled +
    min (chain.blockSize - chain.filled) data.length < 2 ^ 64 by omega), Checked.ok_bind,
    Checked.slice_front _ _ inside, Checked.copy_into_within chain.block chain.filled
      (chain.filled + min (chain.blockSize - chain.filled) data.length) _ (by omega) (by omega)
      (by omega : (data.take (min (chain.blockSize - chain.filled) data.length)).length = _),
    Checked.slice_back _ _ inside]
  refine ⟨_, rfl, ⟨positive, small, value, spliced.trans block, ?_⟩, rfl, ?_, ?_⟩
  · change chain.filled + min (chain.blockSize - chain.filled) data.length ≤ chain.blockSize
    omega
  · change (data.drop (min (chain.blockSize - chain.filled) data.length)).length < data.length
    rw [List.length_drop]
    omega
  · have whole : (chain.block.take chain.filled ++
        data.take (min (chain.blockSize - chain.filled) data.length)).length =
          chain.filled + min (chain.blockSize - chain.filled) data.length := by
      rw [List.length_append, front, piece]
    have within := CbcChain.absorb_within cipher chain.view
      (data.take (min (chain.blockSize - chain.filled) data.length))
      (by rw [piece]; change (chain.block.take chain.filled).length + _ ≤ chain.blockSize; omega)
    have cut := CbcChain.absorb_append cipher chain.view
      (data.take (min (chain.blockSize - chain.filled) data.length))
      (data.drop (min (chain.blockSize - chain.filled) data.length))
    rw [List.take_append_drop, within] at cut
    rw [cut, view, view, Checked.spliced, List.take_left' whole]
    rfl

theorem absorb_turns_runs (turns : Nat) (data : Bytes) (enough : data.length ≤ turns) :
    ∃ step, absorbTurns turns cipher chain data = .ok step ∧ Sound step.chain ∧
      step.chain.blockSize = chain.blockSize ∧
      ForeignCipher.blockSize step.cipher = ForeignCipher.blockSize cipher ∧
      (Plain C → CbcChain.absorb cipher chain.view data =
        { chain := step.chain.view, cipher := step.cipher, refusal := step.refusal }) := by
  -- Each turn takes at least one byte, so the turns suffice.
  induction turns generalizing cipher chain data with
  | zero =>
      have none : data = [] := List.length_eq_zero_iff.mp (Nat.le_zero.mp enough)
      subst none
      exact ⟨_, rfl, sound, rfl, rfl, fun _ => rfl⟩
  | succ turns ih =>
      cases data with
      | nil => exact ⟨_, rfl, sound, rfl, rfl, fun _ => rfl⟩
      | cons byte data =>
          obtain ⟨step, ran, kept, same, constant, room, answer⟩ :=
            make_room_runs cipher chain sound byte data
          rw [absorbTurns, ran, Checked.ok_bind]
          by_cases refused : step.refusal.isSome
          · rw [if_pos refused]
            refine ⟨_, rfl, kept, same, constant, ?_⟩
            intro plain
            rw [answer plain, if_pos refused]
          · obtain ⟨taken, took, sound, size, shorter, cut⟩ :=
              take_piece_runs step.cipher step.chain kept
                (byte :: data) (List.cons_ne_nil _ _) (by rw [same]; exact room refused)
            obtain ⟨last, further, sound, whole, steady, later⟩ :=
              ih step.cipher taken.1 sound taken.2 (by omega)
            rw [if_neg refused, took, Checked.ok_bind]
            refine ⟨last, further, sound, whole.trans (size.trans same), steady.trans constant, ?_⟩
            intro plain
            rw [answer plain, if_neg refused, cut, later plain]

omit [ForeignCipher C] [BlockCipher C] in
theorem last_block_runs (full partly : Bytes) (fullWidth : full.length = chain.blockSize)
    (partWidth : partly.length = chain.blockSize) :
    ∃ block, lastBlock chain full partly = .ok block ∧ block.length = 16 ∧
      block.take chain.blockSize = chain.view.lastBlock full partly := by
  obtain ⟨positive, small, value, block, filled⟩ := sound
  have pending : chain.view.pending.length = chain.filled := List.length_take_of_le (by omega)
  have size : chain.view.blockSize = chain.blockSize := rfl
  -- A full block is masked as it stands, a short one is filled up before.
  by_cases complete : chain.filled = chain.blockSize
  · have front : (chain.block.take chain.blockSize).length = chain.blockSize :=
      List.length_take_of_le (by omega)
    have held : chain.view.pending = chain.block.take chain.blockSize := by rw [view, complete]
    have width : (Bytes.mask (chain.block.take chain.blockSize) full).length = chain.blockSize :=
      (Bytes.mask_length _ _).trans front
    rw [lastBlock, if_pos complete, Checked.edit_front _ _ _ (by omega), CbcChain.lastBlock,
      if_pos (by rw [pending, complete, size]), held]
    refine ⟨_, rfl, (Checked.front_length _ _ _ (by omega) width).trans block, ?_⟩
    rw [List.take_left' width, Bytes.mask_exact _ _ (by omega)]
  · have marked : chain.block.set chain.filled 0x80 =
        chain.block.take chain.filled ++ 0x80 :: chain.block.drop (chain.filled + 1) := by
      rw [List.set_eq_take_append_cons_drop, if_pos (by omega)]
    have wide : (chain.block.set chain.filled 0x80).length = 16 := List.length_set.trans block
    have front : (chain.block.take chain.filled ++ [0x80]).length = chain.filled + 1 := by
      rw [List.length_append, List.length_take_of_le (by omega), List.length_singleton]
    have start : (chain.block.set chain.filled 0x80).take (chain.filled + 1) =
        chain.block.take chain.filled ++ [0x80] := by
      rw [marked, ← List.singleton_append, ← List.append_assoc, List.take_left' front]
    have zeros : Bytes.cleared (((chain.block.set chain.filled 0x80).take chain.blockSize).drop
        (chain.filled + 1)) = Bytes.zeros (chain.blockSize - (chain.filled + 1)) := by
      rw [Bytes.cleared, List.map_const', Checked.range_length _ _ _ (by omega), Bytes.zeros]
    have text : chain.block.take chain.filled ++ [0x80] ++
        Bytes.zeros (chain.blockSize - (chain.filled + 1)) = chain.view.pending ++
          0x80 :: Bytes.zeros (chain.blockSize - chain.view.pending.length - 1) := by
      rw [pending, List.append_assoc, List.singleton_append, Nat.sub_add_eq]
      rfl
    have width : (chain.view.pending ++
        0x80 :: Bytes.zeros (chain.blockSize - chain.view.pending.length - 1)).length =
          chain.blockSize := by
      rw [List.length_append, List.length_cons, Bytes.zeros_length, pending]
      omega
    have masked : (Bytes.mask (chain.view.pending ++
        0x80 :: Bytes.zeros (chain.blockSize - chain.view.pending.length - 1)) partly).length =
          chain.blockSize := (Bytes.mask_length _ _).trans width
    rw [lastBlock, if_neg complete, Checked.set_byte_within _ _ _ (by omega), Checked.ok_bind,
      Checked.add_within _ _ (by omega), Checked.ok_bind,
      Checked.edit_within _ _ _ _ (by omega) (by omega), Checked.ok_bind, zeros, Checked.spliced,
      start, text,
      Checked.edit_front _ _ _ (by rw [List.length_append, width]; omega), List.take_left' width,
      List.drop_left' width, CbcChain.lastBlock, if_neg (by rw [pending, size]; exact complete),
      size]
    refine ⟨_, rfl, (Checked.front_length _ _ _ (by omega) masked).trans wide, ?_⟩
    rw [List.take_left' masked, Bytes.mask_exact _ _ (by omega)]

theorem finish_runs (full partly tag : Bytes) (fullWidth : full.length = chain.blockSize)
    (partWidth : partly.length = chain.blockSize) (room : tag.length = 16) :
    ∃ left, finish cipher chain full partly tag = .ok left ∧ Sound left.after.chain ∧
      left.after.chain.blockSize = chain.blockSize ∧
      ForeignCipher.blockSize left.after.cipher = ForeignCipher.blockSize cipher ∧
      left.output.length = 16 ∧
      (Plain C → chain.view.finish cipher full partly =
        (left.outcome.map (·.take chain.blockSize), left.after.chain.view, left.after.cipher)) := by
  obtain ⟨block, masked, wide, last⟩ := last_block_runs chain sound full partly fullWidth partWidth
  have filled := sound.filled
  have small := sound.small
  -- To finish is to advance over the masked block.
  obtain ⟨step, ran, kept, same, held, reached, constant, answer⟩ := advance_runs cipher
    { chain with block } ⟨sound.positive, sound.small, sound.value, wide, sound.filled⟩
  have pending : chain.view.pending.length = chain.filled :=
    List.length_take_of_le (by rw [sound.block]; omega)
  have front : (block.take chain.blockSize).take chain.view.pending.length =
      block.take chain.filled := by
    rw [pending, List.take_take, Nat.min_eq_left filled]
  have library (plain : Plain C) := CbcChain.finish_advanced cipher chain.view full partly
    (block.take chain.filled) _ (last ▸ answer plain)
  rw [finish, masked, Checked.ok_bind, ran, Checked.ok_bind]
  by_cases refused : step.refusal.isSome
  · rw [if_pos refused]
    refine ⟨_, rfl, kept, same, constant, room, ?_⟩
    intro plain
    obtain ⟨cause, because⟩ := Option.isSome_iff_exists.mp refused
    rw [library plain, ← last, front]
    simp only [because, Written.outcome, view, held, reached]
    rfl
  · have value := kept.value
    have size : (step.chain.value.take chain.blockSize).length = chain.blockSize :=
      List.length_take_of_le (by omega)
    rw [if_neg refused, Checked.slice_front _ _ (by omega), Checked.ok_bind,
      Checked.copy_into_front _ _ _ (by omega) size, Checked.ok_bind]
    refine ⟨_, rfl, empty_sound _ kept.positive kept.small, same, constant,
      (Checked.front_length _ _ _ (by omega) size).trans room, ?_⟩
    intro plain
    have none := Option.not_isSome_iff_eq_none.mp refused
    have chained : step.chain.view.value = step.chain.value.take chain.blockSize := by
      rw [view, same]
    have fresh : step.chain.reset.view = CbcChain.empty chain.blockSize := by
      rw [reset, same, empty_view _ small]
    rw [library plain]
    simp only [none, Written.outcome, chained, fresh, Except.map, List.take_left' size]
    rfl

end Runs

end ChainBuffers

end SymmetricKey
