import SymmetricKey.Authentication.CbcChain
import SymmetricKey.Proofs.BlockFunctions
import SymmetricKey.Proofs.ByteStrings
import Mathlib.Tactic.ByContra

/-!
The chain under the MACs of a block cipher, and the tag of a message in one
piece. A chain holds the last block of its message back, also a complete one;
the chaining value is that of all blocks before it. Over a cipher that may
refuse, taking bytes in either goes through or breaks off at a complete block.
-/

namespace SymmetricKey.CbcChain

section Definition
variable {size : Nat} (function : Block size → Block size)

/-- Each block is added to the value of those before it and enciphered. -/
def chained (blocks : List Bytes) : Bytes :=
  blocks.foldl (fun value block => Block.onBytes function (Bytes.xor value block))
    (Bytes.zeros size)

def front (size : Nat) (message : Bytes) : Bytes :=
  message.take ((message.length - 1) / size * size)

def lastOf (size : Nat) (message : Bytes) : Bytes :=
  message.drop ((message.length - 1) / size * size)

/-- A complete last block is masked by `full`. Any other, that of the empty message too, is marked
and filled up, and masked by `partly`. -/
def maskedLast (size : Nat) (full partly message : Bytes) : Bytes :=
  let last := lastOf size message
  if message ≠ [] ∧ message.length % size = 0 then Bytes.xor last full
  else Bytes.xor (last ++ 0x80 :: Bytes.zeros (size - last.length - 1)) partly

def valueBefore (message : Bytes) : Bytes :=
  chained function (Bytes.wholeBlocks size (front size message))

def tagOf (full partly message : Bytes) : Bytes :=
  Block.onBytes function
    (Bytes.xor (valueBefore function message) (maskedLast size full partly message))

end Definition

theorem cut_exact (size : Nat) (front last : Bytes) (count : Nat) (positive : 0 < size)
    (aligned : front.length = count * size) (fits : last.length ≤ size)
    (held : last = [] → front = []) :
    ((front ++ last).length - 1) / size * size = front.length ∧
      (front ++ last ≠ [] ∧ (front ++ last).length % size = 0 ↔ last.length = size) := by
  rw [List.length_append, aligned]
  by_cases none : last = []
  · have empty := held none
    subst none empty
    have zero : count * size = 0 := aligned.symm
    simp only [zero, List.length_nil, List.append_nil, ne_eq, not_true_eq_false, false_and,
      false_iff]
    exact ⟨by simp, by omega⟩
  · have some : 0 < last.length := List.length_pos_iff.mpr none
    have blocks : (count * size + last.length - 1) / size = count := by
      apply Nat.div_eq_of_lt_le
      · omega
      · rw [Nat.succ_mul]
        omega
    have rest : (count * size + last.length) % size = last.length % size := by
      rw [Nat.add_comm, Nat.add_mul_mod_self_right]
    refine ⟨by rw [blocks], ?_⟩
    rw [rest]
    constructor
    · rintro ⟨_, whole⟩
      by_contra other
      rw [Nat.mod_eq_of_lt (by omega)] at whole
      omega
    · intro whole
      rw [whole, Nat.mod_self]
      simp [none]

-- Kept by every call, also by one that the cipher refuses.
structure Shaped (size : Nat) (chain : CbcChain) : Prop where
  blocks : chain.blockSize = size
  value : chain.value.length = size
  pending : chain.pending.length ≤ size

/-- All of the message has been taken in. -/
def StandsFor {size : Nat} (function : Block size → Block size) (chain : CbcChain)
    (message : Bytes) : Prop :=
  ∃ front count, front.length = count * size ∧ message = front ++ chain.pending ∧
    (chain.pending = [] → front = []) ∧
    chain.value = chained function (Bytes.wholeBlocks size front)

theorem empty_shaped (size : Nat) : Shaped size (empty size) :=
  ⟨rfl, List.length_replicate, Nat.zero_le size⟩

theorem empty_stands_for {size : Nat} (function : Block size → Block size) :
    StandsFor function (empty size) [] := by
  refine ⟨[], 0, by simp, rfl, fun _ => rfl, ?_⟩
  simp [empty, chained, Bytes.wholeBlocks]

section Taking
variable {size : Nat} (function : Block size → Block size)

def takeByte (chain : CbcChain) (byte : UInt8) : CbcChain :=
  if chain.pending.length = size then
    { chain with
      value := Block.onBytes function (Bytes.xor chain.value chain.pending), pending := [byte] }
  else { chain with pending := chain.pending ++ [byte] }

def takeAll (chain : CbcChain) (data : Bytes) : CbcChain := data.foldl (takeByte function) chain

theorem take_byte_shaped (positive : 0 < size) (chain : CbcChain) (shaped : Shaped size chain)
    (byte : UInt8) : Shaped size (takeByte function chain byte) := by
  obtain ⟨blocks, value, pending⟩ := shaped
  by_cases full : chain.pending.length = size
  · rw [takeByte, if_pos full]
    exact ⟨blocks, Block.on_bytes_length function _, positive⟩
  · rw [takeByte, if_neg full]
    refine ⟨blocks, value, ?_⟩
    rw [List.length_append, List.length_singleton]
    omega

theorem take_byte_stands_for (positive : 0 < size) (chain : CbcChain) (message : Bytes)
    (standing : StandsFor function chain message) (byte : UInt8) :
    StandsFor function (takeByte function chain byte) (message ++ [byte]) := by
  obtain ⟨front, count, aligned, rfl, held, value⟩ := standing
  by_cases full : chain.pending.length = size
  · have blocks := Bytes.whole_blocks_append size front chain.pending positive count aligned
    have single := Bytes.whole_blocks_single size chain.pending positive full
    rw [takeByte, if_pos full]
    refine ⟨front ++ chain.pending, count + 1, ?_, rfl, (fun none => by cases none), ?_⟩
    · rw [List.length_append, aligned, full, Nat.succ_mul]
    · rw [blocks, single, chained, List.foldl_append, ← chained, ← value]
      rfl
  · rw [takeByte, if_neg full]
    refine ⟨front, count, aligned, List.append_assoc _ _ _, ?_, value⟩
    intro none
    simp at none

theorem take_all_shaped (positive : 0 < size) (chain : CbcChain) (shaped : Shaped size chain)
    (data : Bytes) : Shaped size (takeAll function chain data) := by
  induction data generalizing chain with
  | nil => exact shaped
  | cons byte rest ih => exact ih _ (take_byte_shaped function positive chain shaped byte)

theorem take_all_stands_for (positive : 0 < size) (chain : CbcChain) (message : Bytes)
    (standing : StandsFor function chain message) (data : Bytes) :
    StandsFor function (takeAll function chain data) (message ++ data) := by
  induction data generalizing chain message with
  | nil =>
      rw [List.append_nil]
      exact standing
  | cons byte rest ih =>
      have later := ih _ _ (take_byte_stands_for function positive chain message standing byte)
      rwa [List.append_assoc] at later

end Taking

-- Nothing but the message decides what a chain holds.
theorem stands_exact {size : Nat} (function : Block size → Block size) (positive : 0 < size)
    (chain : CbcChain) (message : Bytes) (shaped : Shaped size chain)
    (standing : StandsFor function chain message) :
    chain.value = valueBefore function message ∧ chain.pending = lastOf size message ∧
      (message ≠ [] ∧ message.length % size = 0 ↔ chain.pending.length = size) := by
  obtain ⟨front, count, aligned, rfl, held, value⟩ := standing
  obtain ⟨cut, complete⟩ :=
    cut_exact size front chain.pending count positive aligned shaped.pending held
  refine ⟨?_, ?_, complete⟩
  · rw [valueBefore, CbcChain.front, cut, List.take_left, value]
  · rw [lastOf, cut, List.drop_left]

theorem last_block_masked {size : Nat} (function : Block size → Block size) (positive : 0 < size)
    (chain : CbcChain) (message full partly : Bytes) (shaped : Shaped size chain)
    (standing : StandsFor function chain message) :
    chain.lastBlock full partly = maskedLast size full partly message := by
  obtain ⟨_, last, complete⟩ := stands_exact function positive chain message shaped standing
  simp only [maskedLast, complete, ← last]
  rw [lastBlock, shaped.blocks]

theorem absorb_append {C : Type} [BlockCipher C] (cipher : C) (chain : CbcChain)
    (data more : Bytes) :
    absorb cipher chain (data ++ more) =
      let first := absorb cipher chain data
      if first.refusal.isSome then first else absorb first.cipher first.chain more := by
  -- Where data is cut makes no difference to any cipher, as the cut falls between two bytes.
  induction data generalizing cipher chain with
  | nil => rfl
  | cons byte rest ih =>
      rw [List.cons_append, absorb, absorb]
      by_cases full : chain.pending.length = chain.blockSize
      · simp only [if_pos full]
        cases refused : (advance cipher chain chain.pending).refusal with
        | none => simpa using ih _ _
        | some cause => simp [refused]
      · simp only [if_neg full]
        exact ih _ _

-- Data is refused only with a call of the cipher, behind calls that were answered.
theorem absorb_refused {C : Type} [BlockCipher C] (cipher : C) (chain : CbcChain)
    (whole : chain.value.length = chain.blockSize) (data : Bytes) (cause : Error)
    (refused : (absorb cipher chain data).refusal = some cause) :
    ∃ last block, Answered chain.blockSize cipher last ∧ block.length = chain.blockSize ∧
      BlockCipher.encryptBlock last block chain.blockSize =
        (.error cause, (absorb cipher chain data).cipher) := by
  induction data generalizing cipher chain with
  | nil => cases refused
  | cons byte rest ih =>
      rw [absorb] at refused ⊢
      by_cases full : chain.pending.length = chain.blockSize
      · rw [if_pos full] at refused ⊢
        have single : (chain.value.xor chain.pending).length = chain.blockSize := by
          rw [Bytes.xor_length, whole, full, Nat.min_self]
        cases called : BlockCipher.encryptBlock cipher (chain.value.xor chain.pending)
            chain.blockSize with
        | mk outcome next =>
            cases outcome with
            | error other =>
                simp only [advance, called, Option.isSome_some, if_true] at refused ⊢
                cases refused
                exact ⟨cipher, _, .none cipher, single, called⟩
            | ok answer =>
                -- The chaining value is then the answer, which is a block.
                simp only [advance, called, Option.isSome_none] at refused ⊢
                obtain ⟨last, block, answered, width, failed⟩ :=
                  ih next { chain with value := answer.toList, pending := [byte] }
                    answer.length_toList refused
                exact ⟨last, block, .call cipher next last _ answer single called answered, width,
                  failed⟩
      · rw [if_neg full] at refused ⊢
        exact ih cipher { chain with pending := chain.pending ++ [byte] } whole refused

section Cipher
variable {C : Type} [BlockCipher C] {size : Nat} (function : Block size → Block size)

theorem advance_outcomes (cipher : C) (honest : AnswersBy function cipher) (chain : CbcChain)
    (shaped : Shaped size chain) (block : Bytes) (single : block.length = size) :
    ∃ next, AnswersBy function next ∧
      (advance cipher chain block =
          { chain := { chain with value := Block.onBytes function (Bytes.xor chain.value block) }
            cipher := next, refusal := none } ∨
        ∃ cause, BlockCipher.encryptBlock cipher (Bytes.xor chain.value block) size =
            (.error cause, next) ∧
          advance cipher chain block =
            { chain := { chain with value := Bytes.xor chain.value block }
              cipher := next, refusal := some cause }) := by
  obtain ⟨blocks, value, _⟩ := shaped
  cases chain with
  | mk blockSize chaining pending =>
      have same : size = blockSize := blocks.symm
      subst same
      have width : (Bytes.xor chaining block).length = size := by
        rw [Bytes.xor_length, single, value, Nat.min_self]
      obtain ⟨next, kept, outcome⟩ := honest.call function cipher _ width
      refine ⟨next, kept, ?_⟩
      rcases outcome with answered | ⟨cause, refused⟩
      · exact Or.inl (by simp only [advance, answered]; rfl)
      · exact Or.inr ⟨cause, refused, by simp only [advance, refused]⟩

/-- Where the cipher refuses, a complete block has been added to the chaining value and is still
pending. -/
def spoiled (chain : CbcChain) : CbcChain :=
  { chain with value := Bytes.xor chain.value chain.pending }

theorem spoiled_shaped (chain : CbcChain) (shaped : Shaped size chain)
    (full : chain.pending.length = size) : Shaped size (spoiled chain) := by
  refine ⟨shaped.blocks, ?_, shaped.pending⟩
  rw [spoiled, Bytes.xor_length, shaped.value, full, Nat.min_self]

-- The bytes go in one after the other, or all up to one that finds a complete block in its way.
theorem absorb_outcomes (positive : 0 < size) (cipher : C) (honest : AnswersBy function cipher)
    (chain : CbcChain) (shaped : Shaped size chain) (data : Bytes) :
    ∃ next, AnswersBy function next ∧
      (absorb cipher chain data =
          { chain := takeAll function chain data, cipher := next, refusal := none } ∨
        ∃ taken byte more cause, data = taken ++ byte :: more ∧
          (takeAll function chain taken).pending.length = size ∧
          absorb cipher chain data =
            { chain := spoiled (takeAll function chain taken), cipher := next
              refusal := some cause }) := by
  -- A full block waits for one byte more. Only then is the cipher called.
  induction data generalizing cipher chain with
  | nil => exact ⟨cipher, honest, Or.inl rfl⟩
  | cons byte rest ih =>
      by_cases full : chain.pending.length = size
      · have blocked : chain.pending.length = chain.blockSize := full.trans shaped.blocks.symm
        obtain ⟨next, kept, outcome⟩ :=
          advance_outcomes function cipher honest chain shaped chain.pending full
        rcases outcome with answered | ⟨cause, _, refused⟩
        · have taken : takeByte function chain byte =
              { chain with
                value := Block.onBytes function (Bytes.xor chain.value chain.pending)
                pending := [byte] } := if_pos full
          obtain ⟨last, honestLast, later⟩ :=
            ih next kept _ (take_byte_shaped function positive chain shaped byte)
          have step : absorb cipher chain (byte :: rest) =
              absorb next (takeByte function chain byte) rest := by
            rw [absorb, if_pos blocked, answered, taken]
            rfl
          refine ⟨last, honestLast, ?_⟩
          rw [step]
          rcases later with through | ⟨taken, other, more, cause, rfl, held, broken⟩
          · exact Or.inl through
          · exact Or.inr ⟨byte :: taken, other, more, cause, rfl, held, broken⟩
        · refine ⟨next, kept, Or.inr ⟨[], byte, rest, cause, rfl, full, ?_⟩⟩
          rw [absorb, if_pos blocked, refused]
          rfl
      · have short : ¬chain.pending.length = chain.blockSize := by rwa [shaped.blocks]
        have taken : takeByte function chain byte =
            { chain with pending := chain.pending ++ [byte] } := if_neg full
        obtain ⟨last, honestLast, later⟩ :=
          ih cipher honest _ (take_byte_shaped function positive chain shaped byte)
        have step : absorb cipher chain (byte :: rest) =
            absorb cipher (takeByte function chain byte) rest := by
          rw [absorb, if_neg short, taken]
        refine ⟨last, honestLast, ?_⟩
        rw [step]
        rcases later with through | ⟨taken, other, more, cause, rfl, held, broken⟩
        · exact Or.inl through
        · exact Or.inr ⟨byte :: taken, other, more, cause, rfl, held, broken⟩

theorem last_block_length (chain : CbcChain) (shaped : Shaped size chain) (full partly : Bytes)
    (fullMask : full.length = size) (partMask : partly.length = size) :
    (chain.lastBlock full partly).length = size := by
  obtain ⟨blocks, _, pending⟩ := shaped
  rw [lastBlock, blocks]
  by_cases whole : chain.pending.length = size
  · rw [if_pos whole, Bytes.xor_length, whole, fullMask, Nat.min_self]
  · rw [if_neg whole, Bytes.xor_length, partMask, List.length_append, List.length_cons, Bytes.zeros,
      List.length_replicate]
    omega

/-- A chain whose last block was refused keeps that block masked, and added to its value. -/
def masked (chain : CbcChain) (full partly : Bytes) : CbcChain :=
  { chain with
    value := Bytes.xor chain.value (chain.lastBlock full partly)
    pending := (chain.lastBlock full partly).take chain.pending.length }

theorem finish_outcomes (cipher : C) (honest : AnswersBy function cipher) (chain : CbcChain)
    (shaped : Shaped size chain) (full partly : Bytes) (fullMask : full.length = size)
    (partMask : partly.length = size) :
    ∃ next, AnswersBy function next ∧
      (chain.finish cipher full partly =
          (.ok (Block.onBytes function (Bytes.xor chain.value (chain.lastBlock full partly))),
            empty size, next) ∨
        ∃ cause, BlockCipher.encryptBlock cipher
            (Bytes.xor chain.value (chain.lastBlock full partly)) size = (.error cause, next) ∧
          chain.finish cipher full partly = (.error cause, masked chain full partly, next)) := by
  have single := last_block_length chain shaped full partly fullMask partMask
  obtain ⟨next, kept, outcome⟩ :=
    advance_outcomes function cipher honest chain shaped (chain.lastBlock full partly) single
  refine ⟨next, kept, ?_⟩
  rcases outcome with answered | ⟨cause, called, refused⟩
  · exact Or.inl (by simp only [finish, answered, reset, shaped.blocks])
  · exact Or.inr ⟨cause, called, by simp only [finish, refused, masked]⟩

theorem masked_shaped (chain : CbcChain) (shaped : Shaped size chain) (full partly : Bytes)
    (fullMask : full.length = size) (partMask : partly.length = size) :
    Shaped size (masked chain full partly) := by
  have single := last_block_length chain shaped full partly fullMask partMask
  refine ⟨shaped.blocks, ?_, ?_⟩
  · rw [masked, Bytes.xor_length, shaped.value, single, Nat.min_self]
  · rw [masked, List.length_take, single]
    exact Nat.min_le_right _ _

end Cipher

section Steady
variable {C : Type} [BlockCipher C] {size : Nat} (function : Block size → Block size) (cipher : C)
  (steady : Enciphers function cipher) (chain : CbcChain) (shaped : Shaped size chain)
include steady shaped

theorem advance_steady (block : Bytes) (single : block.length = size) :
    ∃ next, Enciphers function next ∧ advance cipher chain block =
      { chain := { chain with value := Block.onBytes function (Bytes.xor chain.value block) }
        cipher := next, refusal := none } := by
  obtain ⟨blocks, value, _⟩ := shaped
  have width : (Bytes.xor chain.value block).length = size := by
    rw [Bytes.xor_length, single, value, Nat.min_self]
  obtain ⟨next, kept, answered⟩ := steady.call function cipher _ width
  subst blocks
  refine ⟨next, kept, ?_⟩
  simp only [advance, answered]
  rfl

theorem absorb_steady (positive : 0 < size) (data : Bytes) :
    ∃ next, Enciphers function next ∧ absorb cipher chain data =
      { chain := takeAll function chain data, cipher := next, refusal := none } := by
  induction data generalizing cipher chain with
  | nil => exact ⟨cipher, steady, rfl⟩
  | cons byte rest ih =>
      have further := take_byte_shaped function positive chain shaped byte
      by_cases full : chain.pending.length = size
      · have taken : takeByte function chain byte =
            { chain with
              value := Block.onBytes function (Bytes.xor chain.value chain.pending)
              pending := [byte] } := if_pos full
        obtain ⟨next, kept, answered⟩ :=
          advance_steady function cipher steady chain shaped chain.pending full
        obtain ⟨last, steadyLast, later⟩ := ih next kept _ further
        have step : absorb cipher chain (byte :: rest) =
            absorb next (takeByte function chain byte) rest := by
          rw [absorb, if_pos (full.trans shaped.blocks.symm), answered, taken]
          rfl
        exact ⟨last, steadyLast, step.trans later⟩
      · have taken : takeByte function chain byte =
            { chain with pending := chain.pending ++ [byte] } := if_neg full
        obtain ⟨last, steadyLast, later⟩ := ih cipher steady _ further
        have step : absorb cipher chain (byte :: rest) =
            absorb cipher (takeByte function chain byte) rest := by
          rw [absorb, if_neg (by rwa [shaped.blocks]), taken]
        exact ⟨last, steadyLast, step.trans later⟩

theorem finish_steady (full partly : Bytes) (fullMask : full.length = size)
    (partMask : partly.length = size) :
    ∃ next, Enciphers function next ∧ chain.finish cipher full partly =
      (.ok (Block.onBytes function (Bytes.xor chain.value (chain.lastBlock full partly))),
        empty size, next) := by
  have single := last_block_length chain shaped full partly fullMask partMask
  obtain ⟨next, kept, answered⟩ :=
    advance_steady function cipher steady chain shaped (chain.lastBlock full partly) single
  refine ⟨next, kept, ?_⟩
  simp only [finish, answered, reset, shaped.blocks]

end Steady

end SymmetricKey.CbcChain
