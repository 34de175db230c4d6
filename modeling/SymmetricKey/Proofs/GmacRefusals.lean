import SymmetricKey.Proofs.GmacCalls

/-!
GMAC over a cipher that may refuse. The block of lengths goes into the hash
before the mask is asked for, and a refused mask does not take it out again.
The vector stays set, so the caller may ask again, and is then given the tag of
a string with that block in it once more for every refusal.
-/

namespace SymmetricKey.Gmac

open Gcm.Standard (hashPoint firstCounter)
open Ghash (filled lengthBlock)

/-- The data filled up to whole blocks, with the block of its length behind it `count` times. -/
def lengthsRepeated (data : Bytes) (count : Nat) : Bytes :=
  filled data ++ (List.replicate count (lengthBlock (UInt64.ofNat data.length) 0)).flatten

def hashedBehind (data : Bytes) : Nat → Bytes
  | 0 => data
  | count + 1 => lengthsRepeated data (count + 1)

theorem closed_hashed_behind (data : Bytes) (count : Nat) :
    closed (hashedBehind data count) data.length = lengthsRepeated data (count + 1) := by
  cases count with
  | zero => simp [closed, hashedBehind, lengthsRepeated]
  | succ count =>
      have blocks : ∀ block ∈ List.replicate (count + 1) (lengthBlock (UInt64.ofNat data.length) 0),
          block.length = 16 := by
        intro block member
        rw [List.eq_of_mem_replicate member]
        exact Ghash.length_block_length _ _
      have aligned : (lengthsRepeated data (count + 1)).length =
          ((data.length + 15) / 16 + (count + 1)) * 16 := by
        rw [lengthsRepeated, List.length_append, Ghash.filled_length, List.length_flatten,
          List.map_congr_left blocks]
        simp
        omega
      have further : List.replicate (count + 1 + 1) (lengthBlock (UInt64.ofNat data.length) 0) =
          List.replicate (count + 1) (lengthBlock (UInt64.ofNat data.length) 0) ++
            [lengthBlock (UInt64.ofNat data.length) 0] := List.replicate_succ'
      rw [closed, hashedBehind, Ghash.filled_aligned _ _ aligned, lengthsRepeated, lengthsRepeated,
        further, List.flatten_append, List.flatten_singleton, List.append_assoc]

variable {C : Type} [BlockCipher C]

/-- The cipher may refuse but does not lie, the key is its own, and a vector that is set is one
block. -/
def Sound (function : Block 16 → Block 16) (context : Gmac C) : Prop :=
  AnswersBy function context.cipher ∧ Keyed function context ∧
    ∀ start, context.start = some start → start.length = 16

theorem finish_sound (function : Block 16 → Block 16) (context : Gmac C)
    (sound : Sound function context) (size : Nat) : Sound function (context.finish size).2 := by
  by_cases inside : 4 ≤ size ∧ size ≤ 16
  · cases set : context.start with
    | none =>
        rw [finish_unstarted context size set]
        exact sound
    | some start =>
        have right : checkTagSize size Gcm.minTagSize Gcm.maxTagSize = .ok () :=
          check_tag_size_inside _ _ _ inside.1 inside.2
        obtain ⟨honest, keyed, blocks⟩ := sound
        obtain ⟨after, kept, outcome⟩ :=
          honest.call function context.cipher start (blocks start set)
        rw [finish, right, set]
        rcases outcome with answer | ⟨cause, refused⟩
        · simp only [Gcm.blockSize, answer]
          exact ⟨kept, keyed, fun _ none => by cases none⟩
        · simp only [Gcm.blockSize, refused]
          exact ⟨kept, keyed, fun other same => blocks other (set.trans same)⟩
  · rw [finish_outside context size inside]
    exact sound

theorem serve_sound (function : Block 16 → Block 16) (context : Gmac C)
    (sound : Sound function context) (call : MacCall Bytes) :
    Sound function (context.serve call).2 := by
  cases call with
  | absorb data => exact sound
  | finish size => exact finish_sound function context sound size
  | reset iv =>
      by_cases empty : iv = []
      · subst empty
        exact sound
      · obtain ⟨_, same, holds⟩ := reset_holds function context sound.2.1 iv empty
        refine ⟨?_, holds.keyed, ?_⟩
        · rw [same]
          exact sound.1
        · intro start set
          cases set.symm.trans holds.started
          exact Gcm.first_counter_length function iv

theorem run_sound (function : Block 16 → Block 16) (context : Gmac C)
    (sound : Sound function context) (calls : List (MacCall Bytes)) :
    Sound function (CallRun.run serve context calls).2 :=
  CallRun.run_keeps serve (fun _ context => Sound function context)
    (fun _ context call here => serve_sound function context here call) context sound calls

/-- All of the data has been absorbed for this vector, and its tag was refused `count` times. -/
def RefusedFor (function : Block 16 → Block 16) (context : Gmac C) (iv data : Bytes)
    (count : Nat) : Prop :=
  AnswersBy function context.cipher ∧
    Holds function context iv (hashedBehind data count) data.length

section Refused
variable (function : Block 16 → Block 16) (context : Gmac C) (iv data : Bytes) (count : Nat)
  (refusedFor : RefusedFor function context iv data count)
include refusedFor

theorem finish_again (size : Nat) (inside : 4 ≤ size ∧ size ≤ 16) :
    (context.finish size).1 =
        .ok (maskedHash function iv (lengthsRepeated data (count + 1)) size) ∨
      ∃ cause, (context.finish size).1 = .error cause ∧
        RefusedFor function (context.finish size).2 iv data (count + 1) := by
  obtain ⟨honest, holds⟩ := refusedFor
  obtain ⟨after, kept, outcome⟩ :=
    honest.call function context.cipher _ (Gcm.first_counter_length function iv)
  have hashed := closed_hashed_behind data count
  rcases outcome with answered | ⟨cause, refused⟩
  · rw [finish_answered function context iv _ _ holds size inside after answered, hashed]
    exact Or.inl rfl
  · obtain ⟨next, answer, same, stands⟩ :=
      finish_unanswered function context iv _ _ holds size inside cause after refused
    rw [hashed] at stands
    rw [answer]
    refine Or.inr ⟨cause, rfl, ?_, stands⟩
    change AnswersBy function next.cipher
    rwa [same]

theorem finish_again_tag (size : Nat) (tag : Bytes) (given : (context.finish size).1 = .ok tag) :
    tag = maskedHash function iv (lengthsRepeated data (count + 1)) size := by
  by_cases inside : 4 ≤ size ∧ size ≤ 16
  · rcases finish_again function context iv data count refusedFor size inside with
      answered | ⟨cause, refused, _⟩
    · rw [answered] at given
      cases given
      rfl
    · rw [refused] at given
      cases given
  · rw [finish_outside context size inside] at given
    cases given

theorem refused_again (size : Nat) (inside : 4 ≤ size ∧ size ≤ 16) (cause : Error)
    (refused : (context.serve (.finish size)).1 = .refused cause) :
    RefusedFor function (context.serve (.finish size)).2 iv data (count + 1) := by
  have failed : (context.finish size).1 = .error cause :=
    (MacAnswer.of_tag_refused_iff _ cause).mp refused
  rcases finish_again function context iv data count refusedFor size inside with
    answered | ⟨_, _, next⟩
  · rw [answered] at failed
    cases failed
  · exact next

end Refused

theorem absorb_run (function : Block 16 → Block 16) (context : Gmac C)
    (iv data : Bytes) (refusedFor : RefusedFor function context iv data 0) (pieces : List Bytes) :
    RefusedFor function (CallRun.run serve context (pieces.map .absorb)).2 iv
      (data ++ pieces.flatten) 0 := by
  induction pieces generalizing context data with
  | nil =>
      rw [List.flatten_nil, List.append_nil]
      exact refusedFor
  | cons piece rest ih =>
      obtain ⟨honest, holds⟩ := refusedFor
      have absorbed := absorb_holds function context iv data data.length holds piece
      rw [← List.length_append] at absorbed
      have later := ih (context.absorb piece) (data ++ piece) ⟨honest, absorbed⟩
      rwa [List.append_assoc] at later

theorem masked_hash_eq_iff (function : Block 16 → Block 16) (iv left right : Bytes) (size : Nat) :
    maskedHash function iv left size = maskedHash function iv right size ↔
      (Ghash.hash (hashPoint function) left).take size =
        (Ghash.hash (hashPoint function) right).take size := by
  have covered : ∀ string, ((Ghash.hash (hashPoint function) string).take size).length ≤
      ((Block.onBytes function (firstCounter function iv)).take size).length := by
    intro string
    simp [Ghash.hash]
  have cut : ∀ string, maskedHash function iv string size =
      Bytes.xor ((Ghash.hash (hashPoint function) string).take size)
        ((Block.onBytes function (firstCounter function iv)).take size) := by
    intro string
    rw [maskedHash, Bytes.xor_take, Bytes.xor_comm]
  rw [cut, cut, Bytes.xor_inj _ _ _ (covered left) (covered right)]

/-- However a context was used before, the tag of a message is the right one as long as it was
never refused. Behind refusals it is the tag of another string, and so right only where the two
strings hash to the same bytes. -/
theorem tag_behind_refusals (function : Block 16 → Block 16) (cipher : C) (fresh : Gmac C)
    (honest : AnswersBy function cipher) (made : ofCipher cipher = .ok fresh)
    (before : List (MacCall Bytes)) (iv : Bytes) (given : iv ≠ []) (pieces : List Bytes)
    (sizes : List Nat) (inside : ∀ size ∈ sizes, 4 ≤ size ∧ size ≤ 16) :
    let absorbed := (CallRun.run serve fresh (before ++ .reset iv :: pieces.map .absorb)).2
    let tried := CallRun.run serve absorbed (sizes.map .finish)
    (∀ entry ∈ tried.1, ∃ cause, entry.2 = .refused cause) →
      ∀ size tag, (tried.2.finish size).1 = .ok tag →
        tag = maskedHash function iv (lengthsRepeated pieces.flatten (sizes.length + 1)) size ∧
        (tag = Gcm.Standard.cipherTag function iv pieces.flatten [] size ↔
          (Ghash.hash (hashPoint function)
              (lengthsRepeated pieces.flatten (sizes.length + 1))).take size =
            (Ghash.hash (hashPoint function) (lengthsRepeated pieces.flatten 1)).take size) := by
  intro absorbed tried refused size tag answered
  obtain ⟨kept, keyed, none⟩ := of_cipher_keyed function cipher fresh honest made
  have sound := run_sound function fresh
    ⟨kept, keyed, fun start set => by rw [none] at set; cases set⟩ before
  have started : RefusedFor function ((CallRun.run serve fresh before).2.serve (.reset iv)).2
      iv [] 0 := by
    obtain ⟨_, same, holds⟩ := reset_holds function _ sound.2.1 iv given
    refine ⟨?_, holds⟩
    rw [same]
    exact sound.1
  have whole : RefusedFor function absorbed iv pieces.flatten 0 := by
    have later := absorb_run function _ iv [] started pieces
    have split := CallRun.run_append serve fresh before (.reset iv :: pieces.map .absorb)
    change RefusedFor function (CallRun.run serve fresh _).2 iv pieces.flatten 0
    rw [split]
    exact later
  -- Each refused tag leaves one more block of lengths in the hash.
  have last := CallRun.run_refused serve
    (fun count context => RefusedFor function context iv pieces.flatten count) _
    (fun count context size cause here inside refused =>
      refused_again function context iv _ count here size inside cause refused)
    0 absorbed whole sizes inside refused
  rw [Nat.zero_add] at last
  have value := finish_again_tag function _ iv _ _ last size tag answered
  refine ⟨value, ?_⟩
  rw [value, ← masked_hash_closed, ← masked_hash_eq_iff function iv,
    ← closed_hashed_behind pieces.flatten 0, hashedBehind]

-- Gives the key of the hash, refuses the first mask and gives the second.
def flaky : Planned (BlockFunction 16) := { cipher := Gcm.masking, plan := [none, some .failure] }

theorem tag_behind_one_refusal :
    ∃ fresh, ofCipher flaky = .ok fresh ∧
      let refused := (CallRun.run serve fresh [.reset [1], .absorb [2], .absorb [3], .finish 4]).2
      ∃ tag, (refused.finish 5).1 = .ok tag ∧
        tag = maskedHash Gcm.masking.apply [1] (lengthsRepeated [2, 3] 2) 5 := by
  have honest : AnswersBy Gcm.masking.apply flaky :=
    Planned.answers_by _ _ (Gcm.masking.enciphers.answers_by _ _) _
  refine ⟨_, rfl, _, rfl, ?_⟩
  exact (tag_behind_refusals Gcm.masking.apply flaky _ honest rfl [] [1] (by decide) [[2], [3]] [4]
    (by decide) (by
      intro entry member
      exact ⟨.failure, by rw [List.mem_singleton.mp member]; rfl⟩) 5 _ rfl).1

/-- The vector and the data are those of the first request, the tag is not theirs. -/
theorem second_request_spoiled :
    ∃ fresh, ofCipher flaky = .ok fresh ∧
      let absorbed := (CallRun.run serve fresh [.reset [1], .absorb [2]]).2
      (absorbed.finish 4).1 = .error .failure ∧
        ∃ tag, ((absorbed.finish 4).2.finish 4).1 = .ok tag ∧
          tag ≠ Gcm.Standard.cipherTag Gcm.masking.apply [1] [2] [] 4 := by
  refine ⟨_, rfl, rfl, _, rfl, ?_⟩
  decide +kernel

end SymmetricKey.Gmac
