import SymmetricKey.Proofs.GcmCalls
import Mathlib.Data.List.Nodup

/-!
No counter block is enciphered twice. Counter mode meets a block again only
after all values of the counting bytes, and the limit on texts under
authenticated encryption ends a message before its counters come back to the
one that masks the tag.
-/

namespace SymmetricKey

namespace Ctr

variable {C : Type} [BlockCipher C]

theorem recorded_encrypt_forget (cipher : C) (bits : Nat) (counter input : Bytes) (room : Nat) :
    Recording.forget (encrypt (Recording.start cipher) bits counter input room) =
      encrypt cipher bits counter input room := by
  have checks : checkRegister (Recording.start cipher) counter input room =
      checkRegister cipher counter input room := rfl
  rw [encrypt, encrypt, checks]
  cases checkRegister cipher counter input room with
  | error cause => rfl
  | ok size =>
      by_cases width : bits % 8 ≠ 0 ∨ size < bits / 8
      · simp only [if_pos width]
        rfl
      · simp only [if_neg width]
        exact recorded_run_forget (bits / 8) (Recording.start cipher) counter (input.segments size)

theorem recorded_encrypt_asked (cipher : C) (bits : Nat) (counter input : Bytes) (room : Nat) :
    ∃ count, (encrypt (Recording.start cipher) bits counter input room).cipher.asked =
        (List.range count).map (counterAt (bits / 8) counter) ∧
      (0 < count → 0 < counter.length ∧ bits % 8 = 0 ∧ bits / 8 ≤ counter.length) ∧
      count ≤ (input.length + counter.length - 1) / counter.length ∧
      ((encrypt (Recording.start cipher) bits counter input room).refusal = none →
        count = (input.length + counter.length - 1) / counter.length) := by
  -- A call that is refused before its first block asks nothing; any other one goes through the
  -- counter blocks from the initial one on.
  have nothing : ∀ cause, (Progress.refused cause counter (Recording.start cipher)).cipher.asked =
      (List.range 0).map (counterAt (bits / 8) counter) := fun _ => rfl
  rw [encrypt]
  cases checked : checkRegister (Recording.start cipher) counter input room with
  | error cause => exact ⟨0, nothing cause, by simp, by simp, by simp [Progress.refused]⟩
  | ok size =>
      obtain ⟨_, exact, positive, _, _⟩ :=
        check_register_ok (Recording.start cipher) counter input room size checked
      by_cases width : bits % 8 ≠ 0 ∨ size < bits / 8
      · simp only [if_pos width]
        exact ⟨0, nothing .invalidParameter, by simp, by simp, by simp [Progress.refused]⟩
      · have blocks := Bytes.segments_length size input positive
        obtain ⟨count, bound, asked, all⟩ := recorded_run_asked (bits / 8) (Recording.start cipher)
          counter (input.segments size) (by omega)
        simp only [if_neg width]
        rw [exact, ← blocks]
        exact ⟨count, by simpa [Recording.start] using asked, by omega, bound, all⟩

theorem counter_blocks_nodup (width : Nat) (counter : Bytes) (count : Nat)
    (below : count ≤ 256 ^ width) : ((List.range count).map (counterAt width counter)).Nodup := by
  apply List.Nodup.map_on _ List.nodup_range
  intro first firstIn second secondIn same
  have low := (counter_at_eq_iff width counter first second).mp same
  rw [List.mem_range] at firstIn secondIn
  rwa [Nat.mod_eq_of_lt (by omega), Nat.mod_eq_of_lt (by omega)] at low

theorem begun_blocks_le (length size limit : Nat) (few : length ≤ limit * size) :
    (length + size - 1) / size ≤ limit := by
  rcases Nat.eq_zero_or_pos size with none | positive
  · simp [none]
  · rw [← Nat.lt_succ_iff, Nat.div_lt_iff_lt_mul positive, Nat.succ_mul]
    omega

end Ctr

/-- The same context, with the blocks written down that its cipher is asked from now on. -/
def Gcm.recording {C : Type} (context : Gcm C) : Gcm (Recording C) :=
  { cipher := Recording.start context.cipher, key := context.key }

theorem Gcm.recorded_text_asked {C : Type} [BlockCipher C] (context : Gcm C) (start : Block 16)
    (input : Bytes) :
    ∃ count, (context.recording.cryptText start.toList input).cipher.asked =
        (List.range count).map (fun index => Ctr.counterAt 4 start.toList (index + 1)) ∧
      count ≤ (input.length + 15) / 16 ∧
      ((context.recording.cryptText start.toList input).refusal = none →
        count = (input.length + 15) / 16) := by
  have block : start.toList.length = 16 := by simp
  have moved : (Ctr.increment 4 start.toList).length = 16 := by
    rw [Ctr.increment_length 4 _ (by omega), block]
  obtain ⟨count, asked, _, bound, all⟩ :=
    Ctr.recorded_encrypt_asked context.cipher 32 (Ctr.increment 4 start.toList) input input.length
  rw [moved] at bound all
  refine ⟨count, ?_, bound, all⟩
  rw [cryptText, recording, asked]
  apply List.map_congr_left
  intro index _
  exact Ctr.counter_at_increment 4 _ index (by omega)

/-- Within one round of the counting bytes, counter mode enciphers pairwise different blocks that
share the bytes above the counting ones. An accepted text under authenticated encryption is
shorter than a round by two blocks, and its counter blocks also stay clear of the first one,
which masks the tag. -/
theorem counter_blocks_never_repeat {C : Type} [BlockCipher C] :
    (∀ (cipher : C) (bits : Nat) (counter input : Bytes) (room : Nat),
      input.length ≤ 2 ^ bits * counter.length →
        let call := Ctr.encrypt (Recording.start cipher) bits counter input room
        Recording.forget call = Ctr.encrypt cipher bits counter input room ∧
          call.cipher.asked.Nodup ∧
          (∀ block ∈ call.cipher.asked, block.length = counter.length ∧
            block.take (counter.length - bits / 8) = counter.take (counter.length - bits / 8)) ∧
          (call.refusal = none →
            call.cipher.asked.length = (input.length + counter.length - 1) / counter.length)) ∧
    (∀ (context : Gcm C) (start : Block 16) (input : Bytes) (room : Nat),
      Gcm.checkText input.length room = .ok () →
        let call := context.recording.cryptText start.toList input
        Recording.forget call = context.cryptText start.toList input ∧
          call.cipher.asked.Nodup ∧ start.toList ∉ call.cipher.asked ∧
          (call.refusal = none → call.cipher.asked.length = (input.length + 15) / 16)) := by
  constructor
  · intro cipher bits counter input room few
    obtain ⟨count, asked, admitted, bound, all⟩ :=
      Ctr.recorded_encrypt_asked cipher bits counter input room
    have round := Ctr.begun_blocks_le input.length counter.length (2 ^ bits) few
    refine ⟨Ctr.recorded_encrypt_forget cipher bits counter input room, ?_, ?_, ?_⟩
    · rw [asked]
      rcases Nat.eq_zero_or_pos count with none | some
      · simp [none]
      · obtain ⟨_, bytewise, _⟩ := admitted some
        apply Ctr.counter_blocks_nodup
        rw [Ctr.counter_round bits bytewise]
        omega
    · intro block member
      rw [asked] at member
      obtain ⟨index, inside, rfl⟩ := List.mem_map.mp member
      obtain ⟨_, _, room⟩ := admitted (by rw [List.mem_range] at inside; omega)
      exact ⟨Ctr.counter_at_length _ counter index room, Ctr.counter_at_take _ counter index⟩
    · intro finished
      rw [asked, List.length_map, List.length_range, all finished]
  · intro context start input room accepted
    obtain ⟨count, asked, bound, all⟩ := context.recorded_text_asked start input
    have limit := ((Gcm.check_text_ok_iff input.length room).mp accepted).1
    have few := Ctr.begun_blocks_le input.length 16 (2 ^ 32 - 2) limit
    have block : start.toList.length = 16 := by simp
    refine ⟨Ctr.recorded_encrypt_forget _ _ _ _ _, ?_, ?_, ?_⟩
    · -- Together with the first block they are still one round at most.
      have distinct := Ctr.counter_blocks_nodup 4 start.toList (count + 1) (by omega)
      rw [List.range_succ_eq_map, List.map_cons, List.map_map] at distinct
      rw [asked]
      exact (List.nodup_cons.mp distinct).2
    · -- The first block is number zero, and no later number is zero modulo the round.
      intro member
      rw [asked] at member
      obtain ⟨index, inside, same⟩ := List.mem_map.mp member
      rw [List.mem_range] at inside
      have first := Ctr.counter_at_zero 4 start.toList (by omega)
      have round := (Ctr.counter_at_eq_iff 4 start.toList (index + 1) 0).mp (same.trans first.symm)
      norm_num at round
      omega
    · intro finished
      rw [asked, List.length_map, List.length_range, all finished]

/-- Three blocks that count over the end of the last byte, and a message of two blocks whose first
counter is about to go round. -/
theorem counter_blocks_over_the_end :
    (Ctr.encrypt (Recording.start (⟨id⟩ : BlockFunction 2)) 8 [7, 0xFE] [1, 2, 3, 4, 5]
        5).cipher.asked = [[7, 0xFE], [7, 0xFF], [7, 0]] ∧
      (Ctr.encrypt (Recording.start (⟨id⟩ : BlockFunction 2)) 8 [7, 0xFE] [1, 2, 3, 4, 5]
        5).cipher.asked.Nodup ∧
      Gcm.checkText 17 17 = .ok () ∧
      (Vector.replicate 16 (0xFF : UInt8)).toList ∉
        ((Gcm.recording
          { cipher := (⟨id⟩ : BlockFunction 16), key := GhashKey.ofBlock [] }).cryptText
          (Vector.replicate 16 (0xFF : UInt8)).toList (Bytes.zeros 17)).cipher.asked :=
  ⟨by decide +kernel,
    (counter_blocks_never_repeat.1 _ 8 [7, 0xFE] [1, 2, 3, 4, 5] 5 (by decide)).2.1,
    by decide, (counter_blocks_never_repeat.2 _ _ (Bytes.zeros 17) 17 (by decide)).2.2.1⟩

end SymmetricKey
