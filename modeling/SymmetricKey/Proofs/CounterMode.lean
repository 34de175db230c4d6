import SymmetricKey.Confidentiality.Ctr
import SymmetricKey.Proofs.BlockFunctions
import SymmetricKey.Proofs.SegmentRuns
import SymmetricKey.Proofs.Numerals

/-!
Counter mode in closed form. Counter block `index` is the initial block with
`index` added to the number that its lowest bytes write. The mode adds the
encrypted counter blocks to the text, so that it undoes itself, and as long as
the counting bytes do not run over, no counter block comes up twice.
-/

namespace SymmetricKey.Ctr

theorem increment_low_exact (width : Nat) (bytes : Bytes) (inside : width ≤ bytes.length) :
    incrementLow width bytes =
      LittleEndian.numeral width (LittleEndian.number (bytes.take width) + 1) ++
        bytes.drop width := by
  induction width generalizing bytes with
  | zero => simp [incrementLow, LittleEndian.numeral]
  | succ width ih =>
      cases bytes with
      | nil => simp at inside
      | cons byte rest =>
          have room : width ≤ rest.length := by simpa using inside
          have digit := byte.toNat_lt
          simp only [incrementLow, List.take_succ_cons, List.drop_succ_cons, LittleEndian.number,
            LittleEndian.numeral]
          by_cases full : byte = 0xFF
          · -- The carry moves on to the next byte.
            have value : byte.toNat = 255 := by rw [full]; rfl
            have lowest :
                UInt8.ofNat (byte.toNat + 256 * LittleEndian.number (rest.take width) + 1) = 0 := by
              apply UInt8.toNat_inj.mp
              simp [value]
            have higher : (byte.toNat + 256 * LittleEndian.number (rest.take width) + 1) / 256 =
                LittleEndian.number (rest.take width) + 1 := by omega
            rw [if_pos full, ih rest room, lowest, higher, List.cons_append]
          · have below : byte.toNat < 255 := by
              have different : byte.toNat ≠ 255 := fun same => full (UInt8.toNat_inj.mp same)
              omega
            have lowest :
                UInt8.ofNat (byte.toNat + 256 * LittleEndian.number (rest.take width) + 1) =
                byte + 1 := by
              apply UInt8.toNat_inj.mp
              simp
            have higher : (byte.toNat + 256 * LittleEndian.number (rest.take width) + 1) / 256 =
                LittleEndian.number (rest.take width) := by omega
            have same : LittleEndian.numeral width (LittleEndian.number (rest.take width)) =
                rest.take width := by
              have back := LittleEndian.numeral_number (rest.take width)
              rwa [List.length_take, Nat.min_eq_left room] at back
            rw [if_neg full, lowest, higher, same, List.cons_append, List.take_append_drop]

/-- The initial block with `index` added to its lowest `width` bytes. -/
def counterAt (width : Nat) (counter : Bytes) (index : Nat) : Bytes :=
  counter.take (counter.length - width) ++
    BigEndian.numeral width (BigEndian.number (counter.drop (counter.length - width)) + index)

theorem increment_exact (width : Nat) (counter : Bytes) (inside : width ≤ counter.length) :
    increment width counter = counterAt width counter 1 := by
  have added := increment_low_exact width counter.reverse (by simpa using inside)
  rw [increment, added, List.reverse_append, List.drop_reverse, List.reverse_reverse,
    List.take_reverse, counterAt, BigEndian.numeral, BigEndian.number]

theorem counter_at_length (width : Nat) (counter : Bytes) (index : Nat)
    (inside : width ≤ counter.length) :
    (counterAt width counter index).length = counter.length := by
  simp only [counterAt, List.length_append, List.length_take, BigEndian.numeral_length]
  omega

theorem counter_at_take (width : Nat) (counter : Bytes) (index : Nat) :
    (counterAt width counter index).take (counter.length - width) =
      counter.take (counter.length - width) := by
  have high : (counter.take (counter.length - width)).length = counter.length - width := by
    rw [List.length_take]
    omega
  rw [counterAt, List.take_append_of_le_length (by omega), List.take_of_length_le (by omega)]

theorem counter_at_drop (width : Nat) (counter : Bytes) (index : Nat) :
    (counterAt width counter index).drop (counter.length - width) =
      BigEndian.numeral width (BigEndian.number (counter.drop (counter.length - width)) +
        index) := by
  have high : (counter.take (counter.length - width)).length = counter.length - width := by
    rw [List.length_take]
    omega
  rw [counterAt, List.drop_append, List.drop_eq_nil_of_le (by omega), high, Nat.sub_self,
    List.drop_zero, List.nil_append]

theorem counter_at_zero (width : Nat) (counter : Bytes) (inside : width ≤ counter.length) :
    counterAt width counter 0 = counter := by
  have low : (counter.drop (counter.length - width)).length = width := by
    rw [List.length_drop]
    omega
  have back := BigEndian.numeral_number (counter.drop (counter.length - width))
  rw [low] at back
  rw [counterAt, Nat.add_zero, back, List.take_append_drop]

theorem counter_at_add (width : Nat) (counter : Bytes) (first second : Nat)
    (inside : width ≤ counter.length) :
    counterAt width (counterAt width counter first) second =
      counterAt width counter (first + second) := by
  rw [counterAt, counter_at_length width counter first inside, counter_at_take, counter_at_drop,
    BigEndian.number_numeral, counterAt, ← BigEndian.numeral_mod, Nat.mod_add_mod,
    BigEndian.numeral_mod, Nat.add_assoc]

theorem increment_length (width : Nat) (counter : Bytes) (inside : width ≤ counter.length) :
    (increment width counter).length = counter.length := by
  rw [increment_exact width counter inside, counter_at_length width counter 1 inside]

theorem counter_at_increment (width : Nat) (counter : Bytes) (index : Nat)
    (inside : width ≤ counter.length) :
    counterAt width (increment width counter) index = counterAt width counter (index + 1) := by
  rw [increment_exact width counter inside, counter_at_add width counter 1 index inside,
    Nat.add_comm]

theorem counter_at_eq_iff (width : Nat) (counter : Bytes) (first second : Nat) :
    counterAt width counter first = counterAt width counter second ↔
      first % 256 ^ width = second % 256 ^ width := by
  -- Two counter blocks are equal only where the counting bytes have gone all the way round.
  constructor
  · intro same
    have low := congrArg BigEndian.number (List.append_cancel_left same)
    rw [BigEndian.number_numeral, BigEndian.number_numeral] at low
    exact Nat.ModEq.add_left_cancel' _ low
  · intro same
    have low : (BigEndian.number (counter.drop (counter.length - width)) + first) % 256 ^ width =
        (BigEndian.number (counter.drop (counter.length - width)) + second) % 256 ^ width :=
      Nat.ModEq.add_left _ same
    rw [counterAt, counterAt, ← BigEndian.numeral_mod, low, BigEndian.numeral_mod]

theorem counter_round (bits : Nat) (bytewise : bits % 8 = 0) : 256 ^ (bits / 8) = 2 ^ bits := by
  have whole : 8 * (bits / 8) = bits := by omega
  calc 256 ^ (bits / 8) = (2 ^ 8) ^ (bits / 8) := by norm_num
    _ = 2 ^ (8 * (bits / 8)) := (Nat.pow_mul 2 8 (bits / 8)).symm
    _ = 2 ^ bits := by rw [whole]

section AnyCipher
variable {C : Type} [BlockCipher C]

theorem step_ok (width : Nat) (cipher : C) (counter segment piece next : Bytes) (after : C)
    (answered : step width cipher counter segment = (.ok (piece, next), after)) :
    ∃ key : Block counter.length, piece = Bytes.xor segment key.toList ∧
      next = increment width counter := by
  rw [step] at answered
  cases called : BlockCipher.encryptBlock cipher counter counter.length with
  | mk answer rest =>
      rw [called] at answered
      cases answer with
      | error cause => simp at answered
      | ok key =>
          simp only [Prod.mk.injEq, Except.ok.injEq] at answered
          exact ⟨key, answered.1.1.symm, answered.1.2.symm⟩

theorem encrypt_produced_bound (cipher : C) (bits : Nat) (counter input : Bytes) (room : Nat) :
    (encrypt cipher bits counter input room).produced.length ≤ input.length := by
  rw [encrypt]
  cases checked : checkRegister cipher counter input room with
  | error cause => simp [Progress.refused]
  | ok size =>
      obtain ⟨_, _, positive, _, _⟩ := check_register_ok cipher counter input room size checked
      by_cases width : bits % 8 ≠ 0 ∨ size < bits / 8
      · simp [Progress.refused, if_pos width]
      · have bound := (step (bits / 8)).run_produced_bound (by
          intro state register segment piece next after answered
          obtain ⟨key, made, _⟩ := step_ok _ state register segment piece next after answered
          rw [made, Bytes.xor_length]
          exact Nat.min_le_left _ _) cipher counter (Bytes.segments size input)
        rw [Bytes.segments_flatten size input positive] at bound
        simpa only [if_neg width] using bound

end AnyCipher

section Keystream
variable {C : Type} [BlockCipher C] {size : Nat}

/-- The encrypted counter blocks, one behind the other. -/
def keystream (function : Block size → Block size) (width : Nat) (counter : Bytes) (count : Nat) :
    Bytes :=
  (List.range count).flatMap fun index => Block.onBytes function (counterAt width counter index)

theorem keystream_length (function : Block size → Block size) (width : Nat) (counter : Bytes)
    (count : Nat) : (keystream function width counter count).length = count * size := by
  induction count with
  | zero => simp [keystream]
  | succ count ih =>
      simp only [keystream] at ih ⊢
      rw [List.range_succ, List.flatMap_append, List.length_append, ih]
      simp [Nat.succ_mul]

theorem keystream_succ (function : Block size → Block size) (width : Nat) (counter : Bytes)
    (count : Nat) (inside : width ≤ counter.length) :
    keystream function width counter (count + 1) =
      Block.onBytes function counter ++ keystream function width (increment width counter)
        count := by
  have shifted := fun index => counter_at_increment width counter index inside
  simp only [keystream, List.range_succ_eq_map, List.flatMap_cons, List.flatMap_map, shifted]
  rw [counter_at_zero width counter inside]

theorem step_exact (function : Block size → Block size) (width : Nat) (cipher : C)
    (steady : Enciphers function cipher) (counter segment : Bytes) (exact : counter.length = size) :
    ∃ after, Enciphers function after ∧ step width cipher counter segment =
      (.ok (segment.xor (Block.onBytes function counter), increment width counter), after) := by
  subst exact
  obtain ⟨after, kept, answer⟩ := steady.call function cipher counter rfl
  refine ⟨after, kept, ?_⟩
  rw [step, answer]
  rfl

theorem xor_keystream_succ (function : Block size → Block size) (width : Nat)
    (counter input : Bytes) (count : Nat) (inside : width ≤ counter.length) :
    Bytes.xor input (keystream function width counter (count + 1)) =
      Bytes.xor (input.take size) (Block.onBytes function counter) ++
        Bytes.xor (input.drop size) (keystream function width (increment width counter) count) := by
  rw [keystream_succ function width counter count inside]
  by_cases whole : size ≤ input.length
  · rw [← Bytes.xor_append _ _ _ _ (by simp [whole]), List.take_append_drop]
  · -- A short last segment uses only the front of the first encrypted block.
    have nothing : input.drop size = [] := List.drop_eq_nil_of_le (by omega)
    have all : input.take size = input := List.take_of_length_le (by omega)
    rw [nothing, all, Bytes.xor_nil, List.append_nil, Bytes.xor_surplus]
    rw [Block.on_bytes_length]
    omega

theorem run_exact (function : Block size → Block size) (width : Nat) (cipher : C)
    (steady : Enciphers function cipher) (counter input : Bytes) (exact : counter.length = size)
    (inside : width ≤ size) (positive : 0 < size) :
    ∃ after, Enciphers function after ∧
      (step width).run cipher counter (input.segments size) =
        { produced := input.xor (keystream function width counter (input.segments size).length)
          register := counterAt width counter (input.segments size).length
          cipher := after
          refusal := none } := by
  induction input using Bytes.segments_induction size positive generalizing cipher counter with
  | none =>
      refine ⟨cipher, steady, ?_⟩
      rw [Bytes.segments_nil, List.length_nil, counter_at_zero width counter (by omega)]
      rfl
  | further input some ih =>
      have room : width ≤ counter.length := by omega
      obtain ⟨middle, between, first⟩ :=
        step_exact function width cipher steady counter (input.take size) exact
      -- What is left to encipher begins one counter further on, with a cipher as good as before.
      have moved : (increment width counter).length = size := by
        rw [increment_length width counter room, exact]
      obtain ⟨after, kept, rest⟩ := ih middle between (increment width counter) moved
      have further := counter_at_increment width counter
        (Bytes.segments size (input.drop size)).length room
      refine ⟨after, kept, ?_⟩
      rw [Bytes.segments_cons size input positive some, SegmentStep.run, first, List.length_cons,
        xor_keystream_succ function width counter input _ room]
      simp only [rest, further]

theorem encrypt_through (bits : Nat) (cipher : C) (blocks : BlockCipher.blockSize cipher = size)
    (counter input : Bytes) (room : Nat) (exact : counter.length = size) (positive : 0 < size)
    (bounded : size ≤ maxModeBlock) (bytewise : bits % 8 = 0) (inside : bits / 8 ≤ size)
    (fits : input.length ≤ room) :
    encrypt cipher bits counter input room =
      (step (bits / 8)).run cipher counter (input.segments size) := by
  have accepted := check_register_accepts cipher counter input room size blocks exact positive
    bounded fits
  have width : ¬(bits % 8 ≠ 0 ∨ size < bits / 8) := by omega
  rw [encrypt, accepted]
  exact if_neg width

-- As many counter blocks are used as blocks are begun, and the next one is left behind.
theorem encrypt_exact (function : Block size → Block size) (bits : Nat) (cipher : C)
    (steady : Enciphers function cipher) (counter input : Bytes) (room : Nat)
    (exact : counter.length = size) (positive : 0 < size) (bounded : size ≤ maxModeBlock)
    (bytewise : bits % 8 = 0) (inside : bits / 8 ≤ size) (fits : input.length ≤ room) :
    ∃ after, Enciphers function after ∧ encrypt cipher bits counter input room =
      { produced := input.xor
          (keystream function (bits / 8) counter ((input.length + size - 1) / size))
        register := counterAt (bits / 8) counter ((input.length + size - 1) / size)
        cipher := after
        refusal := none } := by
  obtain ⟨after, kept, run⟩ :=
    run_exact function (bits / 8) cipher steady counter input exact inside positive
  refine ⟨after, kept, ?_⟩
  rw [encrypt_through bits cipher (steady.block_size function cipher) counter input room exact
    positive bounded bytewise inside fits, ← Bytes.segments_length size input positive, run]

end Keystream

section Asked
variable {C : Type} [BlockCipher C]

theorem recorded_step (width : Nat) (recording : Recording C) (counter segment : Bytes) :
    step width recording counter segment =
      ((step width recording.cipher counter segment).1,
        { cipher := (step width recording.cipher counter segment).2
          asked := recording.asked ++ [counter] }) := by
  have call : BlockCipher.encryptBlock recording counter counter.length =
      ((BlockCipher.encryptBlock recording.cipher counter counter.length).1,
        { cipher := (BlockCipher.encryptBlock recording.cipher counter counter.length).2
          asked := recording.asked ++ [counter] }) := rfl
  rw [step, step, call]
  cases answered : BlockCipher.encryptBlock recording.cipher counter counter.length with
  | mk answer after => cases answer <;> rfl

theorem recorded_run_forget (width : Nat) (recording : Recording C) (counter : Bytes)
    (segments : List Bytes) :
    Recording.forget ((step width).run recording counter segments) =
      (step width).run recording.cipher counter segments := by
  induction segments generalizing recording counter with
  | nil => rfl
  | cons segment rest ih =>
      simp only [SegmentStep.run, recorded_step]
      cases answered : step width recording.cipher counter segment with
      | mk answer after =>
          cases answer with
          | error cause => rfl
          | ok piece =>
              have tail := ih { cipher := after, asked := recording.asked ++ [counter] } piece.2
              simp only [← tail]
              rfl

-- The cipher is asked for counter blocks in order, all of them unless it refuses one.
theorem recorded_run_asked (width : Nat) (recording : Recording C) (counter : Bytes)
    (segments : List Bytes) (inside : width ≤ counter.length) :
    ∃ count, count ≤ segments.length ∧
      ((step width).run recording counter segments).cipher.asked =
        recording.asked ++ (List.range count).map (counterAt width counter) ∧
      (((step width).run recording counter segments).refusal = none → count = segments.length) := by
  induction segments generalizing recording counter with
  | nil => exact ⟨0, Nat.le_refl 0, by simp [SegmentStep.run], fun _ => rfl⟩
  | cons segment rest ih =>
      simp only [SegmentStep.run, recorded_step]
      cases answered : step width recording.cipher counter segment with
      | mk answer after =>
          cases answer with
          | error cause =>
              -- The block that is refused has been asked for all the same.
              refine ⟨1, by simp, ?_, by simp [Progress.refused]⟩
              simp [Progress.refused, counter_at_zero width counter inside]
          | ok result =>
              obtain ⟨piece, next⟩ := result
              obtain ⟨_, _, moved⟩ :=
                step_ok width recording.cipher counter segment piece next after answered
              have room : width ≤ next.length := by
                rw [moved, increment_length width counter inside]
                exact inside
              obtain ⟨count, bound, asked, all⟩ :=
                ih { cipher := after, asked := recording.asked ++ [counter] } next room
              refine ⟨count + 1, by simpa using bound, ?_, ?_⟩
              · have shifted : (List.range count).map (counterAt width next) =
                    (List.range count).map fun index => counterAt width counter (index + 1) := by
                  apply List.map_congr_left
                  intro index _
                  rw [moved, counter_at_increment width counter index inside]
                simp only [asked, shifted, List.range_succ_eq_map, List.map_cons, List.map_map,
                  counter_at_zero width counter inside, List.append_assoc, List.singleton_append]
                rfl
              · intro finished
                simpa using all finished

end Asked

end SymmetricKey.Ctr
