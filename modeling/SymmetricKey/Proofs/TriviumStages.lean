import SymmetricKey.Proofs.TriviumRegisters

/-!
Trivium from its key on. Keys and vectors are loaded bit by bit, the last bit first, so
that the words begin as the specification says. From there on they follow it.
-/

namespace SymmetricKey.Trivium

namespace Stages

/-- Bits of bytes in a row, the lowest of each byte first. Behind the bytes all bits are zero. -/
def bitOf (bytes : Bytes) (index : Nat) : Bool :=
  (bytes.getD (index / 8) 0).toNat.testBit (index % 8)

/-- Key and vector take 80 stages each, their last bit first, and the last three stages are set. -/
def loaded (key iv : Bytes) : Stages := numbered fun number =>
  if number ≤ 80 then bitOf key (80 - number)
  else if number ≤ 93 then false
  else if number ≤ 173 then bitOf iv (173 - number)
  else decide (286 ≤ number)

def started (key iv : Bytes) : Stages := (fun stages => (clock stages).2)^[1152] (loaded key iv)

end Stages

namespace Registers

-- Bit `index` of the bytes goes to stage `79 - index` of the register.
def loadBit (bytes : Bytes) (register : BitVec 128) (index : Nat) : BitVec 128 :=
  let bit := (bytes.getD (index / 8) 0 >>> UInt8.ofNat (index % 8)) &&& 1
  register ||| (bit.toBitVec.setWidth 128 <<< (79 - index))

def loadRegister (bytes : Bytes) : BitVec 128 :=
  (List.range (8 * bytes.length)).foldl (loadBit bytes) 0

def ofKey (key iv : Bytes) : Except Error Registers :=
  if key.length ≠ keySize then .error .invalidKeyLength
  else if maxIvSize < iv.length then .error .invalidParameter
  else .ok (Nat.repeat (fun state => (clock state).2) warmUpClocks
    { a := loadRegister key, b := loadRegister iv, c := 0b111#128 <<< 108 })

theorem byte_bit (byte : UInt8) (place : Nat) (inside : place < 8) :
    ((byte >>> UInt8.ofNat place) &&& 1).toBitVec.setWidth 128 =
      flag (byte.toNat.testBit place) := by
  have amount : place % 2 ^ 8 % 8 = place := by omega
  have digit : ((byte >>> UInt8.ofNat place) &&& 1).toNat = (byte.toNat.testBit place).toNat := by
    rw [UInt8.toNat_and, UInt8.toNat_shiftRight, UInt8.toNat_ofNat', amount, Nat.toNat_testBit,
      Nat.shiftRight_eq_div_pow]
    exact Nat.and_one_is_mod _
  have value (bit : Bool) : (flag bit).toNat = bit.toNat := by cases bit <;> rfl
  apply BitVec.eq_of_toNat_eq
  rw [BitVec.toNat_setWidth, UInt8.toNat_toBitVec, digit, value]
  exact Nat.mod_eq_of_lt ((Bool.toNat_lt _).trans (by decide))

theorem bit_loaded (bytes : Bytes) (register : BitVec 128) (index : Nat) (inside : index < 80)
    (place : Nat) :
    (loadBit bytes register index).getLsbD place =
      (register.getLsbD place || (decide (place = 79 - index) && Stages.bitOf bytes index)) := by
  rw [loadBit, byte_bit _ _ (Nat.mod_lt _ (by decide)), BitVec.getLsbD_or, BitVec.getLsbD_shiftLeft,
    flag_bit, ← Stages.bitOf]
  by_cases here : place = 79 - index
  · rw [decide_eq_true (by omega : place < 128), decide_eq_false (by omega : ¬place < 79 - index),
      decide_eq_true (by omega : place - (79 - index) = 0), decide_eq_true here]
    rfl
  · by_cases below : place < 79 - index
    · rw [decide_eq_true below, decide_eq_false here]
      simp only [Bool.not_true, Bool.and_false, Bool.false_and]
    · rw [decide_eq_false (by omega : ¬place - (79 - index) = 0), decide_eq_false here,
        Bool.false_and, Bool.and_false]

theorem bits_loaded (bytes : Bytes) (count : Nat) (fits : count ≤ 80) (place : Nat) :
    ((List.range count).foldl (loadBit bytes) 0).getLsbD place =
      (decide (80 - count ≤ place ∧ place < 80) && Stages.bitOf bytes (79 - place)) := by
  -- What the loop has set once it has gone over `count` bits.
  induction count with
  | zero =>
      rw [decide_eq_false (by omega)]
      exact BitVec.getLsbD_zero
  | succ count ih =>
      rw [List.range_succ, List.foldl_append, List.foldl_cons, List.foldl_nil,
        bit_loaded _ _ _ (by omega), ih (by omega)]
      by_cases here : place = 79 - count
      · have index : 79 - place = count := by omega
        rw [decide_eq_false (by omega : ¬(80 - count ≤ place ∧ place < 80)), decide_eq_true here,
          decide_eq_true (by omega : 80 - (count + 1) ≤ place ∧ place < 80), index, Bool.false_and,
          Bool.false_or]
      · have same : (80 - count ≤ place ∧ place < 80) ↔
            (80 - (count + 1) ≤ place ∧ place < 80) := by omega
        rw [decide_eq_false here, Bool.false_and, Bool.or_false, decide_eq_decide.mpr same]

theorem bit_behind (bytes : Bytes) (index : Nat) (behind : 8 * bytes.length ≤ index) :
    Stages.bitOf bytes index = false := by
  have missing : bytes.length ≤ index / 8 := by omega
  rw [Stages.bitOf, List.getD_eq_default _ _ missing]
  exact Nat.zero_testBit _

theorem load_register_bit (bytes : Bytes) (fits : bytes.length ≤ 10) (place : Nat) :
    (loadRegister bytes).getLsbD place =
    (decide (place < 80) && Stages.bitOf bytes (79 - place)) := by
  rw [loadRegister, bits_loaded bytes _ (by omega)]
  by_cases reached : 80 - 8 * bytes.length ≤ place
  · rw [decide_eq_decide.mpr (and_iff_right reached)]
  · rw [bit_behind bytes _ (by omega), Bool.and_false, Bool.and_false]

theorem taken_in_bit (width : Nat) (bits : List Bool) (fits : bits.length ≤ width) (place : Nat) :
    (bits.foldl BitVec.shiftConcat (0 : BitVec width)).getLsbD place =
      (decide (place < bits.length) && bits.getD (bits.length - 1 - place) false) := by
  induction bits using List.reverseRecOn generalizing place with
  | nil => exact BitVec.getLsbD_zero
  | append_singleton bits bit ih =>
      rw [List.length_append, List.length_singleton] at fits ⊢
      rw [List.foldl_append, List.foldl_cons, List.foldl_nil, BitVec.getLsbD_shiftConcat,
        ih (by omega)]
      cases place with
      | zero =>
          have last : bits.length + 1 - 1 - 0 = bits.length := rfl
          rw [if_pos rfl, decide_eq_true (by omega), decide_eq_true (by omega), last,
            List.getD_append_right _ _ _ _ le_rfl, Nat.sub_self]
          rfl
      | succ place =>
          have deeper : bits.length + 1 - 1 - (place + 1) = bits.length - 1 - place := by omega
          rw [if_neg (Nat.succ_ne_zero place), Nat.add_sub_cancel, deeper]
          by_cases inside : place < bits.length
          · rw [decide_eq_true (by omega), decide_eq_true inside, decide_eq_true (by omega),
              List.getD_append _ _ _ _ (by omega)]
            rfl
          · rw [decide_eq_false inside, decide_eq_false (by omega : ¬place + 1 < bits.length + 1),
              Bool.false_and, Bool.false_and, Bool.and_false]

theorem bits_length (bytes : Bytes) : (bytes.flatMap bitsOfByte).length = 8 * bytes.length := by
  induction bytes with
  | nil => rfl
  | cons byte bytes ih =>
      have length : (bitsOfByte byte).length = 8 := rfl
      rw [List.flatMap_cons, List.length_append, ih, length, List.length_cons, Nat.mul_succ,
        Nat.add_comm]

theorem bit_of_bytes (bytes : Bytes) (index : Nat) :
    (bytes.flatMap bitsOfByte).getD index false = Stages.bitOf bytes index := by
  induction bytes generalizing index with
  | nil => exact (Nat.zero_testBit _).symm
  | cons byte bytes ih =>
      have length : (bitsOfByte byte).length = 8 := rfl
      rw [List.flatMap_cons, Stages.bitOf]
      by_cases first : index < 8
      · have here : index / 8 = 0 := by omega
        have place : index % 8 = index := by omega
        rw [List.getD_append _ _ _ _ (length.symm ▸ first), here, place, bitsOfByte,
          List.getD_eq_getElem _ _ (by simpa using first), List.getElem_map, List.getElem_range]
        rfl
      · have next : index / 8 = (index - 8) / 8 + 1 := by omega
        have place : index % 8 = (index - 8) % 8 := by omega
        rw [List.getD_append_right _ _ _ _ (by omega), length, ih, next, place]
        rfl

theorem bit_of_padded (bytes : Bytes) (count index : Nat) :
    Stages.bitOf (bytes ++ Bytes.zeros count) index = Stages.bitOf bytes index := by
  -- Zeros behind the bytes are the missing bits.
  rw [Stages.bitOf, Stages.bitOf]
  by_cases inside : index / 8 < bytes.length
  · rw [List.getD_append _ _ _ _ inside]
  · have zero : (Bytes.zeros count).getD (index / 8 - bytes.length) 0 = 0 := by
      rw [List.getD_eq_getElem?_getD, Bytes.zeros, List.getElem?_replicate]
      split_ifs <;> rfl
    rw [List.getD_append_right _ _ _ _ (by omega), zero, List.getD_eq_default _ _ (by omega)]

theorem load_bit (width : Nat) (bytes : Bytes) (fits : bytes.length ≤ 10) (wide : 80 ≤ width)
    (place : Nat) :
    (load width bytes).getLsbD place =
    (decide (place < 80) && Stages.bitOf bytes (79 - place)) := by
  have padded : (bytes ++ Bytes.zeros (10 - bytes.length)).length = 10 := by
    rw [List.length_append, Bytes.zeros, List.length_replicate]
    omega
  have length : ((bytes ++ Bytes.zeros (10 - bytes.length)).flatMap bitsOfByte).length = 80 := by
    rw [bits_length, padded]
  rw [load, taken_in_bit width _ (by omega), length, bit_of_bytes, bit_of_padded]

theorem load_widened (width : Nat) (bytes : Bytes) (fits : bytes.length ≤ 10) (wide : 80 ≤ width) :
    loadRegister bytes = (load width bytes).setWidth 128 := by
  apply BitVec.eq_of_getLsbD_eq
  intro place inside
  rw [load_register_bit bytes fits, BitVec.getLsbD_setWidth, load_bit width bytes fits wide,
    decide_eq_true inside, Bool.true_and]

theorem loaded_stages (key iv : Bytes) (keyed : key.length = 10) (set : iv.length ≤ 10) :
    (widened (Trivium.loaded key iv)).stages = Stages.loaded key iv := by
  apply Stages.eq_of_rows
  · intro place inside
    rw [stage_of_a _ _ inside, Stages.loaded, Stages.stage_numbered _ _ (by omega) (by omega),
      Trivium.loaded, load_bit 93 key keyed.le (by decide)]
    by_cases filled : place < 80
    · have index : 80 - (place + 1) = 79 - place := by omega
      rw [decide_eq_true filled, if_pos (by omega), Bool.true_and, index]
    · rw [decide_eq_false filled, if_neg (by omega), if_pos (by omega), Bool.false_and]
  · intro place inside
    have behind : ¬place + 94 ≤ 80 := by omega
    rw [stage_of_b _ _ inside, Stages.loaded, Stages.stage_numbered _ _ (by omega) (by omega),
      Trivium.loaded, load_bit 84 iv set (by decide), if_neg behind, if_neg (by omega)]
    by_cases filled : place < 80
    · have index : 173 - (place + 94) = 79 - place := by omega
      rw [decide_eq_true filled, if_pos (by omega), Bool.true_and, index]
    · rw [decide_eq_false filled, if_neg (by omega), Bool.false_and, decide_eq_false (by omega)]
  · intro place inside
    have behind : ¬place + 178 ≤ 80 := by omega
    have behindKey : ¬place + 178 ≤ 93 := by omega
    rw [stage_of_c _ _ inside, Stages.loaded, Stages.stage_numbered _ _ (by omega) (by omega),
      if_neg behind, if_neg behindKey, if_neg (by omega), Trivium.loaded, BitVec.getLsbD_shiftLeft,
      decide_eq_true inside]
    by_cases clear : place < 108
    · rw [decide_eq_true clear, decide_eq_false (by omega)]
      rfl
    · obtain rfl | rfl | rfl : place = 108 ∨ place = 109 ∨ place = 110 := by omega
      all_goals rfl

theorem repeat_iterates {State : Type} (step : State → State) (count : Nat) (state : State) :
    Nat.repeat step count state = step^[count] state := by
  induction count with
  | zero => rfl
  | succ count ih => rw [Nat.repeat, ih, Function.iterate_succ_apply']

theorem of_key_widened (key iv : Bytes) : ofKey key iv = (Trivium.ofKey key iv).map widened := by
  rw [ofKey, Trivium.ofKey]
  split_ifs with odd long
  · rfl
  · rfl
  · have keyed : key.length ≤ 10 := (not_not.mp odd).le
    have start : (⟨loadRegister key, loadRegister iv, 0b111#128 <<< 108⟩ : Registers) =
        widened (Trivium.loaded key iv) := by
      rw [load_widened 93 key keyed (by decide),
        load_widened 84 iv (Nat.not_lt.mp long) (by decide)]
      rfl
    rw [start, repeat_iterates, repeat_iterates, clocks_widened]
    rfl

theorem of_key_made (key iv : Bytes) (keyed : key.length = 10) (set : iv.length ≤ 10) :
    Trivium.ofKey key iv =
      .ok ((fun state => (Trivium.clock state).2)^[warmUpClocks] (Trivium.loaded key iv)) := by
  have right : ¬key.length ≠ keySize := not_not_intro keyed
  have short : ¬maxIvSize < iv.length := Nat.not_lt.mpr set
  rw [Trivium.ofKey, if_neg right, if_neg short, repeat_iterates]

theorem of_key_started (key iv : Bytes) (keyed : key.length = 10) (set : iv.length ≤ 10) :
    ∃ generator, Trivium.ofKey key iv = .ok generator ∧
      (widened generator).stages = Stages.started key iv := by
  refine ⟨_, of_key_made key iv keyed set, ?_⟩
  rw [← clocks_stages, loaded_stages key iv keyed set, Stages.started, warmUpClocks]

theorem registers_follow_stages :
    (∀ state : Registers, state.Within →
      (clock state).1 = (Stages.clock state.stages).1.toUInt8 ∧
      (clock state).2.stages = (Stages.clock state.stages).2 ∧ (clock state).2.Within ∧
      clock state =
        ((Trivium.clock state.narrowed).1.toUInt8, widened (Trivium.clock state.narrowed).2) ∧
      generateByte state =
        ((Trivium.next state.narrowed).1, widened (Trivium.next state.narrowed).2)) ∧
    ∀ key iv : Bytes, key.length = 10 → iv.length ≤ 10 → ∃ generator : Registers,
      ofKey key iv = .ok generator ∧ Trivium.ofKey key iv = .ok generator.narrowed ∧
      generator.Within ∧ generator.stages = Stages.started key iv ∧
      ∀ calls : List Call,
        (run calls generator).1.map Prod.fst = calls ∧
        (∀ answer ∈ (run calls generator).1, answer.2.toNat < 2 ^ answer.1.clocks) ∧
        (run calls generator).1.flatMap delivered =
          (List.range (calls.map Call.clocks).sum).map (Stages.started key iv).bitAt ∧
        (run calls generator).2.Within ∧
        (run calls generator).2.stages =
          (fun stages => (Stages.clock stages).2)^[(calls.map Call.clocks).sum]
          (Stages.started key iv) := by
  constructor
  · intro state within
    have clocked := clock_widened state.narrowed
    have stages := clock_stages state.narrowed
    have byte := generate_byte_widened state.narrowed
    rw [widened_narrowed state within] at clocked stages byte
    refine ⟨?_, ?_, ?_, clocked, byte⟩
    · rw [clocked, stages]
    · rw [clocked, stages]
    · rw [clocked]
      exact widened_within _
  · intro key iv keyed set
    obtain ⟨generator, accepted, started⟩ := of_key_started key iv keyed set
    refine ⟨widened generator, ?_, ?_, widened_within _, started, fun calls => ?_⟩
    · rw [of_key_widened, accepted]
      rfl
    · rw [accepted, narrowed_widened]
    · obtain ⟨answers, ran, order, bounds, stream⟩ := run_widened calls generator
      have bits : generator.bitAt = (Stages.started key iv).bitAt := by
        funext index
        rw [← started, bit_at_stages]
      rw [ran, ← started, clocks_stages, started, ← bits]
      exact ⟨order, bounds, stream, widened_within _, rfl⟩

theorem full_registers_follow :
    (Registers.mk (mask 93) (mask 84) (mask 111)).Within ∧
    (clock ⟨mask 93, mask 84, mask 111⟩).2.Within ∧
    ∃ generator, ofKey (List.replicate 10 3) [5] = .ok generator ∧
      (run [.bit, .byte, .bit] generator).1.flatMap delivered =
        (List.range 10).map (Stages.started (List.replicate 10 3) [5]).bitAt := by
  have full : (Registers.mk (mask 93) (mask 84) (mask 111)).Within :=
    ⟨by decide, by decide, by decide⟩
  obtain ⟨step, start⟩ := registers_follow_stages
  obtain ⟨generator, accepted, -, -, -, runs⟩ := start (List.replicate 10 3) [5] rfl (by decide)
  exact ⟨full, (step _ full).2.2.1, generator, accepted, (runs [.bit, .byte, .bit]).2.2.1⟩

end Registers

end SymmetricKey.Trivium
