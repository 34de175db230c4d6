import SymmetricKey.Proofs.GeneratorStreams

/-!
The registers of Trivium as words of 128 bits that are shifted and masked, and its
specification, which numbers 288 stages in a row. Every clock of the words is a clock of
the stages, so bits and bytes taken in any order are the bits of the stages in their order.
-/

namespace SymmetricKey.Trivium

/-- Stage 1 of the specification has index 0. -/
abbrev Stages := Fin 288 → Bool

namespace Stages

def stage (stages : Stages) (number : Nat) : Bool :=
  if inside : number - 1 < 288 then stages ⟨number - 1, inside⟩ else false

def numbered (bit : Nat → Bool) : Stages := fun index => bit (index.val + 1)

theorem stage_numbered (bit : Nat → Bool) (number : Nat) (first : 1 ≤ number)
    (last : number ≤ 288) :
    (numbered bit).stage number = bit number := by
  rw [stage, dif_pos (by omega), numbered, Nat.sub_add_cancel first]

theorem stage_here (stages : Stages) (index : Fin 288) :
    stages.stage (index.val + 1) = stages index :=
  dif_pos index.isLt

/-- Three rows of 93, 84 and 111 stages are all of them. -/
theorem eq_of_rows (left right : Stages)
    (a : ∀ place < 93, left.stage (place + 1) = right.stage (place + 1))
    (b : ∀ place < 84, left.stage (place + 94) = right.stage (place + 94))
    (c : ∀ place < 111, left.stage (place + 178) = right.stage (place + 178)) : left = right := by
  funext index
  rw [← stage_here left, ← stage_here right]
  have inside := index.isLt
  by_cases early : index.val < 93
  · exact a index.val early
  · by_cases middle : index.val < 177
    · have number : index.val + 1 = index.val - 93 + 94 := by omega
      rw [number]
      exact b (index.val - 93) (by omega)
    · have number : index.val + 1 = index.val - 177 + 178 := by omega
      rw [number]
      exact c (index.val - 177) (by omega)

def clock (stages : Stages) : Bool × Stages :=
  let t1 := stages.stage 66 ^^ stages.stage 93
  let t2 := stages.stage 162 ^^ stages.stage 177
  let t3 := stages.stage 243 ^^ stages.stage 288
  let into94 := t1 ^^ (stages.stage 91 && stages.stage 92) ^^ stages.stage 171
  let into178 := t2 ^^ (stages.stage 175 && stages.stage 176) ^^ stages.stage 264
  let into1 := t3 ^^ (stages.stage 286 && stages.stage 287) ^^ stages.stage 69
  (t1 ^^ t2 ^^ t3, numbered fun number =>
    if number = 1 then into1
    else if number = 94 then into94
    else if number = 178 then into178
    else stages.stage (number - 1))

def bitAt (stages : Stages) (index : Nat) : Bool :=
  (clock ((fun stages => (clock stages).2)^[index] stages)).1

end Stages

structure Registers where
  a : BitVec 128
  b : BitVec 128
  c : BitVec 128
deriving DecidableEq, Repr

namespace Registers

def bit (word : BitVec 128) (place : Nat) : BitVec 128 := (word >>> place) &&& 1

def mask (width : Nat) : BitVec 128 := (1#128 <<< width) - 1#128

def clock (state : Registers) : UInt8 × Registers :=
  let t1 := bit state.a 65 ^^^ bit state.a 92
  let t2 := bit state.b 68 ^^^ bit state.b 83
  let t3 := bit state.c 65 ^^^ bit state.c 110
  let fromA := t1 ^^^ (bit state.a 90 &&& bit state.a 91) ^^^ bit state.b 77
  let fromB := t2 ^^^ (bit state.b 81 &&& bit state.b 82) ^^^ bit state.c 86
  let fromC := t3 ^^^ (bit state.c 108 &&& bit state.c 109) ^^^ bit state.a 68
  (UInt8.ofBitVec ((t1 ^^^ t2 ^^^ t3).setWidth 8),
    { a := ((state.a <<< 1) ||| fromC) &&& mask 93
      b := ((state.b <<< 1) ||| fromA) &&& mask 84
      c := ((state.c <<< 1) ||| fromB) &&& mask 111 })

def gather (gathered : UInt8 × Registers) (place : Nat) : UInt8 × Registers :=
  let (bit, after) := clock gathered.2
  (gathered.1 ||| (bit <<< UInt8.ofNat place), after)

def generateByte (state : Registers) : UInt8 × Registers := (List.range 8).foldl gather (0, state)

inductive Call where
  | bit
  | byte
deriving DecidableEq, Repr

def called : Call → Registers → UInt8 × Registers
  | .bit => clock
  | .byte => generateByte

def run : List Call → Registers → List (Call × UInt8) × Registers
  | [], state => ([], state)
  | call :: calls, state =>
      let (answer, after) := called call state
      let (answers, last) := run calls after
      ((call, answer) :: answers, last)

def Call.clocks : Call → Nat
  | .bit => 1
  | .byte => 8

-- The bits of an answer, the lowest first.
def delivered (answer : Call × UInt8) : List Bool :=
  (List.range answer.1.clocks).map answer.2.toNat.testBit

structure Within (state : Registers) : Prop where
  a : state.a.toNat < 2 ^ 93
  b : state.b.toNat < 2 ^ 84
  c : state.c.toNat < 2 ^ 111

def stages (state : Registers) : Stages := Stages.numbered fun number =>
  if number ≤ 93 then state.a.getLsbD (number - 1)
  else if number ≤ 177 then state.b.getLsbD (number - 94)
  else state.c.getLsbD (number - 178)

def widened (state : Trivium) : Registers :=
  ⟨state.a.setWidth 128, state.b.setWidth 128, state.c.setWidth 128⟩

def narrowed (state : Registers) : Trivium :=
  ⟨state.a.setWidth 93, state.b.setWidth 84, state.c.setWidth 111⟩

theorem widened_within (state : Trivium) : (widened state).Within := by
  constructor <;> simp only [widened, BitVec.toNat_setWidth]
  · have bound := state.a.isLt
    omega
  · have bound := state.b.isLt
    omega
  · have bound := state.c.isLt
    omega

theorem narrowed_widened (state : Trivium) : narrowed (widened state) = state := by
  simp only [narrowed, widened, BitVec.setWidth_setWidth_of_le _ (by decide : 93 ≤ 128),
    BitVec.setWidth_setWidth_of_le _ (by decide : 84 ≤ 128),
    BitVec.setWidth_setWidth_of_le _ (by decide : 111 ≤ 128), BitVec.setWidth_eq]

theorem word_widened (width : Nat) (word : BitVec 128) (bound : word.toNat < 2 ^ width) :
    (word.setWidth width).setWidth 128 = word := by
  apply BitVec.eq_of_toNat_eq
  rw [BitVec.toNat_setWidth, BitVec.toNat_setWidth, Nat.mod_eq_of_lt bound,
    Nat.mod_eq_of_lt word.isLt]

theorem widened_narrowed (state : Registers) (within : state.Within) :
    widened (narrowed state) = state := by
  rw [widened, narrowed, word_widened 93 _ within.a, word_widened 84 _ within.b,
    word_widened 111 _ within.c]

def flag (bit : Bool) : BitVec 128 := (BitVec.ofBool bit).setWidth 128

theorem flag_bit (bit : Bool) (place : Nat) :
    (flag bit).getLsbD place = (decide (place = 0) && bit) := by
  rw [flag, BitVec.getLsbD_setWidth, BitVec.getLsbD_ofBool]
  by_cases first : place = 0
  · simp [first]
  · simp [first]

theorem bit_exact (word : BitVec 128) (place : Nat) :
    bit word place = flag (word.getLsbD place) := by
  rw [bit, flag, ← Nat.add_zero place, ← BitVec.getLsbD_ushiftRight]
  exact BitVec.and_one_eq_setWidth_ofBool_getLsbD

theorem bit_widened {width : Nat} (register : BitVec width) (place : Nat) (inside : place < 128) :
    bit (register.setWidth 128) place = flag (register.getLsbD place) := by
  rw [bit_exact, BitVec.getLsbD_setWidth, decide_eq_true inside, Bool.true_and]

theorem flag_xor (left right : Bool) : flag left ^^^ flag right = flag (left ^^ right) := by
  cases left <;> cases right <;> rfl

theorem flag_and (left right : Bool) : flag left &&& flag right = flag (left && right) := by
  cases left <;> cases right <;> rfl

theorem flag_byte (bit : Bool) : UInt8.ofBitVec ((flag bit).setWidth 8) = bit.toUInt8 := by
  cases bit <;> rfl

theorem mask_bit (width : Nat) (narrow : width < 128) (place : Nat) :
    (mask width).getLsbD place = decide (place < width) := by
  have small : 2 ^ width < 2 ^ 128 := Nat.pow_lt_pow_right (by decide) narrow
  have power : (1#128 <<< width).toNat = 2 ^ width := by
    rw [BitVec.toNat_shiftLeft, BitVec.toNat_one (by decide), Nat.one_shiftLeft,
      Nat.mod_eq_of_lt small]
  have value : (mask width).toNat = 2 ^ width - 1 := by
    have some : 1#128 ≤ 1#128 <<< width := by
      rw [BitVec.le_def, power]
      exact Nat.one_le_two_pow
    rw [mask, BitVec.toNat_sub_of_le some, power]
    rfl
  rw [BitVec.getLsbD, value, Nat.testBit_two_pow_sub_one]

theorem shifted_widened {width : Nat} (register : BitVec width) (entering : Bool)
    (narrow : width < 128) :
    ((register.setWidth 128 <<< 1) ||| flag entering) &&& mask width =
      (register.shiftConcat entering).setWidth 128 := by
  apply BitVec.eq_of_getLsbD_eq
  intro place inside
  have before : place - 1 < 128 := by omega
  simp only [BitVec.getLsbD_and, BitVec.getLsbD_or, BitVec.getLsbD_shiftLeft,
    BitVec.getLsbD_setWidth, BitVec.getLsbD_shiftConcat, mask_bit width narrow, flag_bit, inside,
    before, Nat.lt_one_iff]
  by_cases first : place = 0 <;> simp [first, Bool.and_comm]

theorem clock_widened (state : Trivium) :
    clock (widened state) = ((Trivium.clock state).1.toUInt8, widened (Trivium.clock state).2) := by
  simp only [clock, Trivium.clock, widened, bit_widened, flag_xor, flag_and, flag_byte,
    shifted_widened _ _ (by decide : 93 < 128), shifted_widened _ _ (by decide : 84 < 128),
    shifted_widened _ _ (by decide : 111 < 128), Nat.reduceLT]

theorem stage_of_a (state : Trivium) (place : Nat) (inside : place < 93) :
    (widened state).stages.stage (place + 1) = state.a.getLsbD place := by
  have early : place + 1 ≤ 93 := inside
  rw [stages, Stages.stage_numbered _ _ (by omega) (by omega), if_pos early, widened,
    BitVec.getLsbD_setWidth, decide_eq_true (by omega), Bool.true_and, Nat.add_sub_cancel]

theorem stage_of_b (state : Trivium) (place : Nat) (inside : place < 84) :
    (widened state).stages.stage (place + 94) = state.b.getLsbD place := by
  have behind : ¬place + 94 ≤ 93 := by omega
  have early : place + 94 ≤ 177 := by omega
  rw [stages, Stages.stage_numbered _ _ (by omega) (by omega), if_neg behind, if_pos early, widened,
    BitVec.getLsbD_setWidth, decide_eq_true (by omega), Bool.true_and, Nat.add_sub_cancel]

theorem stage_of_c (state : Trivium) (place : Nat) (inside : place < 111) :
    (widened state).stages.stage (place + 178) = state.c.getLsbD place := by
  have behind : ¬place + 178 ≤ 177 := by omega
  have behindFirst : ¬place + 178 ≤ 93 := by omega
  rw [stages, Stages.stage_numbered _ _ (by omega) (by omega), if_neg behindFirst, if_neg behind,
    widened, BitVec.getLsbD_setWidth, decide_eq_true (by omega), Bool.true_and, Nat.add_sub_cancel]

theorem rows_moved (state : Trivium) (into1 into94 into178 : Bool) :
    (Stages.numbered fun number =>
      if number = 1 then into1
      else if number = 94 then into94
      else if number = 178 then into178
      else (widened state).stages.stage (number - 1)) =
    (widened ⟨state.a.shiftConcat into1, state.b.shiftConcat into94,
      state.c.shiftConcat into178⟩).stages := by
  -- Each row moves by one stage and takes a bit in.
  apply Stages.eq_of_rows
  · intro place inside
    rw [Stages.stage_numbered _ _ (by omega) (by omega), stage_of_a _ _ inside,
      BitVec.getLsbD_shiftConcat, decide_eq_true inside, Bool.true_and]
    cases place with
    | zero => rfl
    | succ place =>
        rw [if_neg (by omega), if_neg (by omega), if_neg (by omega), if_neg (by omega)]
        exact stage_of_a state place (by omega)
  · intro place inside
    rw [Stages.stage_numbered _ _ (by omega) (by omega), stage_of_b _ _ inside,
      BitVec.getLsbD_shiftConcat, decide_eq_true inside, Bool.true_and, if_neg (by omega)]
    cases place with
    | zero => rfl
    | succ place =>
        rw [if_neg (by omega), if_neg (by omega), if_neg (by omega)]
        exact stage_of_b state place (by omega)
  · intro place inside
    rw [Stages.stage_numbered _ _ (by omega) (by omega), stage_of_c _ _ inside,
      BitVec.getLsbD_shiftConcat, decide_eq_true inside, Bool.true_and, if_neg (by omega),
      if_neg (by omega)]
    cases place with
    | zero => rfl
    | succ place =>
        rw [if_neg (by omega), if_neg (by omega)]
        exact stage_of_c state place (by omega)

theorem clock_stages (state : Trivium) :
    Stages.clock (widened state).stages =
      ((Trivium.clock state).1, (widened (Trivium.clock state).2).stages) := by
  have a := stage_of_a state
  have b := stage_of_b state
  have c := stage_of_c state
  simp only [Stages.clock, Trivium.clock, a 65, a 68, a 90, a 91, a 92, b 68, b 77, b 81, b 82,
    b 83, c 65, c 86, c 108, c 109, c 110, Nat.reduceLT, rows_moved]

theorem clocks_stages (state : Trivium) (count : Nat) :
    (fun stages => (Stages.clock stages).2)^[count] (widened state).stages =
      (widened ((fun state => (Trivium.clock state).2)^[count] state)).stages := by
  have step : Function.Semiconj (fun state => (widened state).stages)
      (fun state => (Trivium.clock state).2) (fun stages => (Stages.clock stages).2) := by
    intro state
    exact (congrArg Prod.snd (clock_stages state)).symm
  exact (step.iterate_right count state).symm

theorem bit_at_stages (state : Trivium) (index : Nat) :
    (widened state).stages.bitAt index = state.bitAt index := by
  rw [Stages.bitAt, clocks_stages, clock_stages, bitAt]

theorem clocks_widened (state : Trivium) (count : Nat) :
    (fun state => (clock state).2)^[count] (widened state) =
      widened ((fun state => (Trivium.clock state).2)^[count] state) := by
  have step : Function.Semiconj widened
      (fun state => (Trivium.clock state).2) (fun state => (clock state).2) := by
    intro state
    exact (congrArg Prod.snd (clock_widened state)).symm
  exact (step.iterate_right count state).symm

/-- The sum over the first `count` bits. -/
def sumOfBits (bit : Nat → Bool) (count : Nat) : Nat :=
  ((List.range count).map fun place => 2 ^ place * (bit place).toNat).sum

theorem sum_of_bits_next (bit : Nat → Bool) (count : Nat) :
    sumOfBits bit (count + 1) = sumOfBits bit count + 2 ^ count * (bit count).toNat := by
  simp only [sumOfBits, List.range_succ, List.map_append, List.map_cons, List.map_nil,
    List.sum_append, List.sum_cons, List.sum_nil, Nat.add_zero]

theorem sum_of_bits_bound (bit : Nat → Bool) (count : Nat) : sumOfBits bit count < 2 ^ count := by
  induction count with
  | zero => exact Nat.one_pos
  | succ count ih =>
      rw [sum_of_bits_next, Nat.pow_succ]
      cases bit count
      · rw [Bool.toNat_false]
        omega
      · rw [Bool.toNat_true]
        omega

theorem sum_of_bits_bit (bit : Nat → Bool) (count place : Nat) (inside : place < count) :
    (sumOfBits bit count).testBit place = bit place := by
  induction count with
  | zero => omega
  | succ count ih =>
      rw [sum_of_bits_next, Nat.add_comm,
        Nat.testBit_two_pow_mul_add _ (sum_of_bits_bound bit count)]
      by_cases earlier : place < count
      · rw [if_pos earlier, ih earlier]
      · have last : place = count := by omega
        rw [if_neg earlier, last, Nat.sub_self]
        cases bit count <;> rfl

-- One bit more above the bits gathered so far.
theorem bit_gathered (bit : Nat → Bool) (count : Nat) (inside : count < 8) :
    UInt8.ofNat (sumOfBits bit count) ||| ((bit count).toUInt8 <<< UInt8.ofNat count) =
      UInt8.ofNat (sumOfBits bit (count + 1)) := by
  have power : 2 ^ (count + 1) ≤ 2 ^ 8 := Nat.pow_le_pow_right (by decide) inside
  have below := sum_of_bits_bound bit count
  have bound := sum_of_bits_bound bit (count + 1)
  have amount : count % 2 ^ 8 % 8 = count := by omega
  have digit : (bit count).toUInt8.toNat = (bit count).toNat := by cases bit count <;> rfl
  have kept : 2 ^ count * (bit count).toNat < 2 ^ 8 := by
    rw [sum_of_bits_next] at bound
    omega
  have shifted : ((bit count).toUInt8 <<< UInt8.ofNat count).toNat =
      2 ^ count * (bit count).toNat := by
    rw [UInt8.toNat_shiftLeft, UInt8.toNat_ofNat', amount, digit, Nat.shiftLeft_eq, Nat.mul_comm,
      Nat.mod_eq_of_lt kept]
  apply UInt8.toNat_inj.mp
  rw [UInt8.toNat_or, shifted, UInt8.toNat_ofNat', UInt8.toNat_ofNat',
    Nat.mod_eq_of_lt (bound.trans_le power), Nat.mod_eq_of_lt (by omega), Nat.or_comm,
    ← Nat.two_pow_add_eq_or_of_lt below, sum_of_bits_next, Nat.add_comm]

theorem bits_gathered (state : Trivium) (count : Nat) (inside : count ≤ 8) :
    (List.range count).foldl gather (0, widened state) =
      (UInt8.ofNat (sumOfBits state.bitAt count),
        widened ((fun state => (Trivium.clock state).2)^[count] state)) := by
  induction count with
  | zero => rfl
  | succ count ih =>
      rw [List.range_succ, List.foldl_append, ih (by omega), List.foldl_cons, List.foldl_nil,
        gather, clock_widened, Function.iterate_succ_apply', ← bit_gathered _ _ inside]
      rfl

theorem generate_byte_widened (state : Trivium) :
    generateByte (widened state) = ((Trivium.next state).1, widened (Trivium.next state).2) := by
  have next := next_exact state 0
  rw [generateByte, bits_gathered state 8 le_rfl]
  change Trivium.next state = _ at next
  rw [next, keyByte, sumOfBits]
  simp only [Nat.mul_zero, Nat.zero_add, Nat.mul_one]

theorem call_widened (call : Call) (state : Trivium) :
    called call (widened state) = (UInt8.ofNat (sumOfBits state.bitAt call.clocks),
      widened ((fun state => (Trivium.clock state).2)^[call.clocks] state)) := by
  cases call with
  | byte => exact bits_gathered state 8 le_rfl
  | bit =>
      have digit : state.clock.1.toUInt8 = UInt8.ofNat (sumOfBits state.bitAt 1) := by
        rw [sum_of_bits_next]
        change state.clock.1.toUInt8 = UInt8.ofNat (0 + 1 * state.clock.1.toNat)
        cases state.clock.1 <;> rfl
      exact (clock_widened state).trans (by rw [digit]; rfl)

theorem call_delivers (call : Call) (bit : Nat → Bool) :
    (UInt8.ofNat (sumOfBits bit call.clocks)).toNat < 2 ^ call.clocks ∧
      delivered (call, UInt8.ofNat (sumOfBits bit call.clocks)) =
        (List.range call.clocks).map bit := by
  have bound := sum_of_bits_bound bit call.clocks
  have power : 2 ^ call.clocks ≤ 2 ^ 8 := by cases call <;> decide
  have kept : (UInt8.ofNat (sumOfBits bit call.clocks)).toNat = sumOfBits bit call.clocks :=
    Nat.mod_eq_of_lt (bound.trans_le power)
  refine ⟨kept.trans_lt bound, ?_⟩
  rw [delivered, kept]
  exact List.map_congr_left fun place inside =>
    sum_of_bits_bit bit _ place (List.mem_range.mp inside)

theorem run_widened (calls : List Call) (state : Trivium) :
    ∃ answers : List (Call × UInt8),
      run calls (widened state) = (answers,
        widened ((fun state => (Trivium.clock state).2)^[(calls.map Call.clocks).sum] state)) ∧
      answers.map Prod.fst = calls ∧ (∀ answer ∈ answers, answer.2.toNat < 2 ^ answer.1.clocks) ∧
      answers.flatMap delivered = (List.range (calls.map Call.clocks).sum).map state.bitAt := by
  induction calls generalizing state with
  | nil => exact ⟨[], rfl, rfl, by simp, rfl⟩
  | cons call calls ih =>
      obtain ⟨narrow, bits⟩ := call_delivers call state.bitAt
      obtain ⟨answers, rest, order, bounds, stream⟩ :=
        ih ((fun state => (Trivium.clock state).2)^[call.clocks] state)
      refine ⟨(call, UInt8.ofNat (sumOfBits state.bitAt call.clocks)) :: answers, ?_, ?_, ?_, ?_⟩
      · rw [run, call_widened]
        dsimp only
        rw [rest, List.map_cons, List.sum_cons, Nat.add_comm, Function.iterate_add_apply]
      · rw [List.map_cons, order]
      · exact List.forall_mem_cons.mpr ⟨narrow, bounds⟩
      · -- The rest of the stream begins where the first call has stopped.
        have later : ((fun state => (Trivium.clock state).2)^[call.clocks] state).bitAt =
            fun index => state.bitAt (call.clocks + index) := by
          funext index
          rw [bitAt, bitAt, ← Function.iterate_add_apply, Nat.add_comm]
        rw [List.flatMap_cons, bits, stream, later, List.map_cons, List.sum_cons, List.range_add,
          List.map_append, List.map_map]
        rfl

end Registers

end SymmetricKey.Trivium
