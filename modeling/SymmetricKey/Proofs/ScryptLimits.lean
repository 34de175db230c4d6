import SymmetricKey.Proofs.BufferedMixing
import SymmetricKey.Proofs.ScryptStandard

/-!
The parameters of scrypt over the integers, and the derivation in a machine's memory. All
sizes are known once the parameters are accepted, so either the memory is there and no range
is outside, or the derivation ends before it has written anything.
-/

namespace SymmetricKey.Derivation

namespace Scrypt

structure Accepted (cost width lanes : Nat) : Prop where
  power : ∃ bits, cost = 2 ^ bits
  least : 2 ≤ cost
  wide : 1 ≤ width
  some : 1 ≤ lanes
  few : width * lanes < 2 ^ 30
  apart : cost < 2 ^ (16 * width)

def multiply32 (left right : Nat) : Checked Nat :=
  if left * right < 2 ^ 32 then .ok (left * right) else .error .overflow

-- A shift by all bits or more stops.
def shiftRight (word : UInt64) (amount : Nat) : Checked UInt64 :=
  if amount < 64 then .ok (word >>> UInt64.ofNat amount) else .error .overflow

/-- Only narrow lanes need the shift: a cost of 64 bits is below all greater powers. -/
def guardedCheck (cost : UInt64) (width lanes : UInt32) : Checked (Except Error Unit) :=
  if cost < 2 ∨ !isPowerOfTwo cost ∨ width = 0 ∨ lanes = 0 then .ok (.error .invalidParameter)
  else do
    let product ← Checked.multiply width.toNat lanes.toNat
    if 1 <<< 30 ≤ product then .ok (.error .invalidParameter)
    else if width < 4 then do
      let bits ← multiply32 16 width.toNat
      let rest ← shiftRight cost bits
      if rest ≠ 0 then .ok (.error .invalidParameter) else .ok (.ok ())
    else .ok (.ok ())

theorem shift_right_zero (word : UInt64) (amount : Nat) (inside : amount < 64) :
    word >>> UInt64.ofNat amount ≠ 0 ↔ word.toNat >>> amount ≠ 0 := by
  have value : (word >>> UInt64.ofNat amount).toNat = word.toNat >>> amount := by
    rw [UInt64.toNat_shiftRight, UInt64.toNat_ofNat', Nat.mod_eq_of_lt (by omega : amount < 2 ^ 64),
      Nat.mod_eq_of_lt inside]
  rw [← value, ne_eq, ← UInt64.toNat_inj, UInt64.toNat_zero]

theorem wide_lane_apart (cost : UInt64) (width : Nat) (wide : 4 ≤ width) :
    cost.toNat >>> (16 * width) = 0 := by
  -- A cost of 64 bits is below `2^64`.
  have power : 2 ^ 64 ≤ 2 ^ (16 * width) := Nat.pow_le_pow_right (by decide) (by omega)
  rw [Nat.shiftRight_eq_div_pow]
  exact Nat.div_eq_of_lt (cost.toNat_lt.trans_le power)

theorem guarded_check_exact (cost : UInt64) (width lanes : UInt32) :
    guardedCheck cost width lanes = .ok (checkParameters cost width lanes) := by
  have product : width.toNat * lanes.toNat < 2 ^ 64 := by
    have bound : width.toNat * lanes.toNat < 2 ^ 32 * 2 ^ 32 :=
      Nat.mul_lt_mul'' width.toNat_lt lanes.toNat_lt
    exact bound
  rw [guardedCheck, checkParameters]
  by_cases refused : cost < 2 ∨ !isPowerOfTwo cost ∨ width = 0 ∨ lanes = 0
  · rw [if_pos refused, if_pos refused]
  · rw [if_neg refused, if_neg refused, Checked.multiply_within _ _ product, Checked.ok_bind]
    by_cases many : 1 <<< 30 ≤ width.toNat * lanes.toNat
    · rw [if_pos many, if_pos many]
    · rw [if_neg many, if_neg many]
      by_cases narrow : width < 4
      · have few : width.toNat < 4 := UInt32.lt_iff_toNat_lt.mp narrow
        rw [if_pos narrow, multiply32, if_pos (by omega), Checked.ok_bind, shiftRight,
          if_pos (by omega), Checked.ok_bind]
        have same := shift_right_zero cost (16 * width.toNat) (by omega)
        by_cases apart : cost.toNat >>> (16 * width.toNat) ≠ 0
        · rw [if_pos apart, if_pos (same.mpr apart)]
        · rw [if_neg apart, if_neg (mt same.mp apart)]
      · have wide : 4 ≤ width.toNat := Nat.le_of_not_lt fun few =>
          narrow (UInt32.lt_iff_toNat_lt.mpr few)
        rw [if_neg narrow, if_neg (not_not_intro (wide_lane_apart cost _ wide))]

theorem power_of_two_iff (number : UInt64) :
    isPowerOfTwo number = true ↔ ∃ bits, number.toNat = 2 ^ bits := by
  constructor
  · exact power_of_two number
  · rintro ⟨bits, power⟩
    have nonzero : number.toNat ≠ 0 := by
      rw [power]
      exact (Nat.two_pow_pos bits).ne'
    have least : (1 : UInt64) ≤ number :=
      UInt64.le_iff_toNat_le.mpr (Nat.one_le_iff_ne_zero.mpr nonzero)
    have single := (Nat.and_sub_one_eq_zero_iff_isPowerOfTwo nonzero).mpr ⟨bits, power⟩
    have word : number &&& (number - 1) = 0 := by
      apply UInt64.toNat_inj.mp
      rw [UInt64.toNat_and, UInt64.toNat_sub_of_le _ _ least]
      exact single
    have some : number ≠ 0 := fun zero => nonzero (congrArg UInt64.toNat zero)
    rw [isPowerOfTwo, word]
    exact Bool.and_eq_true_iff.mpr ⟨bne_iff_ne.mpr some, rfl⟩

theorem accepted_iff (cost : UInt64) (width lanes : UInt32) :
    checkParameters cost width lanes = .ok () ↔ Accepted cost.toNat width.toNat lanes.toNat := by
  have positive (number : UInt32) : number ≠ 0 ↔ 1 ≤ number.toNat := by
    rw [ne_eq, ← UInt32.toNat_inj, UInt32.toNat_zero]
    omega
  have least : ¬cost < 2 ↔ 2 ≤ cost.toNat := by
    rw [UInt64.lt_iff_toNat_lt]
    exact not_lt
  have apart : ¬cost.toNat >>> (16 * width.toNat) ≠ 0 ↔ cost.toNat < 2 ^ (16 * width.toNat) := by
    rw [not_not, Nat.shiftRight_eq_div_pow, Nat.div_eq_zero_iff]
    have some := Nat.two_pow_pos (16 * width.toNat)
    omega
  rw [checkParameters]
  constructor
  · intro accepted
    split_ifs at accepted with refused many large
    simp only [not_or, Bool.not_eq_true', Bool.not_eq_false] at refused
    obtain ⟨two, single, wide, some⟩ := refused
    exact ⟨(power_of_two_iff cost).mp single, least.mp two, (positive width).mp wide,
      (positive lanes).mp some, Nat.lt_of_not_le many, apart.mp large⟩
  · rintro ⟨power, two, wide, some, few, large⟩
    have notMany : ¬1 <<< 30 ≤ width.toNat * lanes.toNat := Nat.not_le.mpr few
    rw [if_neg, if_neg notMany, if_neg (apart.mpr large)]
    simp only [not_or, Bool.not_eq_true', Bool.not_eq_false]
    exact ⟨least.mpr two, (power_of_two_iff cost).mpr power, (positive width).mpr wide,
      (positive lanes).mpr some⟩

def checkedProduct (left right : Nat) : Option Nat :=
  if left * right < 2 ^ 64 then some (left * right) else none

def allocate {Item : Type} (granted : Nat → Bool) (itemSize : Nat) (blank : Item)
    (count : Option Nat) :
    Except Error (List Item) :=
  match count with
  | none => .error .outOfMemory
  | some count =>
      if granted (count * itemSize) then .ok (List.replicate count blank) else .error .outOfMemory

/-- Room for all lanes, for the kept values of one, and for a lane twice. -/
structure Workspace where
  lanes : Bytes
  kept : List UInt32
  scratch : List UInt32

def allocateAll (allocator : Allocator) (cost laneSize lanes : Nat) : Except Error Workspace := do
  let stretched ← allocate (allocator 0) 1 0 (checkedProduct laneSize lanes)
  let kept ← allocate (allocator 1) 4 0 (checkedProduct cost (laneSize / 4))
  let scratch ← allocate (allocator 2) 4 0 (checkedProduct (laneSize / 4) 2)
  .ok ⟨stretched, kept, scratch⟩

/-- The memory as it is had, of the sizes that the parameters give over the integers. -/
def blankWorkspace (cost width lanes : Nat) : Workspace :=
  { lanes := List.replicate (128 * width * lanes) 0
    kept := List.replicate (cost * (32 * width)) 0
    scratch := List.replicate (64 * width) 0 }

/-- All sizes are numbers of 64 bits and no reservation is refused. -/
structure Granted (allocator : Allocator) (cost width lanes : Nat) : Prop where
  lanes : allocator 0 (128 * width * lanes) = true
  fits : cost * (32 * width) < 2 ^ 64
  kept : allocator 1 (cost * (32 * width) * 4) = true
  scratch : allocator 2 (64 * width * 4) = true

section Sizes
variable {cost width lanes : Nat} (accepted : Accepted cost width lanes)
include accepted

theorem sizes_exact :
    128 * width < 2 ^ 37 ∧ checkedProduct width 128 = some (128 * width) ∧
      checkedProduct (128 * width) lanes = some (128 * width * lanes) ∧
      checkedProduct (128 * width / 4) 2 = some (64 * width) := by
  -- Only the kept values may be too many.
  have least := accepted.some
  have few := accepted.few
  have narrow : width ≤ width * lanes := Nat.le_mul_of_pos_right width least
  have quarter : 128 * width / 4 = 32 * width := by omega
  have rest : 32 * width * 2 = 64 * width := by omega
  have all : 128 * width * lanes = 128 * (width * lanes) := Nat.mul_assoc 128 width lanes
  refine ⟨by omega, ?_, ?_, ?_⟩
  · rw [checkedProduct, if_pos (by omega), Nat.mul_comm]
  · rw [checkedProduct, if_pos (by omega)]
  · rw [checkedProduct, quarter, rest, if_pos (by omega)]

theorem allocate_all_exact (allocator : Allocator) :
    (Granted allocator cost width lanes →
      allocateAll allocator cost (128 * width) lanes = .ok (blankWorkspace cost width lanes)) ∧
    (¬Granted allocator cost width lanes →
      allocateAll allocator cost (128 * width) lanes = .error .outOfMemory) := by
  -- A product that is too great and a reservation that is refused end the same way.
  obtain ⟨-, -, all, twice⟩ := sizes_exact accepted
  have quarter : 128 * width / 4 = 32 * width := by omega
  rw [allocateAll, all, twice, quarter, checkedProduct]
  simp only [allocate, Nat.mul_one]
  constructor
  · rintro ⟨first, fits, second, third⟩
    simp only [first, if_pos fits, second, third]
    rfl
  · intro refused
    by_cases first : allocator 0 (128 * width * lanes) = true
    · by_cases fits : cost * (32 * width) < 2 ^ 64
      · by_cases second : allocator 1 (cost * (32 * width) * 4) = true
        · by_cases third : allocator 2 (64 * width * 4) = true
          · exact absurd ⟨first, fits, second, third⟩ refused
          · simp only [first, if_pos fits, second, third]
            rfl
        · simp only [first, if_pos fits, second]
          rfl
      · simp only [first, if_neg fits]
        rfl
    · simp only [first]
      rfl

end Sizes

/-- The lanes from `index` on are mixed in their places, all in the same memory. -/
def mixInPlace (cost : UInt64) (laneSize : Nat) :
    Nat → Nat → Bytes → List UInt32 → List UInt32 → Checked Bytes
  | 0, _, lanes, _, _ => .ok lanes
  | left + 1, index, lanes, kept, scratch => do
      let lane ← Checked.range lanes (index * laneSize) ((index + 1) * laneSize)
      let mixed ← MixBuffers.mixLane cost lane kept scratch
      let written ← Checked.overwrite lanes (index * laneSize) ((index + 1) * laneSize) mixed.1
      mixInPlace cost laneSize left (index + 1) written mixed.2.1 mixed.2.2

section Lanes
variable {cost : UInt64} {width lanes : Nat} (accepted : Accepted cost.toNat width lanes)
  (fits : cost.toNat * (32 * width) < 2 ^ 64)
include accepted fits

-- Every range is inside, and what the memory held does not show in the lane.
theorem lane_mixed (bytes : Bytes) (whole : bytes.length = 128 * width) (kept scratch : List UInt32)
    (keptWhole : kept.length = cost.toNat * (32 * width))
    (scratchWhole : scratch.length = 64 * width) :
    ∃ keptAfter scratchAfter,
      MixBuffers.mixLane cost bytes kept scratch =
        .ok (roMix width cost.toNat bytes, keptAfter, scratchAfter) ∧
        (roMix width cost.toNat bytes).length = 128 * width ∧
        keptAfter.length = cost.toNat * (32 * width) ∧ scratchAfter.length = 64 * width := by
  obtain ⟨bits, power⟩ := accepted.power
  have narrow := (sizes_exact accepted).1
  have least := accepted.least
  obtain ⟨memory, size, room, keptAfter, scratchAfter, ran, length, keptLength, scratchLength⟩ :=
    MixBuffers.mix_lane_follows width accepted.wide cost (by omega) fits bytes whole
      (by omega) kept scratch keptWhole scratchWhole
  obtain ⟨mixed, -, -⟩ :=
    mix_lane_exact cost bits power width accepted.wide memory size room bytes whole
  rw [mixed] at ran length
  exact ⟨keptAfter, scratchAfter, ran, length, keptLength, scratchLength⟩

theorem mixed_in_place (todo : List Bytes) (whole : ∀ lane ∈ todo, lane.length = 128 * width)
    (front : Bytes) (index : Nat) (behind : front.length = index * (128 * width))
    (kept scratch : List UInt32) (keptWhole : kept.length = cost.toNat * (32 * width))
    (scratchWhole : scratch.length = 64 * width) :
    mixInPlace cost (128 * width) todo.length index (front ++ todo.flatten) kept scratch =
      .ok (front ++ todo.flatMap (roMix width cost.toNat)) := by
  -- In front stand the lanes that are mixed. What they left in the memory does not matter.
  induction todo generalizing front index kept scratch with
  | nil => rfl
  | cons lane todo ih =>
      have here := whole lane List.mem_cons_self
      have reach : (index + 1) * (128 * width) = front.length + lane.length := by
        rw [behind, here, Nat.succ_mul index]
      obtain ⟨keptAfter, scratchAfter, ran, length, keptLength, scratchLength⟩ :=
        lane_mixed accepted fits lane here kept scratch keptWhole scratchWhole
      rw [List.length_cons, mixInPlace, List.flatten_cons, reach, ← behind, ← List.append_assoc,
        Checked.range_parted, Checked.ok_bind, ran, Checked.ok_bind,
        Checked.overwrite_parted _ _ _ _ (length.trans here.symm), Checked.ok_bind]
      dsimp only
      have further : (front ++ roMix width cost.toNat lane).length =
          (index + 1) * (128 * width) := by
        rw [List.length_append, length, behind, Nat.succ_mul index]
      rw [ih (fun other member => whole other (List.mem_cons_of_mem _ member)) _ _ further _ _
        keptLength scratchLength, List.flatMap_cons, List.append_assoc]

theorem stretched_mixed (stretched : Bytes) (whole : stretched.length = 128 * width * lanes) :
    mixInPlace cost (128 * width) lanes 0 stretched (blankWorkspace cost.toNat width lanes).kept
        (blankWorkspace cost.toNat width lanes).scratch =
      .ok ((List.range lanes).flatMap fun index =>
        roMix width cost.toNat (laneOf width stretched index)) := by
  have positive := accepted.wide
  have pieces := lanes_exact width lanes positive stretched whole
  have count : (Bytes.segments (128 * width) stretched).length = lanes := by
    rw [pieces, List.length_map, List.length_range]
  have even :=
    Bytes.segments_aligned (128 * width) stretched (by omega) lanes (by rw [whole, Nat.mul_comm])
  have mixed := mixed_in_place accepted fits (Bytes.segments (128 * width) stretched) even [] 0
    (Nat.zero_mul _).symm (blankWorkspace cost.toNat width lanes).kept
    (blankWorkspace cost.toNat width lanes).scratch List.length_replicate List.length_replicate
  rw [count, List.nil_append, List.nil_append, Bytes.segments_flatten _ _ (by omega), pieces,
    List.flatMap_map] at mixed
  exact mixed

end Lanes

end Scrypt

open Scrypt

def deriveInto (allocator : Allocator) (password salt : Bytes) (cost : UInt64)
    (width lanes : UInt32) (key : Bytes) : Checked (Except Error Unit × Bytes) := do
  match ← guardedCheck cost width lanes with
  | .error error => .ok (.error error, key)
  | .ok () =>
      match checkedProduct width.toNat 128 with
      | none => .ok (.error .outOfMemory, key)
      | some laneSize =>
          match allocateAll allocator cost.toNat laneSize lanes.toNat with
          | .error error => .ok (.error error, key)
          | .ok workspace =>
              match pbkdf2 .sha256 password salt 1 workspace.lanes.length with
              | .error error => .ok (.error error, key)
              | .ok stretched => do
                  let count ← Checked.quotient stretched.length laneSize
                  let mixed ← mixInPlace cost laneSize count 0 stretched workspace.kept
                    workspace.scratch
                  let outcome := pbkdf2 .sha256 password mixed 1 key.length
                  .ok (outcome.map fun _ => (), filled key outcome)

section Derivation
variable (allocator : Allocator) (password salt : Bytes) (cost : UInt64) (width lanes : UInt32)
  (key : Bytes)

theorem derive_unaccepted (error : Error)
    (refused : checkParameters cost width lanes = .error error) :
    deriveInto allocator password salt cost width lanes key = .ok (.error error, key) := by
  rw [deriveInto, guarded_check_exact, Checked.ok_bind, refused]

variable (accepted : checkParameters cost width lanes = .ok ())
include accepted

theorem derive_refused (refused : ¬Granted allocator cost.toNat width.toNat lanes.toNat) :
    deriveInto allocator password salt cost width lanes key = .ok (.error .outOfMemory, key) := by
  have bounds := (accepted_iff cost width lanes).mp accepted
  obtain ⟨-, laneSize, -⟩ := sizes_exact bounds
  have none := (allocate_all_exact bounds allocator).2 refused
  rw [deriveInto, guarded_check_exact, Checked.ok_bind, accepted]
  simp only [laneSize, none]

theorem derive_granted (granted : Granted allocator cost.toNat width.toNat lanes.toNat) :
    let outcome := pbkdf2 .sha256 password
      (mixedText password salt cost.toNat width.toNat lanes.toNat) 1 key.length
    deriveInto allocator password salt cost width lanes key =
      .ok (outcome.map fun _ => (), filled key outcome) := by
  have bounds := (accepted_iff cost width lanes).mp accepted
  obtain ⟨-, laneSize, -⟩ := sizes_exact bounds
  have had := (allocate_all_exact bounds allocator).1 granted
  have few := bounds.few
  have positive := bounds.wide
  have stretched : pbkdf2 .sha256 password salt 1 (128 * width.toNat * lanes.toNat) =
      .ok (standardPbkdf2 .sha256 password salt 1 (128 * width.toNat * lanes.toNat)) :=
    pbkdf2_exact .sha256 password salt 1
      (by decide) _ (by rw [Hash.digestSize, Nat.mul_assoc]; omega)
  have length := standard_pbkdf2_length .sha256 password salt 1 (128 * width.toNat * lanes.toNat)
  have mixed := stretched_mixed bounds granted.fits
    (standardPbkdf2 .sha256 password salt 1 (128 * width.toNat * lanes.toNat)) length
  have room : (blankWorkspace cost.toNat width.toNat lanes.toNat).lanes.length =
      128 * width.toNat * lanes.toNat := List.length_replicate
  have count : 128 * width.toNat * lanes.toNat / (128 * width.toNat) = lanes.toNat :=
    Nat.mul_div_cancel_left _ (by omega)
  intro outcome
  rw [deriveInto, guarded_check_exact, Checked.ok_bind, accepted]
  simp only [laneSize, had, room, stretched, length]
  rw [Checked.quotient_within _ _ (by omega), Checked.ok_bind, count, mixed, Checked.ok_bind]
  rfl

end Derivation

namespace Scrypt

theorem reserve_exact {Item : Type} (granted : Nat → Bool) (itemSize : Nat) (blank : Item)
    (count : Option Nat) :
    reserve granted (count.map (itemSize * ·)) =
      (allocate granted itemSize blank count).map fun _ => () := by
  cases count with
  | none => rfl
  | some count =>
      rw [Option.map_some, reserve, allocate, Nat.mul_comm itemSize]
      cases had : granted (count * itemSize) with
      | true => rfl
      | false => rfl

theorem reserve_all_exact (allocator : Allocator) (cost : UInt64) (width lanes : UInt32)
    (accepted : Accepted cost.toNat width.toNat lanes.toNat) :
    reserveAll allocator cost width lanes =
      (allocateAll allocator cost.toNat (128 * width.toNat) lanes.toNat).map fun _ => () := by
  obtain ⟨-, -, all, twice⟩ := sizes_exact accepted
  have quarter : 128 * width.toNat / 4 = 32 * width.toNat := by omega
  have first := reserve_exact (allocator 0) 1 (0 : UInt8)
    (some (128 * width.toNat * lanes.toNat))
  have kept : keptWords cost width = checkedProduct cost.toNat (32 * width.toNat) := rfl
  have second := reserve_exact (allocator 1) 4 (0 : UInt32) (keptWords cost width)
  have third := reserve_exact (allocator 2) 4 (0 : UInt32) (some (64 * width.toNat))
  have whole : 4 * (64 * width.toNat) = 256 * width.toNat := by omega
  rw [Option.map_some, Nat.one_mul] at first
  rw [Option.map_some, whole] at third
  rw [reserveAll, first, second, third, allocateAll, all, twice, quarter, kept]
  cases allocate (allocator 0) 1 (0 : UInt8) (some (128 * width.toNat * lanes.toNat)) with
  | error => rfl
  | ok =>
      cases allocate (allocator 1) 4 (0 : UInt32)
        (checkedProduct cost.toNat (32 * width.toNat)) with
      | error => rfl
      | ok =>
          cases allocate (allocator 2) 4 (0 : UInt32) (some (64 * width.toNat)) with
          | error => rfl
          | ok => rfl

end Scrypt

theorem refused_value {Made Result : Type} (outcome : Except Error Made)
    (next : Made → Attempt Result) (error : Error) (refused : outcome = .error error) :
    (Attempt.ofExcept outcome >>= next).run.value = .error error := by
  rw [refused]
  rfl

theorem derive_library (allocator : Allocator) (password salt : Bytes) (cost : UInt64)
    (width lanes : UInt32) (key : Bytes) :
    let outcome := (scryptWith allocator password salt cost width lanes key.length).run.value
    deriveInto allocator password salt cost width lanes key =
      .ok (outcome.map fun _ => (), filled key outcome) := by
  intro outcome
  cases accepted : checkParameters cost width lanes with
  | error error =>
      have value : outcome = .error error := refused_value _ _ error accepted
      rw [derive_unaccepted _ password salt cost width lanes key error accepted, value]
      rfl
  | ok =>
      have bounds := (accepted_iff cost width lanes).mp accepted
      have reserved := reserve_all_exact allocator cost width lanes bounds
      obtain ⟨had, missed⟩ := allocate_all_exact bounds allocator
      by_cases granted : Granted allocator cost.toNat width.toNat lanes.toNat
      · rw [had granted] at reserved
        have value : outcome = _ :=
          scrypt_from_lanes allocator password salt cost width lanes key.length accepted reserved
        rw [derive_granted _ password salt cost width lanes key accepted granted, value]
      · rw [missed granted] at reserved
        have value : outcome = .error .outOfMemory := by
          have checked : (Attempt.ofExcept (checkParameters cost width lanes)).run.value =
              .ok () := accepted
          have recorded : (Attempt.record .debug (reservationText cost width lanes)).run.value =
              .ok () := rfl
          change (scryptWith allocator password salt cost width lanes key.length).run.value = _
          rw [scryptWith, Attempt.bind_value _ _ () checked, Attempt.bind_value _ _ () recorded]
          exact refused_value _ _ _ reserved
        rw [derive_refused _ password salt cost width lanes key accepted granted, value]
        rfl

/-- What holds of parameters that are accepted. Mixing takes no range outside its buffers,
whatever stands in them, or the buffers are not had and the derivation ends before it has written
anything. -/
structure WithinLimits (cost : UInt64) (width lanes : UInt32) : Prop where
  laneSize : checkedProduct width.toNat 128 = some (128 * width.toNat)
  laneSizes : checkedProduct (128 * width.toNat) lanes.toNat =
    some (128 * width.toNat * lanes.toNat)
  keptWords : checkedProduct cost.toNat (128 * width.toNat / 4) =
    if cost.toNat * (32 * width.toNat) <
      2 ^ 64 then some (cost.toNat * (32 * width.toNat)) else none
  scratchWords : checkedProduct (128 * width.toNat / 4) 2 = some (64 * width.toNat)
  refused : ∀ (allocator : Allocator) (password salt key : Bytes),
    ¬Granted allocator cost.toNat width.toNat lanes.toNat →
    deriveInto allocator password salt cost width lanes key = .ok (.error .outOfMemory, key)
  derived : ∀ (allocator : Allocator) (password salt key : Bytes),
    Granted allocator cost.toNat width.toNat lanes.toNat →
    let outcome := pbkdf2 .sha256 password
      (mixedText password salt cost.toNat width.toNat lanes.toNat) 1 key.length
    deriveInto allocator password salt cost width lanes key =
      .ok (outcome.map fun _ => (), filled key outcome)
  ranges : cost.toNat * (32 * width.toNat) < 2 ^ 64 →
  ∀ (bytes : Bytes) (kept scratch : List UInt32),
    bytes.length = 128 * width.toNat → kept.length = cost.toNat * (32 * width.toNat) →
    scratch.length = 64 * width.toNat → ∃ keptAfter scratchAfter,
      MixBuffers.mixLane cost bytes kept scratch =
          .ok (roMix width.toNat cost.toNat bytes, keptAfter, scratchAfter) ∧
        (roMix width.toNat cost.toNat bytes).length = 128 * width.toNat ∧
        keptAfter.length = cost.toNat * (32 * width.toNat) ∧ scratchAfter.length = 64 * width.toNat
  places : ∀ words : List UInt32, words.length = 32 * width.toNat →
    ∃ place, MixBuffers.placeOf cost words = .ok place ∧ place.toNat < cost.toNat

theorem accepted_within_limits (cost : UInt64) (width lanes : UInt32)
    (accepted : checkParameters cost width lanes = .ok ()) : WithinLimits cost width lanes := by
  have bounds := (accepted_iff cost width lanes).mp accepted
  have least := bounds.least
  obtain ⟨narrow, laneSize, laneSizes, scratchWords⟩ := sizes_exact bounds
  have quarter : 128 * width.toNat / 4 = 32 * width.toNat := by omega
  refine { laneSize, laneSizes, scratchWords, keptWords := ?_, refused := ?_, derived := ?_,
           ranges := ?_, places := ?_ }
  · rw [checkedProduct, quarter]
  · intro allocator password salt key refused
    exact derive_refused allocator password salt cost width lanes key accepted refused
  · intro allocator password salt key granted
    exact derive_granted allocator password salt cost width lanes key accepted granted
  · intro fits bytes kept scratch whole keptWhole scratchWhole
    exact lane_mixed bounds fits bytes whole kept scratch keptWhole scratchWhole
  · intro words whole
    obtain ⟨lane, blocks, same⟩ := MixBuffers.lane_exists width.toNat words whole
    have place := MixBuffers.place_follows bounds.wide (by omega) cost (by omega) lane blocks
    rw [same] at place
    exact ⟨_, place, MixBuffers.place_below cost (by omega) lane⟩

/-- Checking stops at nothing and accepts by the integers. Whatever memory can be had, the machine
derives what the library does. -/
theorem scrypt_limits_exact :
    (∀ (cost : UInt64) (width lanes : UInt32),
      guardedCheck cost width lanes = .ok (checkParameters cost width lanes) ∧
      (checkParameters cost width lanes = .ok () ↔ Accepted cost.toNat width.toNat lanes.toNat)) ∧
    (∀ (cost : UInt64) (width lanes : UInt32), checkParameters cost width lanes = .ok () →
      WithinLimits cost width lanes) ∧
    ∀ (allocator : Allocator) (password salt : Bytes) (cost : UInt64) (width lanes : UInt32)
      (key : Bytes),
      let outcome := (scryptWith allocator password salt cost width lanes key.length).run.value
      deriveInto allocator password salt cost width lanes key =
        .ok (outcome.map fun _ => (), filled key outcome) :=
  ⟨fun cost width lanes => ⟨guarded_check_exact cost width lanes, accepted_iff cost width lanes⟩,
    accepted_within_limits, derive_library⟩

/-- The kept values of the first would not be counted by 64 bits. -/
theorem great_cost_refused_and_small_cost_mixed :
    checkParameters 9223372036854775808 4 1 = .ok () ∧
    deriveInto (fun _ _ => true) [] [] 9223372036854775808 4 1 [1, 2, 3] =
      .ok (.error .outOfMemory, [1, 2, 3]) ∧
    checkParameters 2 1 1 = .ok () ∧
    ∃ keptAfter scratchAfter,
      MixBuffers.mixLane 2 (Bytes.zeros 128) (List.replicate 64 7) (List.replicate 64 9) =
        .ok (roMix 1 2 (Bytes.zeros 128), keptAfter, scratchAfter) := by
  obtain ⟨-, limits, -⟩ := scrypt_limits_exact
  have great : checkParameters 9223372036854775808 4 1 = .ok () := by decide
  have small : checkParameters 2 1 1 = .ok () := by decide
  have missed : ¬Granted (fun _ _ => true) (9223372036854775808 : UInt64).toNat (4 : UInt32).toNat
      (1 : UInt32).toNat := fun granted => absurd granted.fits (by decide)
  obtain ⟨keptAfter, scratchAfter, mixed, -⟩ :=
    (limits 2 1 1 small).ranges (by decide) (Bytes.zeros 128)
      (List.replicate 64 7) (List.replicate 64 9) (Bytes.zeros_length 128) List.length_replicate
      List.length_replicate
  exact ⟨great, (limits _ 4 1 great).refused _ [] [] [1, 2, 3] missed, small, keptAfter,
    scratchAfter, mixed⟩

end SymmetricKey.Derivation
