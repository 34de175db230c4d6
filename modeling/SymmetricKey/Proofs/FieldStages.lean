import SymmetricKey.Keystream.Zuc
import Mathlib.Data.Nat.ModEq

/-!
The shift register of ZUC over the integers modulo `2^31 - 1`. Every stage holds one of
the numbers from 1 to the prime, from the loading on and behind any clocks. So a sum of
weighted stages stays below `2^53`, and two folds of it already give the next stage.
-/

namespace SymmetricKey.Zuc

/-- The numbers from 1 to the prime, which stands for zero. -/
def Representative (word : UInt32) : Prop := 1 ≤ word.toNat ∧ word.toNat ≤ 2 ^ 31 - 1

def InField (stages : Vector UInt32 16) : Prop := ∀ index, Representative (stages.get index)

def weighted (stages : Vector UInt32 16) (injected : Nat) : Nat :=
  injected + (1 + 2 ^ 8) * (stages.get 0).toNat + 2 ^ 20 * (stages.get 4).toNat +
    2 ^ 21 * (stages.get 10).toNat + 2 ^ 17 * (stages.get 13).toNat + 2 ^ 15 * (stages.get 15).toNat

section Sums
variable (stages : Vector UInt32 16) (field : InField stages) (injected : UInt32)
  (narrow : injected.toNat < 2 ^ 31)
include field narrow

theorem weighted_bound :
    1 ≤ weighted stages injected.toNat ∧ weighted stages injected.toNat < 2 ^ 53 := by
  obtain ⟨least, most⟩ := field 0
  have most4 := (field 4).2
  have most10 := (field 10).2
  have most13 := (field 13).2
  have most15 := (field 15).2
  rw [weighted]
  omega

theorem feedback_exact : (feedback stages injected).toNat = weighted stages injected.toNat := by
  -- Nothing is shifted out of the sum and nothing is carried out of it.
  have bound := (weighted_bound stages field injected narrow).2
  simp only [feedback, UInt64.toNat_add, UInt64.toNat_shiftLeft, UInt32.toNat_toUInt64,
    UInt64.reduceToNat, Nat.reduceMod, Nat.shiftLeft_eq]
  rw [weighted] at bound ⊢
  -- Each product and each partial sum is below the bound, so no remainder is taken.
  generalize injected.toNat = u at *
  generalize (stages.get 0).toNat = s0 at *
  generalize (stages.get 4).toNat = s4 at *
  generalize (stages.get 10).toNat = s10 at *
  generalize (stages.get 13).toNat = s13 at *
  generalize (stages.get 15).toNat = s15 at *
  simp (disch := omega) only [Nat.mod_eq_of_lt]
  omega

end Sums

theorem fold31_exact (sum : UInt64) :
    (fold31 sum).toNat = sum.toNat / 2 ^ 31 + sum.toNat % 2 ^ 31 := by
  have bound := sum.toNat_lt
  have mask : prime.toUInt64.toNat = 2 ^ 31 - 1 := rfl
  simp only [fold31, UInt64.toNat_add, UInt64.toNat_shiftRight, UInt64.toNat_and, mask,
    UInt64.reduceToNat, Nat.reduceMod, Nat.shiftRight_eq_div_pow, Nat.and_two_pow_sub_one_eq_mod]
  omega

theorem fold31_mod (sum : UInt64) : (fold31 sum).toNat ≡ sum.toNat [MOD 2 ^ 31 - 1] := by
  rw [fold31_exact, Nat.ModEq]
  omega

theorem fold_twice_bound (sum : UInt64) (some : 1 ≤ sum.toNat) (narrow : sum.toNat < 2 ^ 53) :
    1 ≤ (fold31 (fold31 sum)).toNat ∧ (fold31 (fold31 sum)).toNat ≤ 2 ^ 31 - 1 := by
  -- The first fold leaves at most one bit above 31, and the second none.
  have first := fold31_exact sum
  have second := fold31_exact (fold31 sum)
  omega

-- The low word holds all of the folded sum, and that is not zero.
theorem residue_exact (sum : UInt64) (some : 1 ≤ sum.toNat) (narrow : sum.toNat < 2 ^ 53) :
    (fold31 (fold31 sum)).toUInt32 ≠ 0 ∧ residue sum = (fold31 (fold31 sum)).toUInt32 ∧
      (residue sum).toNat = (fold31 (fold31 sum)).toNat := by
  obtain ⟨least, most⟩ := fold_twice_bound sum some narrow
  have kept : (fold31 (fold31 sum)).toUInt32.toNat = (fold31 (fold31 sum)).toNat := by
    rw [UInt64.toNat_toUInt32]
    omega
  have nonzero : (fold31 (fold31 sum)).toUInt32 ≠ 0 := by
    intro zero
    have none := congrArg UInt32.toNat zero
    rw [kept, UInt32.toNat_zero] at none
    omega
  have plain : residue sum = (fold31 (fold31 sum)).toUInt32 := if_neg nonzero
  exact ⟨nonzero, plain, by rw [plain, kept]⟩

inductive Clock where
  | warmUp
  | work
deriving DecidableEq, Repr

def injected (state : Zuc) : Clock → UInt32
  | .warmUp => (remember (readOut state.stages) state).1 >>> 1
  | .work => 0

def clocked (state : Zuc) : Clock → Zuc
  | .warmUp => warmUp state
  | .work => (nextWord state).2

def summed (state : Zuc) (clock : Clock) : UInt64 := feedback state.stages (injected state clock)

theorem clocked_stages (state : Zuc) (clock : Clock) :
    (clocked state clock).stages = state.stages.tail.push (residue (summed state clock)) := by
  cases clock <;> rfl

theorem injected_narrow (state : Zuc) (clock : Clock) : (injected state clock).toNat < 2 ^ 31 := by
  cases clock with
  | warmUp =>
      have bound := (remember (readOut state.stages) state).1.toNat_lt
      rw [injected, UInt32.toNat_shiftRight]
      simp only [UInt32.reduceToNat, Nat.reduceMod, Nat.shiftRight_eq_div_pow]
      omega
  | work => exact Nat.two_pow_pos 31

theorem clocked_last (state : Zuc) (clock : Clock) :
    (clocked state clock).stages.get 15 = residue (summed state clock) := by
  rw [clocked_stages]
  exact Vector.getElem_push_eq

theorem clocked_earlier (state : Zuc) (clock : Clock) (index : Nat) (inside : index < 15) :
    (clocked state clock).stages.get ⟨index, by omega⟩ =
      state.stages.get ⟨index + 1, by omega⟩ := by
  have moved : (state.stages.tail.push (residue (summed state clock))).get ⟨index, by omega⟩ =
      state.stages.tail[index] := Vector.getElem_push_lt inside
  have place : 1 + index = index + 1 := Nat.add_comm 1 index
  have next : state.stages.tail[index] = state.stages.get ⟨index + 1, by omega⟩ := by
    simp only [Vector.tail_eq_cast_extract, Vector.getElem_cast, Vector.getElem_extract, place]
    rfl
  rw [clocked_stages, moved, next]

/-- A clock over the integers, as the words carry it out. -/
structure ExactClock (state : Zuc) (clock : Clock) : Prop where
  injected_narrow : (injected state clock).toNat < 2 ^ 31
  sum_exact : (summed state clock).toNat = weighted state.stages (injected state clock).toNat
  sum_narrow : (summed state clock).toNat < 2 ^ 53
  folded : 1 ≤ (fold31 (fold31 (summed state clock))).toNat ∧
    (fold31 (fold31 (summed state clock))).toNat ≤ 2 ^ 31 - 1
  low_word : (fold31 (fold31 (summed state clock))).toUInt32.toNat =
    (fold31 (fold31 (summed state clock))).toNat
  nonzero : (fold31 (fold31 (summed state clock))).toUInt32 ≠ 0
  last : (clocked state clock).stages.get 15 = (fold31 (fold31 (summed state clock))).toUInt32
  representative : Representative ((clocked state clock).stages.get 15)
  congruent : ((clocked state clock).stages.get 15).toNat ≡
    weighted state.stages (injected state clock).toNat [MOD 2 ^ 31 - 1]
  earlier : ∀ index (inside : index < 15),
    (clocked state clock).stages.get ⟨index, by omega⟩ = state.stages.get ⟨index + 1, by omega⟩

theorem clock_exact (state : Zuc) (field : InField state.stages) (clock : Clock) :
    ExactClock state clock := by
  have narrow := injected_narrow state clock
  have exact : (summed state clock).toNat = weighted state.stages (injected state clock).toNat :=
    feedback_exact state.stages field _ narrow
  obtain ⟨least, most⟩ := weighted_bound state.stages field _ narrow
  rw [← exact] at least most
  obtain ⟨nonzero, plain, kept⟩ := residue_exact _ least most
  have folded := fold_twice_bound _ least most
  have last := clocked_last state clock
  refine { injected_narrow := narrow, sum_exact := exact, sum_narrow := most, folded, nonzero,
           low_word := ?_, last := last.trans plain, representative := ?_, congruent := ?_,
           earlier := clocked_earlier state clock }
  · rw [← plain, kept]
  · rw [last, Representative, kept]
    exact folded
  · rw [last, kept, ← exact]
    exact (fold31_mod _).trans (fold31_mod _)

theorem clocked_field (state : Zuc) (field : InField state.stages) (clock : Clock) :
    InField (clocked state clock).stages := by
  intro index
  have step := clock_exact state field clock
  by_cases inside : index.val < 15
  · have moved := step.earlier index.val inside
    rw [moved]
    exact field _
  · have last : index = 15 := Fin.ext (by omega)
    rw [last]
    exact step.representative

theorem clocks_field (clocks : List Clock) (state : Zuc) (field : InField state.stages) :
    InField (clocks.foldl clocked state).stages := by
  induction clocks generalizing state with
  | nil => exact field
  | cons clock clocks ih => exact ih _ (clocked_field state field clock)

theorem loading_constant_bound (index : Fin 16) :
    1 ≤ (loadingConstants.get index).toNat ∧ (loadingConstants.get index).toNat < 2 ^ 15 := by
  revert index
  decide

-- The three parts of a stage do not overlap.
theorem parts_joined (top constant low : Nat) (first : top < 2 ^ 8) (second : constant < 2 ^ 15)
    (third : low < 2 ^ 8) :
    top * 2 ^ 23 % 2 ^ 32 ||| constant * 2 ^ 8 % 2 ^ 32 ||| low =
      2 ^ 23 * top + 2 ^ 8 * constant + low := by
  have inner : 2 ^ 8 * constant < 2 ^ 23 := by omega
  rw [Nat.mul_comm top, Nat.mul_comm constant, Nat.mod_eq_of_lt (by omega : 2 ^ 23 * top < 2 ^ 32),
    Nat.mod_eq_of_lt (inner.trans (by decide)), ← Nat.two_pow_add_eq_or_of_lt inner]
  have joined : 2 ^ 23 * top + 2 ^ 8 * constant = 2 ^ 8 * (2 ^ 15 * top + constant) := by omega
  rw [joined, ← Nat.two_pow_add_eq_or_of_lt third]

theorem loaded_stage (key iv : Bytes) (index : Fin 16) :
    ((loaded key iv).stages.get index).toNat =
      2 ^ 23 * (key.getD index.val 0).toNat + 2 ^ 8 * (loadingConstants.get index).toNat +
        (iv.getD index.val 0).toNat := by
  have stage : (loaded key iv).stages.get index = ((key.getD index.val 0).toUInt32 <<< 23) |||
      (loadingConstants.get index <<< 8) ||| (iv.getD index.val 0).toUInt32 := Vector.getElem_ofFn _
  rw [stage,
    ← parts_joined _ _ _ (UInt8.toNat_lt _) (loading_constant_bound index).2 (UInt8.toNat_lt _)]
  simp only [UInt32.toNat_or, UInt32.toNat_shiftLeft, UInt8.toNat_toUInt32, UInt32.reduceToNat,
    Nat.reduceMod, Nat.shiftLeft_eq]

theorem loaded_field (key iv : Bytes) : InField (loaded key iv).stages := by
  intro index
  have top := (key.getD index.val 0).toNat_lt
  have low := (iv.getD index.val 0).toNat_lt
  obtain ⟨least, most⟩ := loading_constant_bound index
  rw [Representative, loaded_stage]
  generalize (key.getD index.val 0).toNat = upper at *
  generalize (iv.getD index.val 0).toNat = lower at *
  generalize (loadingConstants.get index).toNat = middle at *
  omega

inductive Call where
  | word
  | byte
deriving DecidableEq, Repr

def called (state : Zuc) : Call → Zuc
  | .word => (nextWord state).2
  | .byte => (next state).2

-- The register and the memory, which no byte that is left over tells about.
def withoutUnused (state : Zuc) : Zuc := { state with unused := [] }

theorem without_unused_same (state : Zuc) (fresh : state.unused = []) :
    withoutUnused state = state := by
  rw [withoutUnused, ← fresh]

-- A byte that was left over takes no clock.
theorem called_clocks (state : Zuc) (call : Call) :
    ∃ count, withoutUnused (called state call) =
      (List.replicate count Clock.work).foldl clocked (withoutUnused state) := by
  cases call with
  | word => exact ⟨1, rfl⟩
  | byte =>
      cases left : state.unused with
      | nil => exact ⟨1, by simp only [called, next, left]; rfl⟩
      | cons byte rest => exact ⟨0, by simp only [called, next, left]; rfl⟩

theorem calls_clocks (calls : List Call) (state : Zuc) :
    ∃ count, withoutUnused (calls.foldl called state) =
      (List.replicate count Clock.work).foldl clocked (withoutUnused state) := by
  induction calls generalizing state with
  | nil => exact ⟨0, rfl⟩
  | cons call calls ih =>
      obtain ⟨later, rest⟩ := ih (called state call)
      obtain ⟨now, first⟩ := called_clocks state call
      refine ⟨now + later, ?_⟩
      rw [List.foldl_cons, rest, first, ← List.replicate_append_replicate, List.foldl_append]

theorem warm_up_clocks (count : Nat) (state : Zuc) :
    Nat.repeat warmUp count state = (List.replicate count Clock.warmUp).foldl clocked state := by
  induction count with
  | zero => rfl
  | succ count ih =>
      rw [Nat.repeat, ih, List.replicate_succ', List.foldl_append]
      rfl

theorem of_key_clocks (key iv : Bytes) (keyed : key.length = 16) (set : iv.length = 16) :
    ofKey key iv =
      .ok ((List.replicate 32 Clock.warmUp ++ [Clock.work]).foldl clocked (loaded key iv)) := by
  rw [ofKey, if_neg (not_not_intro keyed), if_neg (not_not_intro set), warm_up_clocks,
    List.foldl_append]
  rfl

theorem clocked_unused (clocks : List Clock) (state : Zuc) :
    (clocks.foldl clocked state).unused = state.unused := by
  induction clocks generalizing state with
  | nil => rfl
  | cons clock clocks ih => exact (ih _).trans (by cases clock <;> rfl)

theorem of_key_calls (key iv : Bytes) (keyed : key.length = 16) (set : iv.length = 16) :
    ∃ generator, ofKey key iv = .ok generator ∧ ∀ calls : List Call, ∃ count,
      withoutUnused (calls.foldl called generator) =
        (List.replicate 32 Clock.warmUp ++ Clock.work :: List.replicate count Clock.work).foldl
          clocked (loaded key iv) := by
  refine ⟨_, of_key_clocks key iv keyed set, fun calls => ?_⟩
  obtain ⟨count, reached⟩ := calls_clocks calls
    ((List.replicate 32 Clock.warmUp ++ [Clock.work]).foldl clocked (loaded key iv))
  have fresh := clocked_unused (List.replicate 32 Clock.warmUp ++ [Clock.work]) (loaded key iv)
  refine ⟨count, ?_⟩
  rw [reached, without_unused_same _ fresh, ← List.foldl_append, ← List.append_cons]

theorem stages_stay_in_field (key iv : Bytes) (keyed : key.length = 16) (set : iv.length = 16) :
    (∀ clocks : List Clock, InField (clocks.foldl clocked (loaded key iv)).stages ∧
      ∀ clock, ExactClock (clocks.foldl clocked (loaded key iv)) clock) ∧
    ∃ generator, ofKey key iv = .ok generator ∧ ∀ calls : List Call,
      InField (calls.foldl called generator).stages ∧ ∃ count,
        withoutUnused (calls.foldl called generator) =
          (List.replicate 32 Clock.warmUp ++ Clock.work :: List.replicate count Clock.work).foldl
            clocked (loaded key iv) := by
  have field (clocks : List Clock) : InField (clocks.foldl clocked (loaded key iv)).stages :=
    clocks_field clocks _ (loaded_field key iv)
  obtain ⟨generator, accepted, reached⟩ := of_key_calls key iv keyed set
  refine ⟨fun clocks => ⟨field clocks, clock_exact _ (field clocks)⟩, generator, accepted,
    fun calls => ?_⟩
  obtain ⟨count, clocks⟩ := reached calls
  refine ⟨?_, count, clocks⟩
  change InField (withoutUnused (calls.foldl called generator)).stages
  rw [clocks]
  exact field _

theorem ones_stay_in_field :
    ∃ generator, ofKey (List.replicate 16 0xFF) (List.replicate 16 0xFF) = .ok generator ∧
      InField generator.stages ∧
      ∀ count clock, ExactClock ((List.replicate count Clock.work).foldl clocked
        (loaded (List.replicate 16 0xFF) (List.replicate 16 0xFF))) clock := by
  obtain ⟨exact, generator, accepted, reached⟩ :=
    stages_stay_in_field (List.replicate 16 0xFF) (List.replicate 16 0xFF) rfl rfl
  exact ⟨generator, accepted, (reached []).1, fun count => (exact _).2⟩

end SymmetricKey.Zuc
