import SymmetricKey.Proofs.TriviumStages

/-!
Clocks of Trivium taken back. The last stage of a register is lost at a clock, but it has
gone into the next register, added to stages that are still there. So no two states become
one, and states that have been clocked equally often tell the key and the vector that they
come from, up to zeros behind a short vector.
-/

namespace SymmetricKey.Trivium

/-- A register before it took a bit in, with the stage that it lost. -/
def unshifted {width : Nat} (lost : Bool) (register : BitVec (width + 1)) : BitVec (width + 1) :=
  BitVec.cons lost (register.extractLsb' 1 width)

theorem bit_entered {width : Nat} (register : BitVec (width + 1)) (entering : Bool) :
    (register.shiftConcat entering).getLsbD 0 = entering := by
  rw [BitVec.getLsbD_shiftConcat, decide_eq_true (Nat.succ_pos width), if_pos rfl, Bool.true_and]

theorem bit_moved {width : Nat} (register : BitVec width) (entering : Bool) (place : Nat)
    (inside : place + 1 < width) :
    (register.shiftConcat entering).getLsbD (place + 1) = register.getLsbD place := by
  rw [BitVec.getLsbD_shiftConcat, decide_eq_true inside, if_neg (Nat.succ_ne_zero place),
    Bool.true_and, Nat.add_sub_cancel]

theorem unshifted_shifted {width : Nat} (register : BitVec (width + 1)) (entering : Bool) :
    unshifted (register.getLsbD width) (register.shiftConcat entering) = register := by
  apply BitVec.eq_of_getLsbD_eq
  intro place inside
  rw [unshifted, BitVec.getLsbD_cons]
  by_cases last : place = width
  · rw [if_pos last, last]
  · have kept : place < width := by omega
    have next : 1 + place = place + 1 := Nat.add_comm 1 place
    rw [if_neg last, BitVec.getLsbD_extractLsb', decide_eq_true kept, Bool.true_and, next,
      bit_moved register entering place (by omega)]

/-- Each register gives the stage that it lost by what the next one took in. -/
def unclock (state : Trivium) : Trivium :=
  let lostA := state.b.getLsbD 0 ^^ state.a.getLsbD 66 ^^
    (state.a.getLsbD 91 && state.a.getLsbD 92) ^^ state.b.getLsbD 78
  let lostB := state.c.getLsbD 0 ^^ state.b.getLsbD 69 ^^
    (state.b.getLsbD 82 && state.b.getLsbD 83) ^^ state.c.getLsbD 87
  let lostC := state.a.getLsbD 0 ^^ state.c.getLsbD 66 ^^
    (state.c.getLsbD 109 && state.c.getLsbD 110) ^^ state.a.getLsbD 69
  { a := unshifted lostA state.a
    b := unshifted lostB state.b
    c := unshifted lostC state.c }

theorem summands_cancel (tap lost both other : Bool) :
    ((tap ^^ lost ^^ both ^^ other) ^^ tap ^^ both ^^ other) = lost := by
  -- Added once more, the three other summands leave the lost stage.
  cases tap <;> cases lost <;> cases both <;> cases other <;> rfl

theorem unclock_clock (state : Trivium) : unclock (clock state).2 = state := by
  have a := bit_moved state.a
  have b := bit_moved state.b
  have c := bit_moved state.c
  simp only [unclock, clock, bit_entered, a _ 65, a _ 68, a _ 90, a _ 91, b _ 68, b _ 77, b _ 81,
    b _ 82, c _ 65, c _ 86, c _ 108, c _ 109, Nat.reduceLT, Nat.reduceAdd, summands_cancel,
    unshifted_shifted]

theorem clock_injective : Function.Injective fun state : Trivium => (clock state).2 :=
  Function.LeftInverse.injective unclock_clock

theorem clocks_eq_iff (count : Nat) (left right : Trivium) :
    (fun state => (clock state).2)^[count] left = (fun state => (clock state).2)^[count] right ↔
      left = right :=
  (clock_injective.iterate count).eq_iff

def padded (bytes : Bytes) : Bytes := bytes ++ Bytes.zeros (10 - bytes.length)

theorem padded_length (bytes : Bytes) (fits : bytes.length ≤ 10) : (padded bytes).length = 10 := by
  rw [padded, List.length_append, Bytes.zeros_length]
  omega

theorem padded_whole (bytes : Bytes) (whole : bytes.length = 10) : padded bytes = bytes := by
  rw [padded, whole]
  exact List.append_nil bytes

theorem bytes_of_bits (left right : Bytes) (aligned : left.length = right.length)
    (same : ∀ index < 8 * left.length, Stages.bitOf left index = Stages.bitOf right index) :
    left = right := by
  -- The bits of a byte are all that there is of it.
  apply List.ext_getElem aligned
  intro position inLeft inRight
  apply UInt8.toNat_inj.mp
  apply Nat.eq_of_testBit_eq
  intro place
  by_cases inside : place < 8
  · have row : (8 * position + place) / 8 = position := by omega
    have column : (8 * position + place) % 8 = place := by omega
    have bit := same (8 * position + place) (by omega)
    rw [Stages.bitOf, Stages.bitOf, row, column, List.getD_eq_getElem _ _ inLeft,
      List.getD_eq_getElem _ _ inRight] at bit
    exact bit
  · have above (byte : UInt8) : byte.toNat.testBit place = false :=
      Nat.testBit_lt_two_pow (byte.toNat_lt.trans_le (Nat.pow_le_pow_right (by decide) (by omega)))
    rw [above, above]

theorem load_eq_iff (width : Nat) (wide : 80 ≤ width) (left right : Bytes)
    (fitsLeft : left.length ≤ 10) (fitsRight : right.length ≤ 10) :
    load width left = load width right ↔ padded left = padded right := by
  constructor
  · intro same
    have lengths := (padded_length left fitsLeft).trans (padded_length right fitsRight).symm
    apply bytes_of_bits _ _ lengths
    intro index inside
    rw [padded_length left fitsLeft] at inside
    have place : 79 - (79 - index) = index := by omega
    have bit := congrArg (fun register => register.getLsbD (79 - index)) same
    simp only [Registers.load_bit width left fitsLeft wide,
      Registers.load_bit width right fitsRight wide, place,
      decide_eq_true (by omega : 79 - index < 80), Bool.true_and] at bit
    rw [padded, padded, Registers.bit_of_padded, Registers.bit_of_padded, bit]
  · intro same
    change ((padded left).flatMap bitsOfByte).foldl _ _ =
        ((padded right).flatMap bitsOfByte).foldl _ _
    rw [same]

theorem loaded_eq_iff (key other iv another : Bytes) (keyed : key.length = 10)
    (otherKeyed : other.length = 10) (set : iv.length ≤ 10) (otherSet : another.length ≤ 10) :
    loaded key iv = loaded other another ↔ key = other ∧ padded iv = padded another := by
  rw [loaded, loaded, mk.injEq, eq_self, and_true,
    load_eq_iff 93 (by decide) key other keyed.le otherKeyed.le, padded_whole key keyed,
    padded_whole other otherKeyed, load_eq_iff 84 (by decide) iv another set otherSet]

theorem made_eq_iff (key other iv another : Bytes) (keyed : key.length = 10)
    (otherKeyed : other.length = 10) (set : iv.length ≤ 10) (otherSet : another.length ≤ 10) :
    ∃ generator twin, ofKey key iv = .ok generator ∧ ofKey other another = .ok twin ∧
      (generator = twin ↔ key = other ∧ padded iv = padded another) := by
  refine ⟨_, _, Registers.of_key_made key iv keyed set,
    Registers.of_key_made other another otherKeyed otherSet, ?_⟩
  rw [clocks_eq_iff, loaded_eq_iff key other iv another keyed otherKeyed set otherSet]

namespace Registers

theorem widened_eq_iff (left right : Trivium) : widened left = widened right ↔ left = right :=
  (Function.LeftInverse.injective narrowed_widened).eq_iff

theorem clock_eq_iff (left right : Registers) (within : left.Within) (otherWithin : right.Within) :
    (clock left).2 = (clock right).2 ↔ left = right := by
  rw [← widened_narrowed left within, ← widened_narrowed right otherWithin, clock_widened,
    clock_widened, widened_eq_iff, widened_eq_iff]
  exact clock_injective.eq_iff

theorem run_eq_iff (calls others : List Call)
    (clocks : (calls.map Call.clocks).sum = (others.map Call.clocks).sum) (left right : Trivium) :
    (run calls (widened left)).2 = (run others (widened right)).2 ↔ left = right := by
  obtain ⟨answers, ran, -⟩ := run_widened calls left
  obtain ⟨otherAnswers, otherRan, -⟩ := run_widened others right
  rw [ran, otherRan, widened_eq_iff, clocks]
  exact clocks_eq_iff _ left right

end Registers

theorem states_tell_inputs :
    (Function.Injective fun state : Trivium => (clock state).2) ∧
    (∀ left right : Registers, left.Within → right.Within →
      (Registers.clock left).2 = (Registers.clock right).2 → left = right) ∧
    ∀ key other iv another : Bytes, key.length = 10 → other.length = 10 →
      iv.length ≤ 10 → another.length ≤ 10 →
      ∃ generator twin : Registers,
        Registers.ofKey key iv = .ok generator ∧ Registers.ofKey other another = .ok twin ∧
        ofKey key iv = .ok generator.narrowed ∧ ofKey other another = .ok twin.narrowed ∧
        (generator = twin ↔ key = other ∧ padded iv = padded another) ∧
        (∀ count : Nat,
          (fun state => (Registers.clock state).2)^[count] generator =
              (fun state => (Registers.clock state).2)^[count] twin ↔
            key = other ∧ padded iv = padded another) ∧
        ∀ calls others : List Registers.Call,
          (calls.map Registers.Call.clocks).sum = (others.map Registers.Call.clocks).sum →
          ((Registers.run calls generator).2 = (Registers.run others twin).2 ↔
            key = other ∧ padded iv = padded another) := by
  refine ⟨clock_injective, fun left right within otherWithin =>
    (Registers.clock_eq_iff left right within otherWithin).mp, ?_⟩
  intro key other iv another keyed otherKeyed set otherSet
  obtain ⟨generator, twin, made, otherMade, same⟩ :=
    made_eq_iff key other iv another keyed otherKeyed set otherSet
  refine ⟨Registers.widened generator, Registers.widened twin, ?_, ?_, ?_, ?_, ?_, fun count => ?_,
    fun calls others clocks => ?_⟩
  · rw [Registers.of_key_widened, made]
    rfl
  · rw [Registers.of_key_widened, otherMade]
    rfl
  · rw [made, Registers.narrowed_widened]
  · rw [otherMade, Registers.narrowed_widened]
  · rw [Registers.widened_eq_iff, same]
  · rw [Registers.clocks_widened, Registers.clocks_widened, Registers.widened_eq_iff, clocks_eq_iff,
      same]
  · rw [Registers.run_eq_iff calls others clocks, same]

/-- A zero behind the vector makes no difference, and a zero in front of it does. -/
theorem zero_behind_and_zero_in_front :
    (Registers.clock ⟨Registers.mask 93, 0, 5⟩).2 ≠ (Registers.clock ⟨0, Registers.mask 84, 5⟩).2 ∧
    ∃ generator twin stranger : Registers,
      Registers.ofKey (List.replicate 10 3) [5] = .ok generator ∧
      Registers.ofKey (List.replicate 10 3) [5, 0] = .ok twin ∧
      Registers.ofKey (List.replicate 10 3) [0, 5] = .ok stranger ∧
      (Registers.run [.byte, .bit] generator).2 = (Registers.run [.bit, .byte] twin).2 ∧
      (Registers.run [.byte, .bit] generator).2 ≠ (Registers.run [.bit, .byte] stranger).2 := by
  obtain ⟨-, clocked, keyed⟩ := states_tell_inputs
  obtain ⟨generator, twin, accepted, twinAccepted, -, -, -, -, calls⟩ :=
    keyed (List.replicate 10 3) (List.replicate 10 3) [5] [5, 0] rfl rfl (by decide) (by decide)
  obtain ⟨again, stranger, acceptedAgain, strangerAccepted, -, -, -, -, strangerCalls⟩ :=
    keyed (List.replicate 10 3) (List.replicate 10 3) [5] [0, 5] rfl rfl (by decide) (by decide)
  obtain rfl : again = generator := Except.ok.inj (acceptedAgain.symm.trans accepted)
  refine ⟨fun merged => ?_, again, twin, stranger, accepted, twinAccepted, strangerAccepted, ?_, ?_⟩
  · have left : (Registers.mk (Registers.mask 93) 0 5).Within := ⟨by decide, by decide, by decide⟩
    have right : (Registers.mk 0 (Registers.mask 84) 5).Within := ⟨by decide, by decide, by decide⟩
    exact absurd (clocked _ _ left right merged) (by decide)
  · exact (calls _ _ rfl).mpr ⟨rfl, by decide⟩
  · intro merged
    exact absurd ((strangerCalls _ _ rfl).mp merged).2 (by decide)

end SymmetricKey.Trivium
