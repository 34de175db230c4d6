import SymmetricKey.Authentication.Ghash
import SymmetricKey.Proofs.QuotientField
import Mathlib.Logic.Function.Basic

/-!
Tables of multiples as they are filled in, for any number of bits that are looked
up at a time. The powers of `x` are entered first, from the highest index down;
every other entry is the sum of two that stand there already. What is multiplied
through such a table is the product in the field.
-/

namespace SymmetricKey.Field.Reflected

open Function (update)

/-- What stands at each index of a table. -/
abbrev Entries := Nat → BitVec 128

/-- The entries of the powers of `x`. At half the index stands one power more. -/
def fillPowers : Nat → BitVec 128 → Entries → Entries
  | 0, _, entries => entries
  | count + 1, value, entries => fillPowers count (double value) (update entries (2 ^ count) value)

-- The entries behind `top`, in front of twice `top`.
def fillSums (top : Nat) (entries : Entries) : Entries :=
  (List.range' 1 (top - 1)).foldl
    (fun entries low => update entries (top + low) (entries top ^^^ entries low)) entries

def filled (width : Nat) (factor : BitVec 128) : Entries :=
  (List.range' 1 (width - 1)).foldl (fun entries exponent => fillSums (2 ^ exponent) entries)
    (fillPowers width factor fun _ => 0)

-- What the lowest bits come back as when they are shifted out.
def reduced (width : Nat) : Entries := fun low => double^[width] (BitVec.ofNat 128 low)

def lowBits (width : Nat) (value : BitVec 128) : Nat := value.toNat % 2 ^ width

/-- The product with the factor that the table belongs to, `width` bits at a time. -/
def multiplied (width : Nat) (reduction table : Entries) (value : BitVec 128) : BitVec 128 :=
  (List.range (128 / width)).foldl
    (fun sum position =>
      (if position = 0 then sum else (sum >>> width) ^^^ reduction (lowBits width sum)) ^^^
        table (lowBits width (value >>> (width * position)))) 0

theorem fill_powers_other (count : Nat) (value : BitVec 128) (entries : Entries) (index : Nat)
    (other : ∀ exponent, exponent < count → index ≠ 2 ^ exponent) :
    fillPowers count value entries index = entries index := by
  induction count generalizing value entries with
  | zero => rfl
  | succ count ih =>
      have rest : ∀ exponent, exponent < count → index ≠ 2 ^ exponent :=
        fun exponent inside => other exponent (by omega)
      rw [fillPowers, ih _ _ rest, Function.update_of_ne (other count (by omega))]

theorem fill_powers_at (exponent more : Nat) (value : BitVec 128) (entries : Entries) :
    fillPowers (exponent + 1 + more) value entries (2 ^ exponent) = double^[more] value := by
  induction more generalizing value entries with
  | zero =>
      have apart : ∀ lower, lower < exponent → 2 ^ exponent ≠ 2 ^ lower := by
        intro lower below same
        have equal := Nat.pow_right_injective (le_refl 2) same
        omega
      rw [Nat.add_zero, fillPowers, fill_powers_other _ _ _ _ apart, Function.update_self]
      rfl
  | succ more ih => rw [← Nat.add_assoc, fillPowers, ih, Function.iterate_succ_apply]

theorem sums_up_to (top : Nat) (entries : Entries) (count : Nat) (inside : count < top)
    (index : Nat) :
    (List.range' 1 count).foldl
        (fun entries low => update entries (top + low) (entries top ^^^ entries low))
          entries index =
      if top < index ∧ index ≤ top + count then entries top ^^^ entries (index - top)
      else entries index := by
  -- Only entries in front of those that are written are read.
  induction count generalizing index with
  | zero =>
      have nothing : ¬(top < index ∧ index ≤ top + 0) := by omega
      rw [if_neg nothing]
      rfl
  | succ count ih =>
      -- What is added up next is still as it was: the top, and an entry below it.
      have first : ¬(top < top ∧ top ≤ top + count) := by omega
      have second : ¬(top < 1 + count ∧ 1 + count ≤ top + count) := by omega
      rw [List.range'_1_concat, List.foldl_append, List.foldl_cons, List.foldl_nil,
        ih (by omega) top, if_neg first, ih (by omega) (1 + count), if_neg second,
        Function.update_apply, ih (by omega) index]
      by_cases here : index = top + (1 + count)
      · have reach : top < index ∧ index ≤ top + (count + 1) := by omega
        have low : index - top = 1 + count := by omega
        rw [if_pos here, if_pos reach, low]
      · have same : (top < index ∧ index ≤ top + (count + 1)) ↔
            (top < index ∧ index ≤ top + count) := by omega
        rw [if_neg here]
        simp only [same]

theorem fill_sums_exact (top : Nat) (entries : Entries) (index : Nat) :
    fillSums top entries index =
      if top < index ∧ index < 2 * top then entries top ^^^ entries (index - top)
      else entries index := by
  cases top with
  | zero =>
      have nothing : ¬(0 < index ∧ index < 2 * 0) := by omega
      rw [if_neg nothing]
      rfl
  | succ below =>
      have reach : (below + 1 < index ∧ index ≤ below + 1 + below) ↔
          (below + 1 < index ∧ index < 2 * (below + 1)) := by omega
      rw [fillSums, Nat.add_sub_cancel, sums_up_to (below + 1) entries below (by omega)]
      simp only [reach]

/-- The multiple that belongs to an index: its highest bit stands for `x^0`. -/
def multiple (width : Nat) (factor : BitVec 128) (index : Nat) : BitVec 128 :=
  horner width (BitVec.ofNat 128 index) factor

section Multiples
variable (factor : BitVec 128)

theorem horner_nothing (count : Nat) (left : BitVec 128)
    (none : ∀ index, index < count → left.getLsbD index = false) :
    horner count left factor = 0 := by
  induction count with
  | zero => rfl
  | succ count ih =>
      have rest : ∀ index, index < count → left.getLsbD index = false :=
        fun index inside => none index (by omega)
      rw [horner, ih rest, none count (by omega), double_zero]
      exact BitVec.xor_zero

theorem horner_xor (count : Nat) (left other : BitVec 128) :
    horner count (left ^^^ other) factor = horner count left factor ^^^
      horner count other factor := by
  induction count with
  | zero => exact BitVec.xor_zero.symm
  | succ count ih =>
      rw [horner, horner, horner, ih, double_xor, BitVec.getLsbD_xor, select_xor]
      ac_rfl

theorem multiple_zero (width : Nat) : multiple width factor 0 = 0 :=
  horner_nothing factor width _ fun index _ => by simp

theorem multiple_power (exponent more : Nat) (narrow : exponent + 1 + more ≤ 128) :
    multiple (exponent + 1 + more) factor (2 ^ exponent) = double^[more] factor := by
  have bit (index : Nat) (below : index < 128) :
      (BitVec.ofNat 128 (2 ^ exponent)).getLsbD index = decide (exponent = index) := by
    rw [BitVec.getLsbD_ofNat, decide_eq_true below, Bool.true_and, Nat.testBit_two_pow]
  rw [multiple]
  induction more with
  | zero =>
      have none : ∀ index, index < exponent →
          (BitVec.ofNat 128 (2 ^ exponent)).getLsbD index = false := by
        intro index below
        rw [bit index (by omega), decide_eq_false (by omega)]
      rw [Nat.add_zero, horner, horner_nothing factor exponent _ none, double_zero,
        bit _ (by omega)]
      simp
  | succ more ih =>
      rw [← Nat.add_assoc, horner, ih (by omega), bit _ (by omega), decide_eq_false (by omega),
        Function.iterate_succ_apply']
      exact BitVec.xor_zero

theorem index_split (exponent low : Nat) (below : low < 2 ^ exponent) :
    2 ^ exponent + low = 2 ^ exponent ^^^ low := by
  apply Nat.eq_of_testBit_eq
  intro place
  rw [Nat.testBit_xor, Nat.testBit_two_pow]
  rcases Nat.lt_trichotomy place exponent with lower | rfl | higher
  · rw [Nat.testBit_two_pow_add_gt lower, decide_eq_false (by omega), Bool.false_xor]
  · rw [Nat.testBit_two_pow_add_eq, decide_eq_true rfl, Bool.true_xor]
  · have room : 2 ^ (exponent + 1) ≤ 2 ^ place := Nat.pow_le_pow_right (by decide) higher
    rw [Nat.testBit_lt_two_pow (by omega), Nat.testBit_lt_two_pow (by omega),
      decide_eq_false (by omega), Bool.false_xor]

theorem multiple_sum (width exponent low : Nat) (below : low < 2 ^ exponent) :
    multiple width factor (2 ^ exponent + low) =
      multiple width factor (2 ^ exponent) ^^^ multiple width factor low := by
  rw [multiple, index_split exponent low below, BitVec.ofNat_xor, horner_xor, multiple, multiple]

end Multiples

/-- Filled up to an index, with the powers of `x` wherever they are. -/
structure FilledTo (width : Nat) (factor : BitVec 128) (size : Nat) (entries : Entries) : Prop where
  below : ∀ index, index < size → entries index = multiple width factor index
  powers : ∀ exponent, exponent < width → entries (2 ^ exponent) =
    multiple width factor (2 ^ exponent)

section Filling
variable (width : Nat) (factor : BitVec 128)

theorem powers_filled (narrow : width ≤ 128) :
    FilledTo width factor 1 (fillPowers width factor fun _ => 0) where
  below index inside := by
    have first : index = 0 := by omega
    have apart : ∀ exponent, exponent < width → 0 ≠ 2 ^ exponent :=
      fun exponent _ => (Nat.two_pow_pos exponent).ne
    rw [first, fill_powers_other _ _ _ _ apart, multiple_zero]
  powers exponent inside := by
    obtain ⟨more, rfl⟩ : ∃ more, width = exponent + 1 + more := ⟨width - (exponent + 1), by omega⟩
    rw [fill_powers_at, multiple_power factor exponent more narrow]

theorem sums_filled (exponent : Nat) (inside : exponent < width) (entries : Entries)
    (filled : FilledTo width factor (2 ^ exponent) entries) :
    FilledTo width factor (2 ^ (exponent + 1)) (fillSums (2 ^ exponent) entries) where
  below index reached := by
    -- The entry at the top is there before it is reached, and those below it are.
    rw [fill_sums_exact]
    split
    · next between =>
        have split : 2 ^ exponent + (index - 2 ^ exponent) = index := by omega
        have low : index - 2 ^ exponent < 2 ^ exponent := by omega
        rw [filled.powers exponent inside, filled.below _ low,
          ← multiple_sum factor width exponent _ low, split]
    · next outside =>
        rcases Nat.lt_or_ge index (2 ^ exponent) with before | behind
        · exact filled.below index before
        · have top : index = 2 ^ exponent := by
            rw [Nat.pow_succ] at reached
            omega
          rw [top]
          exact filled.powers exponent inside
  powers other within := by
    have outside : ¬(2 ^ exponent < 2 ^ other ∧ 2 ^ other < 2 * 2 ^ exponent) := by
      rintro ⟨above, short⟩
      rw [← Nat.pow_succ'] at short
      have least := (Nat.pow_lt_pow_iff_right Nat.one_lt_two).mp above
      have most := (Nat.pow_lt_pow_iff_right Nat.one_lt_two).mp short
      omega
    rw [fill_sums_exact, if_neg outside]
    exact filled.powers other within

-- Up to twice the first top all entries are powers.
theorem filled_exact (some : 0 < width) (narrow : width ≤ 128) (index : Nat)
    (inside : index < 2 ^ width) : filled width factor index = multiple width factor index := by
  have reached (count : Nat) (within : count < width) :
      FilledTo width factor (2 ^ (1 + count)) ((List.range' 1 count).foldl
        (fun entries exponent => fillSums (2 ^ exponent) entries)
        (fillPowers width factor fun _ => 0)) := by
    induction count with
    | zero => exact sums_filled width factor 0 some _ (powers_filled width factor narrow)
    | succ count ih =>
        rw [List.range'_1_concat, List.foldl_append]
        exact sums_filled width factor (1 + count) (by omega) _ (ih (by omega))
  have all : 1 + (width - 1) = width := by omega
  apply (reached (width - 1) (by omega)).below
  rwa [all]

end Filling

theorem multiplied_exact (width : Nat) (factor value : BitVec 128) (divides : width ∣ 128) :
    multiplied width (reduced width) (filled width factor) value = serialProduct value factor := by
  have some : 0 < width := Nat.pos_of_dvd_of_pos divides (by decide)
  have narrow : width ≤ 128 := Nat.le_of_dvd (by decide) divides
  have taken (position : Nat) : filled width factor (lowBits width (value >>> (width * position))) =
      horner width (value >>> (width * position)) factor := by
    rw [lowBits, filled_exact width factor some narrow _ (Nat.mod_lt _ (Nat.two_pow_pos width)),
      multiple, horner_low]
  have later (position : Nat) (sum : BitVec 128) :
      (if position + 1 = 0 then sum
        else (sum >>> width) ^^^ reduced width (lowBits width sum)) = double^[width] sum := by
    rw [if_neg (Nat.succ_ne_zero position), reduced, lowBits, shifted_out]
  have gathered := gathered_exact width
    (fun position sum =>
      if position = 0 then sum else (sum >>> width) ^^^ reduced width (lowBits width sum))
    _ value factor rfl later taken (128 / width)
  rw [Nat.mul_div_cancel' divides] at gathered
  rw [serial_product_horner]
  exact gathered

theorem tables_filled (factor : BitVec 128) (nibble : Fin 16) :
    (multiples factor).get nibble = filled 4 factor nibble.val ∧
      folded.get nibble = reduced 4 nibble.val := by
  constructor
  · rw [multiples_entry, filled_exact 4 factor (by decide) (by decide) nibble.val nibble.isLt]
    rfl
  · exact Vector.getElem_ofFn _

theorem sum_append (front back : List (BitVec 128)) :
    sum (front ++ back) = sum front ^^^ sum back := by
  induction front with
  | nil => exact BitVec.zero_xor.symm
  | cons term front ih =>
      simp only [sum, List.cons_append, List.foldr_cons] at ih ⊢
      rw [ih, BitVec.xor_assoc]

theorem horner_set_bits (count : Nat) (left right : BitVec 128) :
    horner count left right = sum (((List.range count).filter fun place => left.getLsbD place).map
      fun place => double^[count - 1 - place] right) := by
  -- Over the bits that are set: the higher a bit, the lower its power.
  induction count with
  | zero => rfl
  | succ count ih =>
      have further : ∀ place ∈ (List.range count).filter fun place => left.getLsbD place,
          double (double^[count - 1 - place] right) = double^[count + 1 - 1 - place] right := by
        intro place set
        have inside : place < count := List.mem_range.mp (List.mem_filter.mp set).1
        have later : count + 1 - 1 - place = (count - 1 - place) + 1 := by omega
        rw [later, Function.iterate_succ_apply']
      rw [horner, ih, double_sum, List.map_map, List.range_succ, List.filter_append,
        List.map_append, sum_append]
      apply congrArg₂
      · exact congrArg sum (List.map_congr_left further)
      · cases set : left.getLsbD count <;> simp [set, sum]

/-- The product with a hash key is the sum over the set bits of the other factor, which is the
product in the field, and tables that are filled in for any width give the same. -/
theorem products_by_tables (block : Bytes) (value : BitVec 128) :
    let factor := BigEndian.number128 block
    let product := sum (((List.range 128).filter fun place => value.getLsbD place).map
      fun place => double^[127 - place] factor)
    mul (GhashKey.ofBlock block) value = product ∧
      residue product = residue value * residue factor ∧
      (∀ nibble : Fin 16, (GhashKey.ofBlock block).get nibble = filled 4 factor nibble.val ∧
        folded.get nibble = reduced 4 nibble.val) ∧
      ∀ width, width ∣ 128 →
        multiplied width (reduced width) (filled width factor) value = product := by
  intro factor product
  have serial : serialProduct value factor = product := by
    rw [serial_product_horner, horner_set_bits]
  constructor
  · exact (mul_exact factor value).trans serial
  constructor
  · rw [← serial, residue_serial_product]
  constructor
  · exact tables_filled factor
  · intro width divides
    rw [multiplied_exact width factor value divides, serial]

/-- By tables of 256 entries, with the key of the published second test case of the mode. -/
theorem published_product_by_bytes :
    let key : Bytes := [0x66, 0xE9, 0x4B, 0xD4, 0xEF, 0x8A, 0x2C, 0x3B,
      0x88, 0x4C, 0xFA, 0x59, 0xCA, 0x34, 0x2B, 0x2E]
    8 ∣ 128 ∧ multiplied 8 (reduced 8) (filled 8 (BigEndian.number128 key))
      0x0388DACE60B6A392F328C2B971B2FE78 = 0x5E2EC746917062882C85B0685353DEB7 := by
  intro key
  have divides : 8 ∣ 128 := by decide
  constructor
  · exact divides
  · rw [(products_by_tables key _).2.2.2 8 divides]
    decide +kernel

end SymmetricKey.Field.Reflected
