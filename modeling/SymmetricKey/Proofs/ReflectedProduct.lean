import SymmetricKey.Field.Reflected
import Mathlib.Logic.Function.Iterate
import Mathlib.Tactic.Ring

/-!
The product by tables is the bit-serial product. Doubling is linear, so several
doublings in a row act on the bits that stay and on the bits that are shifted
out apart from each other, and a table of the multiples by as many bits adds
what so many single steps would have added.
-/

namespace SymmetricKey.Field.Reflected

theorem double_zero : double 0 = 0 := by decide

theorem select_xor (first second : Bool) (value : BitVec 128) :
    (if first ^^ second then value else 0) = (if first then value else 0) ^^^
    (if second then value else 0) := by
  cases first <;> cases second <;> simp

theorem double_xor (left right : BitVec 128) :
    double (left ^^^ right) = double left ^^^ double right := by
  simp only [double, BitVec.ushiftRight_xor_distrib, BitVec.getLsbD_xor, select_xor]
  ac_rfl

theorem double_select (chosen : Bool) (value : BitVec 128) :
    double (if chosen then value else 0) = if chosen then double value else 0 := by
  cases chosen
  · exact double_zero
  · rfl

theorem double_even (value : BitVec 128) (even : value.getLsbD 0 = false) :
    double value = value >>> 1 := by
  rw [double, even]
  exact BitVec.xor_zero

def sum (terms : List (BitVec 128)) : BitVec 128 := terms.foldr (· ^^^ ·) 0

theorem double_sum (terms : List (BitVec 128)) : double (sum terms) = sum (terms.map double) := by
  induction terms with
  | nil => exact double_zero
  | cons term rest ih =>
      simp only [sum, List.foldr_cons, List.map_cons] at ih ⊢
      rw [double_xor, ih]

/-- Over all powers of `x` in the left factor, the right factor multiplied by `x` as often. -/
def serialProduct (left right : BitVec 128) : BitVec 128 :=
  sum ((List.range 128).map fun power => if left.getMsbD power then double^[power] right else 0)

/-- The same from the highest power down, over the lowest `count` bits of the left factor. -/
def horner : Nat → BitVec 128 → BitVec 128 → BitVec 128
  | 0, _, _ => 0
  | count + 1, left, right =>
      double (horner count left right) ^^^ if left.getLsbD count then right else 0

theorem horner_sum (count : Nat) (left right : BitVec 128) :
    horner count left right = sum ((List.range count).map fun power =>
      if left.getLsbD (count - 1 - power) then double^[power] right else 0) := by
  induction count with
  | zero => rfl
  | succ count ih =>
      have further : ∀ power, double (if left.getLsbD (count - 1 - power) then
          double^[power] right else 0) =
          if left.getLsbD (count + 1 - 1 - (power + 1)) then double^[power + 1] right else 0 := by
        intro power
        have same : count + 1 - 1 - (power + 1) = count - 1 - power := by omega
        rw [double_select, same, Function.iterate_succ_apply']
      rw [horner, ih, double_sum, List.range_succ_eq_map, List.map_cons, List.map_map, List.map_map]
      simp only [Function.comp_def, further, sum, List.foldr_cons]
      rw [BitVec.xor_comm]
      rfl

theorem serial_product_horner (left right : BitVec 128) :
    serialProduct left right = horner 128 left right := by
  rw [horner_sum, serialProduct]
  apply congrArg sum
  apply List.map_congr_left
  intro power inside
  rw [List.mem_range] at inside
  rw [BitVec.getMsbD_eq_getLsbD, decide_eq_true inside, Bool.true_and]

theorem iterate_double_xor (count : Nat) (left right : BitVec 128) :
    double^[count] (left ^^^ right) = double^[count] left ^^^ double^[count] right := by
  induction count generalizing left right with
  | zero => rfl
  | succ count ih =>
      rw [Function.iterate_succ_apply, double_xor, ih, Function.iterate_succ_apply,
        Function.iterate_succ_apply]

theorem iterate_double_zero (count : Nat) : double^[count] 0 = 0 := by
  induction count with
  | zero => rfl
  | succ count ih => rw [Function.iterate_succ_apply, double_zero, ih]

theorem iterate_double_even (count : Nat) (value : BitVec 128)
    (even : ∀ index, index < count → value.getLsbD index = false) :
    double^[count] value = value >>> count := by
  induction count generalizing value with
  | zero => simp
  | succ count ih =>
      have rest : ∀ index, index < count → (value >>> 1).getLsbD index = false := by
        intro index inside
        rw [BitVec.getLsbD_ushiftRight]
        exact even (1 + index) (by omega)
      rw [Function.iterate_succ_apply, double_even value (even 0 (by omega)), ih _ rest,
        ← BitVec.shiftRight_add, Nat.add_comm]

theorem low_bits (value : BitVec 128) (width index : Nat) :
    (BitVec.ofNat 128 (value.toNat % 2 ^ width)).getLsbD index =
      (decide (index < 128) && (decide (index < width) && value.getLsbD index)) := by
  rw [BitVec.getLsbD_ofNat, Nat.testBit_mod_two_pow]
  rfl

theorem low_split (value : BitVec 128) (width : Nat) :
    value = ((value >>> width) <<< width) ^^^ BitVec.ofNat 128 (value.toNat % 2 ^ width) := by
  apply BitVec.eq_of_getLsbD_eq
  intro index inside
  rw [BitVec.getLsbD_xor, low_bits, BitVec.getLsbD_shiftLeft, BitVec.getLsbD_ushiftRight]
  by_cases low : index < width
  · simp [low, inside]
  · have back : width + (index - width) = index := by omega
    simp [low, inside, back]

theorem shifted_out (value : BitVec 128) (width : Nat) :
    (value >>> width) ^^^ double^[width] (BitVec.ofNat 128 (value.toNat % 2 ^ width)) =
      double^[width] value := by
  -- Doubling is linear, so the bits that stay and those that are shifted out go their own
  -- ways.
  have kept : double^[width] ((value >>> width) <<< width) = value >>> width := by
    rw [iterate_double_even width _ (by intro index inside; simp [BitVec.getLsbD_shiftLeft,
      inside])]
    apply BitVec.eq_of_getLsbD_eq
    intro index inside
    simp only [BitVec.getLsbD_ushiftRight, BitVec.getLsbD_shiftLeft]
    by_cases above : width + index < 128
    · simp [above]
    · simp [above, BitVec.getLsbD_of_ge value (width + index) (by omega)]
  conv => rhs; rw [low_split value width, iterate_double_xor, kept]

theorem horner_further (count width : Nat) (left right : BitVec 128) :
    horner (count + width) left right =
      double^[width] (horner count left right) ^^^ horner width (left >>> count) right := by
  -- The highest bits of a factor count as if they stood alone, once all others are multiplied
  -- on.
  induction width with
  | zero => exact BitVec.xor_zero.symm
  | succ width ih =>
      rw [← Nat.add_assoc, horner, ih, double_xor, ← Function.iterate_succ_apply' double, horner,
        BitVec.getLsbD_ushiftRight, BitVec.xor_assoc]

theorem horner_low (width : Nat) (left right : BitVec 128) :
    horner width (BitVec.ofNat 128 (left.toNat % 2 ^ width)) right = horner width left right := by
  have bits (count : Nat) (inside : count ≤ width) :
      horner count (BitVec.ofNat 128 (left.toNat % 2 ^ width)) right = horner count left right := by
    induction count with
    | zero => rfl
    | succ count ih =>
        have same : (BitVec.ofNat 128 (left.toNat % 2 ^ width)).getLsbD count =
            left.getLsbD count := by
          rw [low_bits, decide_eq_true (show count < width from inside), Bool.true_and]
          by_cases above : count < 128
          · simp [above]
          · simp [BitVec.getLsbD_of_ge left count (by omega)]
        rw [horner, horner, ih (by omega), same]
  exact bits width (Nat.le_refl width)

theorem gathered_exact (width : Nat) (further : Nat → BitVec 128 → BitVec 128)
    (taken : Nat → BitVec 128) (left right : BitVec 128) (first : further 0 0 = 0)
    (later : ∀ position sum, further (position + 1) sum = double^[width] sum)
    (entries : ∀ position, taken position = horner width (left >>> (width * position)) right)
    (count : Nat) :
    (List.range count).foldl (fun sum position => further position sum ^^^ taken position) 0 =
      horner (width * count) left right := by
  -- A loop that takes `width` bits of one factor at a time, from the highest powers down.
  -- Nothing is there yet to be multiplied on when the first bits are taken.
  induction count with
  | zero => rfl
  | succ count ih =>
      rw [List.range_succ, List.foldl_append, ih, List.foldl_cons, List.foldl_nil, Nat.mul_succ,
        horner_further, entries]
      cases count with
      | zero =>
          rw [Nat.mul_zero, horner, first, iterate_double_zero]
      | succ count => rw [later]

theorem quadruple_exact (value : BitVec 128) : quadruple value = double^[4] value := by
  have low : (nibbleAt value 0).val = value.toNat % 2 ^ 4 := by simp [nibbleAt]
  have out :
      folded.get (nibbleAt value 0) = double^[4] (BitVec.ofNat 128 (value.toNat % 2 ^ 4)) := by
    rw [← low]
    exact Vector.getElem_ofFn _
  rw [quadruple, out, shifted_out]

theorem multiples_entry (factor : BitVec 128) (nibble : Fin 16) :
    (multiples factor).get nibble = horner 4 (BitVec.ofNat 128 nibble.val) factor := by
  have bit (index : Nat) (inside : index < 4) :
      (BitVec.ofNat 128 nibble.val).getLsbD index = nibble.val.testBit index := by
    rw [BitVec.getLsbD_ofNat, decide_eq_true (by omega), Bool.true_and]
  have nothing (value : BitVec 128) : 0 ^^^ value = value := BitVec.zero_xor
  refine (Vector.getElem_ofFn _).trans ?_
  simp only [horner, double_xor, double_select, double_zero, bit 0 (by omega), bit 1 (by omega),
    bit 2 (by omega), bit 3 (by omega), nothing]
  ac_rfl

theorem mul_exact (factor value : BitVec 128) :
    mul (multiples factor) value = serialProduct value factor := by
  have taken (position : Nat) : (multiples factor).get (nibbleAt value position) =
      horner 4 (value >>> (4 * position)) factor := by
    have low : (nibbleAt value position).val = (value >>> (4 * position)).toNat % 2 ^ 4 := by
      simp [nibbleAt]
    rw [multiples_entry, low, horner_low]
  have first : quadruple 0 = 0 := by rw [quadruple_exact, iterate_double_zero]
  rw [serial_product_horner, mul]
  exact gathered_exact 4 (fun _ => quadruple) _ value factor first (fun _ => quadruple_exact)
    taken 32

end SymmetricKey.Field.Reflected
