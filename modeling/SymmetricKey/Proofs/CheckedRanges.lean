import SymmetricKey.Proofs.CheckedBuffers
import Mathlib.Data.List.Basic

/-!
Ranges of buffers that hold items of any kind, and buffers that are rows of items of one
width. The range that belongs to an item of the row is always inside, and holds just that.
-/

namespace SymmetricKey.Checked

section Ranges
variable {Item : Type}

def range (buffer : List Item) (first last : Nat) : Checked (List Item) :=
  if first ≤ last ∧ last ≤ buffer.length then .ok ((buffer.take last).drop first)
  else .error .outside

def overwrite (buffer : List Item) (first last : Nat) (source : List Item) :
    Checked (List Item) := do
  let there ← range buffer first last
  if source.length = there.length then .ok (buffer.take first ++ source ++ buffer.drop last)
  else .error .uneven

def itemAt (buffer : List Item) (index : Nat) : Checked Item :=
  match buffer[index]? with
  | some item => .ok item
  | none => .error .outside

theorem range_within (buffer : List Item) (first last : Nat) (ordered : first ≤ last)
    (inside : last ≤ buffer.length) :
    range buffer first last = .ok ((buffer.take last).drop first) :=
  if_pos ⟨ordered, inside⟩

theorem range_parted (front middle back : List Item) :
    range (front ++ middle ++ back) front.length (front.length + middle.length) = .ok middle := by
  have inside : front.length + middle.length ≤ (front ++ middle ++ back).length := by
    rw [List.length_append, List.length_append]
    omega
  rw [range_within _ _ _ (Nat.le_add_right _ _) inside, ← List.length_append, List.take_left' rfl,
    List.drop_left' rfl]

theorem overwrite_parted (front middle back source : List Item)
    (even : source.length = middle.length) :
    overwrite (front ++ middle ++ back) front.length (front.length + middle.length) source =
      .ok (front ++ source ++ back) := by
  rw [overwrite, range_parted, ok_bind, if_pos even, ← List.length_append, List.drop_left' rfl,
    List.append_assoc front, List.take_left' rfl]

theorem range_all (buffer : List Item) : range buffer 0 buffer.length = .ok buffer := by
  rw [range_within _ _ _ (Nat.zero_le _) (Nat.le_refl _), List.take_length]
  rfl

theorem overwrite_all (buffer source : List Item) (even : source.length = buffer.length) :
    overwrite buffer 0 buffer.length source = .ok source := by
  rw [overwrite, range_all, ok_bind, if_pos even, List.drop_length, List.append_nil]
  rfl

theorem item_within (buffer : List Item) (index : Nat) (item : Item)
    (found : buffer[index]? = some item) :
    itemAt buffer index = .ok item := by
  rw [itemAt, found]

end Ranges

-- The quotient of a division that stops at zero.
def quotient (left right : Nat) : Checked Nat :=
  if right = 0 then .error .divisor else .ok (left / right)

theorem quotient_within (left right : Nat) (positive : 0 < right) :
    quotient left right = .ok (left / right) := if_neg (by omega)

section Rows
variable {Item Cell : Type} (cells : Item → List Cell) (width : Nat)

theorem row_length (items : List Item) (even : ∀ item ∈ items, (cells item).length = width) :
    (items.flatMap cells).length = items.length * width := by
  induction items with
  | nil => exact (Nat.zero_mul width).symm
  | cons item items ih =>
      rw [List.flatMap_cons, List.length_append, even item List.mem_cons_self,
        ih fun other member => even other (List.mem_cons_of_mem _ member), List.length_cons,
        Nat.succ_mul, Nat.add_comm]

variable (items : List Item) (even : ∀ item ∈ items, (cells item).length = width) (index : Nat)
  (inside : index < items.length)
include even inside

theorem row_parted :
    items.flatMap cells = (items.take index).flatMap cells ++ cells items[index] ++
        (items.drop (index + 1)).flatMap cells ∧
      ((items.take index).flatMap cells).length = index * width ∧
      (cells items[index]).length = width := by
  refine ⟨?_, ?_, even _ (List.getElem_mem inside)⟩
  · rw [List.append_assoc, ← List.flatMap_cons, ← List.drop_eq_getElem_cons inside,
      ← List.flatMap_append, List.take_append_drop]
  · rw [row_length cells width _ fun item member => even item (List.mem_of_mem_take member),
      List.length_take_of_le (Nat.le_of_lt inside)]

theorem row_range :
    range (items.flatMap cells) (index * width) ((index + 1) * width) =
      .ok (cells items[index]) := by
  obtain ⟨parted, front, here⟩ := row_parted cells width items even index inside
  have reach : (index + 1) * width =
      ((items.take index).flatMap cells).length + (cells items[index]).length := by
    rw [front, here, Nat.succ_mul]
  rw [reach, parted, ← front, range_parted]

theorem row_overwrite (item : Item) (alike : (cells item).length = width) :
    overwrite (items.flatMap cells) (index * width) ((index + 1) * width) (cells item) =
      .ok ((items.set index item).flatMap cells) := by
  obtain ⟨parted, front, here⟩ := row_parted cells width items even index inside
  have reach : (index + 1) * width =
      ((items.take index).flatMap cells).length + (cells items[index]).length := by
    rw [front, here, Nat.succ_mul]
  rw [reach, parted, ← front, overwrite_parted _ _ _ _ (alike.trans here.symm),
    List.set_eq_take_append_cons_drop, if_pos inside, List.flatMap_append, List.flatMap_cons,
    List.append_assoc]

end Rows

theorem row_exists {Item Cell : Type} (cells : Item → List Cell) (width : Nat) (Fits : Item → Prop)
    (each : ∀ string : List Cell, string.length = width → ∃ item, Fits item ∧ cells item = string)
    (count : Nat) (string : List Cell) (whole : string.length = count * width) :
    ∃ items : List Item, items.length = count ∧ (∀ item ∈ items, Fits item) ∧
      items.flatMap cells = string := by
  induction count generalizing string with
  | zero =>
      have nothing : string = [] := List.length_eq_zero_iff.mp (by omega)
      exact ⟨[], rfl, by simp, nothing.symm⟩
  | succ count ih =>
      rw [Nat.succ_mul] at whole
      obtain ⟨first, fits, begun⟩ := each (string.take width) (by rw [List.length_take]; omega)
      obtain ⟨rest, counted, others, ended⟩ :=
        ih (string.drop width) (by rw [List.length_drop]; omega)
      refine ⟨first :: rest, by rw [List.length_cons, counted],
        List.forall_mem_cons.mpr ⟨fits, others⟩, ?_⟩
      rw [List.flatMap_cons, begun, ended, List.take_append_drop]

end SymmetricKey.Checked
