import SymmetricKey.Proofs.ByteStrings
import Mathlib.Algebra.Group.Nat.Defs

/-!
Buffers as a machine has them. A range that leaves its buffer, a copy between
ranges of different lengths and a number that does not fit a machine word stop
the program. Each operation says what it stops on, and a lemma beside it says
what it gives when there is nothing to stop on.
-/

namespace SymmetricKey

/-- What stops a program. -/
inductive Fault where
  | outside
  | uneven
  | overflow
  | divisor
  -- A loop that does not come nearer to its end.
  | standstill
deriving DecidableEq, Repr

abbrev Checked (Result : Type) := Except Fault Result

namespace Checked

theorem ok_bind {Value Result : Type} (value : Value) (next : Value → Checked Result) :
    ((Except.ok value : Checked Value) >>= next) = next value := rfl

def add (left right : Nat) : Checked Nat :=
  if left + right < 2 ^ 64 then .ok (left + right) else .error .overflow

def subtract (left right : Nat) : Checked Nat :=
  if right ≤ left then .ok (left - right) else .error .overflow

def multiply (left right : Nat) : Checked Nat :=
  if left * right < 2 ^ 64 then .ok (left * right) else .error .overflow

def remainder (left right : Nat) : Checked Nat :=
  if right = 0 then .error .divisor else .ok (left % right)

theorem add_within (left right : Nat) (fits : left + right < 2 ^ 64) :
    add left right = .ok (left + right) := if_pos fits

theorem subtract_within (left right : Nat) (fits : right ≤ left) :
    subtract left right = .ok (left - right) := if_pos fits

theorem multiply_within (left right : Nat) (fits : left * right < 2 ^ 64) :
    multiply left right = .ok (left * right) := if_pos fits

theorem remainder_within (left right : Nat) (positive : 0 < right) :
    remainder left right = .ok (left % right) := if_neg (by omega)

def slice (buffer : Bytes) (first last : Nat) : Checked Bytes :=
  if first ≤ last ∧ last ≤ buffer.length then .ok ((buffer.take last).drop first)
  else .error .outside

def spliced (buffer : Bytes) (first last : Nat) (middle : Bytes) : Bytes :=
  buffer.take first ++ middle ++ buffer.drop last

def edit (buffer : Bytes) (first last : Nat) (change : Bytes → Bytes) : Checked Bytes := do
  let range ← slice buffer first last
  .ok (spliced buffer first last (change range))

def copyInto (buffer : Bytes) (first last : Nat) (source : Bytes) : Checked Bytes := do
  let range ← slice buffer first last
  if source.length = range.length then .ok (spliced buffer first last source) else .error .uneven

/-- Moves everything behind `size` bytes to the start. The last bytes stay where they are, too. -/
def moveToStart (buffer : Bytes) (size : Nat) : Checked Bytes :=
  if size ≤ buffer.length then .ok (buffer.drop size ++ buffer.drop (buffer.length - size))
  else .error .outside

def byteAt (buffer : Bytes) (index : Nat) : Checked UInt8 :=
  match buffer[index]? with
  | some byte => .ok byte
  | none => .error .outside

def setByte (buffer : Bytes) (index : Nat) (byte : UInt8) : Checked Bytes :=
  if index < buffer.length then .ok (buffer.set index byte) else .error .outside

-- Pieces of `size` bytes; only the last may be shorter.
def pieces (size : Nat) (buffer : Bytes) : Checked (List Bytes) :=
  if size = 0 then .error .divisor else .ok (buffer.segments size)

theorem slice_within (buffer : Bytes) (first last : Nat) (ordered : first ≤ last)
    (inside : last ≤ buffer.length) :
    slice buffer first last = .ok ((buffer.take last).drop first) := if_pos ⟨ordered, inside⟩

theorem slice_front (buffer : Bytes) (last : Nat) (inside : last ≤ buffer.length) :
    slice buffer 0 last = .ok (buffer.take last) :=
      slice_within buffer 0 last (Nat.zero_le last) inside

theorem slice_back (buffer : Bytes) (first : Nat) (inside : first ≤ buffer.length) :
    slice buffer first buffer.length = .ok (buffer.drop first) := by
  rw [slice_within buffer first _ inside (Nat.le_refl _), List.take_length]

theorem range_length (buffer : Bytes) (first last : Nat) (inside : last ≤ buffer.length) :
    ((buffer.take last).drop first).length = last - first := by
  rw [List.length_drop, List.length_take_of_le inside]

theorem spliced_front (buffer : Bytes) (last : Nat) (middle : Bytes) :
    spliced buffer 0 last middle = middle ++ buffer.drop last := rfl

theorem spliced_length (buffer : Bytes) (first last : Nat) (middle : Bytes) (ordered : first ≤ last)
    (inside : last ≤ buffer.length) (even : middle.length = last - first) :
    (spliced buffer first last middle).length = buffer.length := by
  simp only [spliced, List.length_append, List.length_take, List.length_drop, even]
  omega

theorem front_length (buffer : Bytes) (last : Nat) (middle : Bytes) (inside : last ≤ buffer.length)
    (even : middle.length = last) : (middle ++ buffer.drop last).length = buffer.length :=
  spliced_length buffer 0 last middle (Nat.zero_le last) inside even

theorem edit_within (buffer : Bytes) (first last : Nat) (change : Bytes → Bytes)
    (ordered : first ≤ last) (inside : last ≤ buffer.length) :
    edit buffer first last change =
      .ok (spliced buffer first last (change ((buffer.take last).drop first))) := by
  rw [edit, slice_within buffer first last ordered inside, ok_bind]

theorem edit_front (buffer : Bytes) (last : Nat) (change : Bytes → Bytes)
    (inside : last ≤ buffer.length) :
    edit buffer 0 last change = .ok (change (buffer.take last) ++ buffer.drop last) :=
  edit_within buffer 0 last change (Nat.zero_le last) inside

theorem copy_into_within (buffer : Bytes) (first last : Nat) (source : Bytes)
    (ordered : first ≤ last) (inside : last ≤ buffer.length) (even : source.length = last - first) :
    copyInto buffer first last source = .ok (spliced buffer first last source) := by
  rw [copyInto, slice_within buffer first last ordered inside, ok_bind,
    if_pos (even.trans (range_length buffer first last inside).symm)]

theorem copy_into_front (buffer : Bytes) (last : Nat) (source : Bytes)
    (inside : last ≤ buffer.length) (even : source.length = last) :
    copyInto buffer 0 last source = .ok (source ++ buffer.drop last) :=
  copy_into_within buffer 0 last source (Nat.zero_le last) inside even

theorem copy_into_whole (buffer source : Bytes) (even : source.length = buffer.length) :
    copyInto buffer 0 buffer.length source = .ok source := by
  rw [copy_into_front buffer _ source (Nat.le_refl _) even, List.drop_length, List.append_nil]

theorem move_to_start_within (buffer : Bytes) (size : Nat) (inside : size ≤ buffer.length) :
    moveToStart buffer size = .ok (buffer.drop size ++ buffer.drop (buffer.length - size)) :=
  if_pos inside

theorem byte_at_within (buffer : Bytes) (index : Nat) (inside : index < buffer.length) :
    byteAt buffer index = .ok buffer[index] := by
  rw [byteAt, List.getElem?_eq_getElem inside]

theorem set_byte_within (buffer : Bytes) (index : Nat) (byte : UInt8)
    (inside : index < buffer.length) : setByte buffer index byte = .ok (buffer.set index byte) :=
  if_pos inside

theorem pieces_within (size : Nat) (buffer : Bytes) (positive : 0 < size) :
    pieces size buffer = .ok (buffer.segments size) := if_neg (by omega)

end Checked

end SymmetricKey
