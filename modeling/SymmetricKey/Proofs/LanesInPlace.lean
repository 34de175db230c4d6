import SymmetricKey.Sponge.Keccak
import Mathlib.Data.List.Nodup
import Mathlib.Data.List.ProdSigma

/-!
The permutation of 25 words as loops that overwrite one word after the other. No word is
read behind the write that replaced it, except where its new value is meant: parities and
rows are copied first, and the walk carries what stood at the place that it writes. So the
loops give what the words would be if they were all replaced at once.
-/

namespace SymmetricKey

-- Named for the numerals of the coordinates and of the places, as for the bytes of a block.
instance five_ne_zero : @NeZero Nat Zero.ofOfNat0 5 := Nat.instNeZeroSucc
instance twenty_five_ne_zero : @NeZero Nat Zero.ofOfNat0 25 := Nat.instNeZeroSucc

section Once
variable {State Key Value Index : Type} [DecidableEq Key]

/-- What a loop leaves where each step changes the value under one key, and no two steps the
same. -/
theorem each_once (view : State → Key → Value) (key : Index → Key) (step : State → Index → State)
    (change : Index → Value → Value)
    (stepped : ∀ state index other, view (step state index) other =
      if other = key index then change index (view state other) else view state other)
    (indices : List Index) (once : (indices.map key).Nodup) (state : State) :
    (∀ index ∈ indices,
      view (indices.foldl step state) (key index) = change index (view state (key index))) ∧
    ∀ other ∉ indices.map key, view (indices.foldl step state) other = view state other := by
  induction indices generalizing state with
  | nil => exact ⟨fun index member => absurd member List.not_mem_nil, fun _ _ => rfl⟩
  | cons first rest ih =>
      rw [List.map_cons, List.nodup_cons] at once
      obtain ⟨reached, spared⟩ := ih once.2 (step state first)
      refine ⟨fun index member => ?_, fun other missing => ?_⟩
      · rcases List.mem_cons.mp member with rfl | later
        · rw [List.foldl_cons, spared _ once.1, stepped, if_pos rfl]
        · have apart : key index ≠ key first := fun same =>
            once.1 (same ▸ List.mem_map_of_mem later)
          rw [List.foldl_cons, reached index later, stepped, if_neg apart]
      · rw [List.map_cons, List.mem_cons, not_or] at missing
        rw [List.foldl_cons, spared other missing.2, stepped, if_neg missing.1]

end Once

namespace Lanes

def place (x y : Fin 5) : Fin 25 := ⟨x.val + 5 * y.val, by omega⟩

theorem place_inj (first second : Fin 5 × Fin 5) :
    place first.1 first.2 = place second.1 second.2 ↔ first = second := by
  obtain ⟨x, y⟩ := first
  obtain ⟨column, row⟩ := second
  simp only [place, Prod.mk.injEq, Fin.ext_iff]
  omega

theorem place_exact (index : Fin 25) :
    place ⟨index.val % 5, by omega⟩ ⟨index.val / 5, by omega⟩ = index := by
  apply Fin.ext
  simp only [place]
  omega

def cell (lanes : Lanes) (x y : Fin 5) : UInt64 := lanes.get (place x y)

theorem word_cell (lanes : Lanes) (x y : Nat) :
    lanes.word x y = lanes.cell (Fin.ofNat 5 x) (Fin.ofNat 5 y) := rfl

theorem get_of_fn {size : Nat} (value : Fin size → UInt64) (index : Fin size) :
    (Vector.ofFn value).get index = value index := Vector.getElem_ofFn _

theorem eq_of_words (left right : Lanes) (same : ∀ x y, left.cell x y = right.cell x y) :
    left = right := by
  apply Vector.ext
  intro index inside
  have here := same ⟨index % 5, by omega⟩ ⟨index / 5, by omega⟩
  rw [cell, cell, place_exact ⟨index, inside⟩] at here
  exact here

theorem of_coordinates_cell (value : Nat → Nat → UInt64) (x y : Fin 5) :
    (ofCoordinates value).cell x y = value x.val y.val := by
  have column : (place x y).val % 5 = x.val := by
    simp only [place]
    omega
  have row : (place x y).val / 5 = y.val := by
    simp only [place]
    omega
  rw [← column, ← row]
  exact Vector.getElem_ofFn _

def write (lanes : Lanes) (place : Fin 25) (word : UInt64) : Lanes :=
  lanes.set place.val word place.isLt

theorem get_write (lanes : Lanes) (place other : Fin 25) (word : UInt64) :
    (lanes.write place word).get other = if other = place then word else lanes.get other := by
  have written : (lanes.set place.val word place.isLt)[other.val] =
      if place.val = other.val then word else lanes[other.val] :=
    Vector.getElem_set place.isLt other.isLt
  simp only [Fin.ext_iff, eq_comm (a := other.val)]
  exact written

theorem cell_write (lanes : Lanes) (here other : Fin 5 × Fin 5) (word : UInt64) :
    (lanes.write (place here.1 here.2) word).cell other.1 other.2 =
      if other = here then word else lanes.cell other.1 other.2 := by
  rw [cell, get_write, cell]
  simp only [place_inj]

theorem written_once (change : Fin 5 × Fin 5 → UInt64 → UInt64) (indices : List (Fin 5 × Fin 5))
    (once : indices.Nodup) (lanes : Lanes) :
    let written := indices.foldl (fun written index =>
      written.write (place index.1 index.2) (change index (written.cell index.1 index.2))) lanes
    (∀ index ∈ indices, written.cell index.1 index.2 = change index (lanes.cell index.1 index.2)) ∧
      ∀ other ∉ indices, written.cell other.1 other.2 = lanes.cell other.1 other.2 := by
  have stepped (written : Lanes) (index other : Fin 5 × Fin 5) :
      (written.write (place index.1 index.2) (change index (written.cell index.1 index.2))).cell
          other.1 other.2 =
        if other = id index then change index (written.cell other.1 other.2)
        else written.cell other.1 other.2 := by
    rw [cell_write, id]
    by_cases same : other = index
    · rw [if_pos same, if_pos same, same]
    · rw [if_neg same, if_neg same]
  have result :=
    each_once (fun lanes index => cell lanes index.1 index.2) id _ change stepped indices
      (by rwa [List.map_id]) lanes
  rw [List.map_id] at result
  exact result

def columnParity (lanes : Lanes) (x : Fin 5) : UInt64 :=
  lanes.cell x 0 ^^^ lanes.cell x 1 ^^^ lanes.cell x 2 ^^^ lanes.cell x 3 ^^^ lanes.cell x 4

def columnChange (lanes : Lanes) (x : Fin 5) : UInt64 :=
  lanes.columnParity (x + 4) ^^^ rotateLeft64 (lanes.columnParity (x + 1)) 1

theorem add_parities_cell (lanes : Lanes) (x y : Fin 5) :
    (addParities lanes).cell x y = lanes.cell x y ^^^ lanes.columnChange x := by
  have before : (⟨(x.val % 5 + 4) % 5, Nat.mod_lt _ (by decide)⟩ : Fin 5) = x + 4 :=
    Fin.ext (Nat.mod_add_mod _ _ _)
  have behind : (⟨(x.val % 5 + 1) % 5, Nat.mod_lt _ (by decide)⟩ : Fin 5) = x + 1 :=
    Fin.ext (Nat.mod_add_mod _ _ _)
  rw [addParities, of_coordinates_cell]
  simp only [get_of_fn, before, behind, word_cell, Fin.ofNat_val_eq_self]
  rfl

-- The loops over columns and rows, with the parities of the columns as they were.
def addParitiesInPlace (lanes : Lanes) : Lanes :=
  let parities : Vector UInt64 5 := Vector.ofFn lanes.columnParity
  (List.finRange 5).foldl (fun lanes x =>
    let change := parities.get (x + 4) ^^^ rotateLeft64 (parities.get (x + 1)) 1
    (List.finRange 5).foldl (fun lanes y =>
      lanes.write (place x y) (lanes.cell x y ^^^ change)) lanes) lanes

theorem add_parities_in_place (lanes : Lanes) : addParitiesInPlace lanes = addParities lanes := by
  have pairs :
      addParitiesInPlace lanes = (List.finRange 5 ×ˢ List.finRange 5).foldl (fun written index =>
      written.write (place index.1 index.2)
        (written.cell index.1 index.2 ^^^ lanes.columnChange index.1)) lanes := by
    simp only [addParitiesInPlace, get_of_fn, SProd.sprod, List.product, List.foldl_flatMap,
      List.foldl_map, columnChange]
  obtain ⟨written, -⟩ := written_once (fun index word => word ^^^ lanes.columnChange index.1)
    (List.finRange 5 ×ˢ List.finRange 5) (by decide) lanes
  apply eq_of_words
  intro x y
  rw [pairs, add_parities_cell]
  exact written (x, y) (by simp)

-- A row is copied before its words are overwritten.
def combineRow (lanes : Lanes) (y : Fin 5) : Lanes :=
  let row : Vector UInt64 5 := Vector.ofFn fun x => lanes.cell x y
  (List.finRange 5).foldl (fun lanes x =>
    lanes.write (place x y) (row.get x ^^^ (~~~row.get (x + 1) &&& row.get (x + 2)))) lanes

def combineRowsInPlace (lanes : Lanes) : Lanes := (List.finRange 5).foldl combineRow lanes

def combined (row : Fin 5 → UInt64) (x : Fin 5) : UInt64 :=
  row x ^^^ (~~~row (x + 1) &&& row (x + 2))

theorem combine_rows_cell (lanes : Lanes) (x y : Fin 5) :
    (combineRows lanes).cell x y = combined (fun x => lanes.cell x y) x := by
  rw [combineRows, of_coordinates_cell]
  simp only [word_cell, Fin.ofNat_val_eq_self]
  rfl

theorem combine_row_cell (lanes : Lanes) (row x y : Fin 5) :
    (combineRow lanes row).cell x y =
      if y = row then combined (fun x => lanes.cell x y) x else lanes.cell x y := by
  have pairs :
      combineRow lanes row = ((List.finRange 5).map fun x => (x, row)).foldl (fun written index =>
      written.write (place index.1 index.2) (combined (fun x => lanes.cell x row) index.1))
        lanes := by
    simp only [combineRow, get_of_fn, List.foldl_map, combined]
  have member (place : Fin 5 × Fin 5) :
      place ∈ ((List.finRange 5).map fun x => (x, row)) ↔ place.2 = row := by
    simp [Prod.ext_iff, eq_comm]
  have once : ((List.finRange 5).map fun x => (x, row)).Nodup :=
    List.Nodup.map (fun _ _ same => congrArg Prod.fst same) (List.nodup_finRange 5)
  obtain ⟨written, spared⟩ :=
    written_once (fun index _ => combined (fun x => lanes.cell x row) index.1)
    _ once lanes
  rw [pairs]
  split_ifs with same
  · rw [same]
    exact written (x, row) ((member _).mpr rfl)
  · exact spared (x, y) (mt (member _).mp same)

theorem combine_rows_in_place (lanes : Lanes) : combineRowsInPlace lanes = combineRows lanes := by
  obtain ⟨reached, -⟩ :=
    each_once (fun lanes y x => cell lanes x y) id combineRow (fun _ => combined)
      (fun lanes row y => by
        funext x
        rw [combine_row_cell, id]
        split_ifs <;> rfl) (List.finRange 5) (by decide) lanes
  apply eq_of_words
  intro x y
  rw [combine_rows_cell]
  exact congrFun (reached y (List.mem_finRange y)) x

/-- Places that differ from one another are written in turn. The walk starts at the first of them,
and each word moves one place further. -/
theorem walk_moves (chain : Nat → Fin 25) (amount : Nat → UInt64) (lanes : Lanes) (count : Nat)
    (apart : ∀ later ≤ count, ∀ earlier < later, 0 < earlier → chain earlier ≠ chain later) :
    ∃ moved,
    (List.range count).foldl (fun state step => walkStep state (chain (step + 1), amount step))
        (lanes, lanes.get (chain 0)) = (moved, lanes.get (chain count)) ∧
      (∀ step < count,
        moved.get (chain (step + 1)) = rotateLeft64 (lanes.get (chain step)) (amount step)) ∧
      ∀ other, (∀ step < count, other ≠ chain (step + 1)) → moved.get other = lanes.get other := by
  induction count with
  | zero =>
      exact ⟨lanes, rfl, fun step inside => absurd inside (Nat.not_lt_zero step), fun _ _ => rfl⟩
  | succ count ih =>
      obtain ⟨moved, ran, reached, spared⟩ := ih fun later inside => apart later (by omega)
      -- What stands at the next place has not been written yet.
      have unwritten : moved.get (chain (count + 1)) = lanes.get (chain (count + 1)) :=
        spared _ fun step inside =>
          (apart (count + 1) (Nat.le_refl _) (step + 1) (by omega) (by omega)).symm
      refine ⟨moved.write (chain (count + 1))
        (rotateLeft64 (lanes.get (chain count)) (amount count)), ?_,
        fun step inside => ?_, fun other missing => ?_⟩
      · rw [List.range_succ, List.foldl_append, ran, List.foldl_cons, List.foldl_nil, walkStep,
          unwritten]
        rfl
      · rw [get_write]
        by_cases last : step = count
        · rw [if_pos (by rw [last]), last]
        · have earlier : chain (step + 1) ≠ chain (count + 1) :=
            apart (count + 1) (Nat.le_refl _) (step + 1) (by omega) (by omega)
          rw [if_neg earlier, reached step (by omega)]
      · rw [get_write, if_neg (missing count (Nat.lt_succ_self count)),
          spared other fun step inside => missing step (by omega)]

def places : List (Fin 25) := [
  10, 7, 11, 17, 18, 3, 5, 16, 8, 21, 24, 4, 15, 23, 19, 13, 12, 2, 20, 14, 22, 9, 6, 1]

def amounts : List UInt64 := [
  1, 3, 6, 10, 15, 21, 28, 36, 45, 55, 2, 14, 27, 41, 56, 8, 25, 43, 62, 18, 39, 61, 20, 44]

def rotateAndMoveInPlace (lanes : Lanes) : Lanes :=
  ((places.zip amounts).foldl walkStep (lanes, lanes.get 1)).1

theorem rotate_and_move_in_place (lanes : Lanes) :
    rotateAndMoveInPlace lanes = rotateAndMove lanes := by
  have table : places.zip amounts = walk := rfl
  rw [rotateAndMoveInPlace, table, rotateAndMove]

def roundInPlace (lanes : Lanes) (constant : UInt64) : Lanes :=
  addConstant constant (combineRowsInPlace (rotateAndMoveInPlace (addParitiesInPlace lanes)))

def permuteInPlace (lanes : Lanes) : Lanes := constants.foldl roundInPlace lanes

theorem round_in_place : roundInPlace = round := by
  funext lanes constant
  rw [roundInPlace, add_parities_in_place, rotate_and_move_in_place, combine_rows_in_place, round]

theorem permute_in_place (lanes : Lanes) : permuteInPlace lanes = permute lanes := by
  rw [permuteInPlace, round_in_place, permute]

end Lanes

end SymmetricKey
