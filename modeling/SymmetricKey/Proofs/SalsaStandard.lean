import SymmetricKey.Keystream.Salsa20
import SymmetricKey.Proofs.WordStrings
import Mathlib.Data.List.GetD
import Mathlib.Logic.Function.Iterate

/-!
The core of Salsa20 as its definition has it: words in a square of four by four,
a quarter of which is stirred at once along each column and then along each row,
from the diagonal on. The core that stirs one word after the other in place
computes the same, on words and on strings of 64 bytes.
-/

namespace SymmetricKey.SalsaBlock

-- Rows and columns are taken modulo four.
abbrev Square := Nat → Nat → UInt32

/-- Four words along a line, and what the one at a step becomes. -/
def quarter (words : Nat → UInt32) (step : Nat) : UInt32 :=
  let second := words 1 ^^^ rotateLeft32 (words 0 + words 3) 7
  let third := words 2 ^^^ rotateLeft32 (second + words 0) 9
  let fourth := words 3 ^^^ rotateLeft32 (third + second) 13
  let first := words 0 ^^^ rotateLeft32 (fourth + third) 18
  [first, second, third, fourth].getD (step % 4) 0

/-- Each row is stirred from its word on the diagonal on. -/
def rowsStirred (square : Square) : Square := fun row column =>
  quarter (fun step => square row (row + step)) (column + 4 - row % 4)

def columnsStirred (square : Square) : Square := fun row column =>
  rowsStirred (fun column row => square row column) column row

def doubleStirred (square : Square) : Square := rowsStirred (columnsStirred square)

def stirredSquare (pairs : Nat) (square : Square) : Square := fun row column =>
  (doubleStirred^[pairs] square) row column + square row column

/-- Row by row, words with the lowest byte first. -/
def squareOf (bytes : Bytes) : Square := fun row column =>
  UInt32.ofNat (LittleEndian.number ((bytes.drop (4 * (4 * (row % 4) + column % 4))).take 4))

def squareText (square : Square) : Bytes :=
  (List.range 4).flatMap fun row => (List.range 4).flatMap fun column =>
    LittleEndian.numeral 4 (square row column).toNat

def standardCore (pairs : Nat) (bytes : Bytes) : Bytes :=
  squareText (stirredSquare pairs (squareOf bytes))

theorem get_put (block : SalsaBlock) (target index : Fin 16) (word : UInt32) :
    (put block target word).get index = if index = target then word else block.get index := by
  have place : (put block target word).get index =
      if target.val = index.val then word else block.get index := Vector.getElem_set _ _
  rw [place]
  simp only [Fin.ext_iff, eq_comm]

theorem get_stir (target left right index : Fin 16) (amount : UInt32) (block : SalsaBlock) :
    (stir target left right amount block).get index =
      if index = target then
        block.get target ^^^ rotateLeft32 (block.get left + block.get right) amount
      else block.get index := get_put _ _ _ _

def quarterAlong (line : Nat → Fin 16) (block : SalsaBlock) : SalsaBlock :=
  quarterRound (line 0) (line 1) (line 2) (line 3) block

theorem quarter_along_off (line : Nat → Fin 16) (block : SalsaBlock) (index : Fin 16)
    (off : ∀ step, step < 4 → index ≠ line step) :
    (quarterAlong line block).get index = block.get index := by
  simp only [quarterAlong, quarterRound, get_stir, if_neg (off 0 (by decide)),
    if_neg (off 1 (by decide)), if_neg (off 2 (by decide)), if_neg (off 3 (by decide))]

theorem quarter_along_on (line : Nat → Fin 16)
    (apart : ∀ step further, step < 4 → further < 4 → (line step = line further ↔ step = further))
    (block : SalsaBlock) (step : Nat) (inside : step < 4) :
    (quarterAlong line block).get (line step) =
      quarter (fun step => block.get (line step)) step := by
  obtain rfl | rfl | rfl | rfl : step = 0 ∨ step = 1 ∨ step = 2 ∨ step = 3 := by omega
  all_goals
    simp (disch := decide) only [quarterAlong, quarterRound, get_stir, apart, Nat.reduceEqDiff,
      ↓reduceIte]
    rfl

-- Lines that have no place in common are stirred one after the other as if at once.
def stirredAlong (lines : Nat → Nat → Fin 16) (block : SalsaBlock) : SalsaBlock :=
  quarterAlong (lines 3)
    (quarterAlong (lines 2) (quarterAlong (lines 1) (quarterAlong (lines 0) block)))

theorem quarter_mod (words : Nat → UInt32) (step : Nat) :
    quarter words (step % 4) = quarter words step := by
  rw [quarter, quarter, Nat.mod_mod]

theorem quarter_congr (words others : Nat → UInt32)
    (alike : ∀ step, step < 4 → words step = others step) (step : Nat) :
    quarter words step = quarter others step := by
  simp only [quarter, alike 0 (by decide), alike 1 (by decide), alike 2 (by decide),
    alike 3 (by decide)]

section Lines
variable (lines : Nat → Nat → Fin 16)
  (apart : ∀ line step other further, line < 4 → step < 4 → other < 4 → further < 4 →
    lines line step = lines other further → line = other ∧ step = further)
include apart

theorem quarter_along_other (line other : Nat) (inside : line < 4) (within : other < 4)
    (different : line ≠ other) (block : SalsaBlock) (step : Nat) (near : step < 4) :
    (quarterAlong (lines other) block).get (lines line step) = block.get (lines line step) :=
  quarter_along_off _ _ _ fun further close same =>
    different (apart line step other further inside near within close same).1

theorem quarter_along_same (line : Nat) (inside : line < 4) (block : SalsaBlock) (step : Nat)
    (near : step < 4) :
    (quarterAlong (lines line) block).get (lines line step) =
      quarter (fun step => block.get (lines line step)) step := by
  apply quarter_along_on _ _ _ _ near
  intro step further near close
  constructor
  · exact fun same => (apart line step line further inside near inside close same).2
  · exact fun same => congrArg (lines line) same

theorem stirred_along_exact (block : SalsaBlock) (line step : Nat) (inside : line < 4)
    (near : step < 4) :
    (stirredAlong lines block).get (lines line step) =
      quarter (fun step => block.get (lines line step)) step := by
  have other := quarter_along_other lines apart
  have same := quarter_along_same lines apart
  -- What the earlier lines did is seen by none of the words that the line reads.
  obtain rfl | rfl | rfl | rfl : line = 0 ∨ line = 1 ∨ line = 2 ∨ line = 3 := by omega
  · simp (disch := omega) only [stirredAlong, other, same]
  all_goals
    simp (disch := omega) only [stirredAlong, other, same]
    apply quarter_congr
    intro step near
    simp (disch := omega) only [other]

end Lines

def place (row column : Nat) : Fin 16 := ⟨4 * (row % 4) + column % 4, by omega⟩

theorem place_eq_iff (row column otherRow otherColumn : Nat) :
    place row column = place otherRow otherColumn ↔
      row % 4 = otherRow % 4 ∧ column % 4 = otherColumn % 4 := by
  rw [place, place, Fin.mk.injEq]
  omega

def square (block : SalsaBlock) : Square := fun row column => block.get (place row column)

-- From the diagonal on, whether the first coordinate counts rows or columns.
theorem stirred_from_diagonal (view : Nat → Nat → Fin 16)
    (view_eq_iff : ∀ line index other further,
      view line index = view other further ↔ line % 4 = other % 4 ∧ index % 4 = further % 4)
    (block : SalsaBlock) (line index : Nat) :
    (stirredAlong (fun line step => view line (line + step)) block).get (view line index) =
      quarter (fun step => block.get (view line (line + step))) (index + 4 - line % 4) := by
  have here : view line index = view (line % 4) (line % 4 + (index + 4 - line % 4) % 4) := by
    rw [view_eq_iff]
    omega
  have word := stirred_along_exact (fun line step => view line (line + step))
    (fun line step other further inside near within close same => by
      obtain ⟨lines, indices⟩ := (view_eq_iff _ _ _ _).mp same
      omega) block (line % 4) ((index + 4 - line % 4) % 4) (by omega) (by omega)
  rw [here, word, quarter_mod]
  apply quarter_congr
  intro step near
  rw [(view_eq_iff (line % 4) (line % 4 + step) line (line + step)).mpr (by omega)]

theorem row_round_exact (block : SalsaBlock) :
    (rowRound block).square = rowsStirred block.square := by
  have round : rowRound block = stirredAlong (fun row step => place row (row + step)) block := rfl
  funext row column
  rw [square, round, stirred_from_diagonal place place_eq_iff]
  rfl

theorem column_round_exact (block : SalsaBlock) :
    (columnRound block).square = columnsStirred block.square := by
  have round :
      columnRound block = stirredAlong (fun column step => place (column + step) column) block :=
    rfl
  funext row column
  have word := stirred_from_diagonal (fun column row => place row column)
    (fun _ _ _ _ => (place_eq_iff _ _ _ _).trans and_comm) block column row
  rw [square, round, word]
  rfl

theorem double_rounds_exact (pairs : Nat) (block : SalsaBlock) :
    (Nat.repeat doubleRound pairs block).square = doubleStirred^[pairs] block.square := by
  induction pairs with
  | zero => rfl
  | succ pairs ih =>
      rw [Nat.repeat, doubleRound, row_round_exact, column_round_exact, ih,
        Function.iterate_succ_apply', doubleStirred]

theorem core_exact (rounds : Nat) (block : SalsaBlock) :
    (core rounds block).square = stirredSquare (rounds / 2) block.square := by
  funext row column
  have sum : (core rounds block).square row column =
      (Nat.repeat doubleRound (rounds / 2) block).square row column + block.square row column :=
    Vector.getElem_zipWith _
  rw [sum, double_rounds_exact, stirredSquare]

theorem to_bytes_length (block : SalsaBlock) : block.toBytes.length = 64 := by
  rw [toBytes, Bytes.flat_length _ 4 fun _ => rfl, Vector.length_toList]

theorem list_words (block : SalsaBlock) : block.toList = (List.finRange 16).map block.get := by
  apply List.ext_getElem
  · rw [Vector.length_toList, List.length_map, List.length_finRange]
  · intro index inside _
    rw [List.getElem_map, List.getElem_finRange]
    rfl

theorem square_of_bytes (block : SalsaBlock) : squareOf block.toBytes = block.square := by
  funext row column
  have found : block.toList[(place row column).val]? = some (block.square row column) := by
    rw [list_words, List.getElem?_map, List.getElem?_eq_getElem (by simp), List.getElem_finRange]
    rfl
  have piece := Bytes.flat_piece LittleEndian.bytes32 4 (fun _ => rfl) block.toList _ _ found
  have word : squareOf block.toBytes row column =
      UInt32.ofNat
        (LittleEndian.number ((block.toBytes.drop (4 * (place row column).val)).take 4)) :=
    rfl
  rw [word, toBytes, piece, LittleEndian.number_bytes32, UInt32.ofNat_toNat]

theorem square_text (block : SalsaBlock) : squareText block.square = block.toBytes := by
  rw [toBytes, list_words, squareText]
  simp only [← LittleEndian.bytes32_exact]
  rfl

theorem xor_text (left right : SalsaBlock) :
    toBytes (Vector.zipWith (· ^^^ ·) left right) = Bytes.xor left.toBytes right.toBytes := by
  rw [toBytes, Vector.toList_zipWith,
    Bytes.flat_xor _ _ LittleEndian.bytes32_xor 4 fun _ => rfl, toBytes, toBytes]

theorem of_words_list (words : List UInt32) (whole : words.length = 16) :
    (ofWords words).toList = words := by
  rw [ofWords, Vector.toList_ofFn]
  apply List.ext_getElem
  · rw [List.length_ofFn, whole]
  · intro index _ inside
    rw [List.getElem_ofFn, List.getD_eq_getElem _ _ inside]

theorem of_bytes_to_bytes (bytes : Bytes) (whole : bytes.length = 64) :
    (ofBytes bytes).toBytes = bytes := by
  rw [toBytes, ofBytes, of_words_list _ (LittleEndian.words_length bytes 16 whole),
    LittleEndian.flat_words bytes 16 whole]

theorem core_text (rounds : Nat) (block : SalsaBlock) :
    (core rounds block).toBytes = standardCore (rounds / 2) block.toBytes := by
  rw [standardCore, square_of_bytes, ← core_exact, square_text]

end SymmetricKey.SalsaBlock
