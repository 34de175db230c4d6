import SymmetricKey.Proofs.LanesInPlace
import Mathlib

/-!
The permutation as FIPS 202 has it, on a cube of 1600 bits: five columns by five rows of
lanes of 64 bits. Each of its five steps replaces all bits at once. Words that are
overwritten one after the other, places and amounts that stand in tables, and constants
that are written out come to the same cube.
-/

namespace SymmetricKey

-- Named for the numerals of the depths, as for the coordinates.
instance sixty_four_ne_zero : @NeZero Nat Zero.ofOfNat0 64 := Nat.instNeZeroSucc

/-- The bit in column `x` and row `y`, at depth `z`. -/
abbrev Cube := Fin 5 → Fin 5 → Fin 64 → Bool

namespace Cube

def columnParity (cube : Cube) (x : Fin 5) (z : Fin 64) : Bool :=
  cube x 0 z ^^ cube x 1 z ^^ cube x 2 z ^^ cube x 3 z ^^ cube x 4 z

def theta (cube : Cube) : Cube := fun x y z =>
  cube x y z ^^ (columnParity cube (x - 1) z ^^ columnParity cube (x + 1) (z - 1))

/-- The lane that step `t` of the walk has come to. -/
def reached : Nat → Fin 5 × Fin 5
  | 0 => (1, 0)
  | t + 1 => ((reached t).2, 2 * (reached t).1 + 3 * (reached t).2)

def distance (t : Nat) : Nat := (t + 1) * (t + 2) / 2

-- The lane that step `t` has come to is the one of `cube`, turned by its distance.
def turn (cube turned : Cube) (t : Nat) : Cube := fun x y z =>
  if (x, y) = reached t then cube x y (z - Fin.ofNat 64 (distance t)) else turned x y z

-- The lane at the origin is not reached.
def rho (cube : Cube) : Cube := (List.range 24).foldl (turn cube) cube

def pi (cube : Cube) : Cube := fun x y z => cube (x + 3 * y) x z

def chi (cube : Cube) : Cube := fun x y z =>
  cube x y z ^^ ((cube (x + 1) y z ^^ true) && cube (x + 2) y z)

/-- A register of eight bits moves by one, and the bit that leaves it is added to four others. -/
def feedBack (register : BitVec 8) : BitVec 8 :=
  register.shiftConcat false ^^^ if register.getLsbD 7 then 0b01110001#8 else 0

def rc (t : Nat) : Bool := if t % 255 = 0 then true else (feedBack^[t % 255] 1).getLsbD 0

-- Of the constant of a round only the bits at depths `2 ^ j - 1` can be set.
def constantBit (index : Nat) (z : Fin 64) : Bool :=
  (List.range 7).any fun j => decide (z.val = 2 ^ j - 1) && rc (j + 7 * index)

def iota (index : Nat) (cube : Cube) : Cube := fun x y z =>
  cube x y z ^^ (decide (x = 0 ∧ y = 0) && constantBit index z)

def round (cube : Cube) (index : Nat) : Cube := iota index (chi (pi (rho (theta cube))))

def permute (cube : Cube) : Cube := (List.range 24).foldl round cube

theorem reached_once : ((List.range 24).map reached).Nodup := by decide

theorem origin_or_reached :
    ∀ x y : Fin 5, (x, y) = (0, 0) ∨ ∃ t < 24, reached (t + 1) = (x, y) := by
  decide

theorem origin_apart : ∀ t < 24, reached t ≠ (0, 0) := by decide

theorem turn_lane (cube turned : Cube) (t : Nat) (lane : Fin 5 × Fin 5) :
    turn cube turned t lane.1 lane.2 =
      if lane = reached t then
        fun z => cube (reached t).1 (reached t).2 (z - Fin.ofNat 64 (distance t))
      else turned lane.1 lane.2 := by
  funext z
  rw [turn]
  by_cases here : lane = reached t
  · rw [if_pos here, if_pos here, here]
  · rw [if_neg here, if_neg here]

theorem rho_exact (cube : Cube) :
    (∀ t < 24, rho cube (reached t).1 (reached t).2 = fun z =>
      cube (reached t).1 (reached t).2 (z - Fin.ofNat 64 (distance t))) ∧
    rho cube 0 0 = cube 0 0 := by
  obtain ⟨turned, spared⟩ := each_once
    (fun (state : Cube) (lane : Fin 5 × Fin 5) => state lane.1 lane.2) reached (turn cube)
    (fun t _ z => cube (reached t).1 (reached t).2 (z - Fin.ofNat 64 (distance t)))
    (turn_lane cube) (List.range 24) reached_once cube
  refine ⟨fun t inside => turned t (List.mem_range.mpr inside), spared (0, 0) fun member => ?_⟩
  obtain ⟨t, inside, same⟩ := List.mem_map.mp member
  exact origin_apart t (List.mem_range.mp inside) same

theorem pi_reached (cube : Cube) (t : Nat) :
    pi cube (reached (t + 1)).1 (reached (t + 1)).2 = cube (reached t).1 (reached t).2 := by
  -- A lane is moved to where the walk goes next.
  have back : ∀ x y : Fin 5, y + 3 * (2 * x + 3 * y) = x := by decide
  funext z
  rw [pi, reached, back]

end Cube

namespace Lanes

def cube (lanes : Lanes) : Cube := fun x y z => (lanes.word x.val y.val).toBitVec.getLsbD z.val

theorem cube_cell (lanes : Lanes) (x y : Fin 5) (z : Fin 64) :
    lanes.cube x y z = (lanes.cell x y).toBitVec.getLsbD z.val := by
  rw [cube, word_cell, Fin.ofNat_val_eq_self, Fin.ofNat_val_eq_self]

def ofCube (cube : Cube) : Lanes :=
  ofCoordinates fun x y => UInt64.ofBitVec (BitVec.ofFnLE (cube (Fin.ofNat 5 x) (Fin.ofNat 5 y)))

theorem cube_of_cube (cube : Cube) : (ofCube cube).cube = cube := by
  funext x y z
  rw [cube_cell, ofCube, of_coordinates_cell, Fin.ofNat_val_eq_self, Fin.ofNat_val_eq_self,
    BitVec.getLsbD_eq_getElem z.isLt]
  exact BitVec.getElem_ofFnLE _ _ z.isLt

theorem cube_injective : Function.Injective cube := by
  intro left right same
  apply eq_of_words
  intro x y
  apply UInt64.toBitVec_inj.mp
  apply BitVec.eq_of_getLsbD_eq
  intro z inside
  have bit := congrFun (congrFun (congrFun same x) y) ⟨z, inside⟩
  rw [cube_cell, cube_cell] at bit
  exact bit

theorem cube_bijective : Function.Bijective cube :=
  ⟨cube_injective, fun cube => ⟨ofCube cube, cube_of_cube cube⟩⟩

theorem rotate_left64_bits (value amount : UInt64) (some : 0 < amount.toNat)
    (inside : amount.toNat < 64) :
    (rotateLeft64 value amount).toBitVec = value.toBitVec.rotateLeft amount.toNat := by
  have complement : (64 - amount).toNat = 64 - amount.toNat :=
    UInt64.toNat_sub_of_le _ _ (UInt64.le_iff_toNat_le.mpr inside.le)
  have back : ((64 - amount).toBitVec % 64).toNat = 64 - amount.toNat % 64 := by
    have bits : (64 : BitVec 64).toNat = 64 := rfl
    rw [BitVec.toNat_umod, UInt64.toNat_toBitVec, complement, bits]
    omega
  rw [BitVec.rotateLeft_def, rotateLeft64, UInt64.toBitVec_or, UInt64.toBitVec_shiftLeft,
    UInt64.toBitVec_shiftRight, BitVec.shiftLeft_eq', BitVec.ushiftRight_eq', back]
  rfl

theorem rotated_bit (value amount : UInt64) (some : 0 < amount.toNat) (inside : amount.toNat < 64)
    (z : Fin 64) : (rotateLeft64 value amount).toBitVec.getLsbD z.val =
      value.toBitVec.getLsbD (z - Fin.ofNat 64 amount.toNat).val := by
  rw [rotate_left64_bits value amount some inside, BitVec.getLsbD_rotateLeft_of_le inside,
    Fin.val_sub]
  simp only [Fin.ofNat]
  rw [Nat.mod_eq_of_lt inside]
  by_cases low : z.val < amount.toNat
  · rw [decide_eq_true low, cond_true]
    congr 1
    omega
  · rw [decide_eq_false low, cond_false, decide_eq_true z.isLt, Bool.true_and]
    congr 1
    omega

theorem column_parity_bit (lanes : Lanes) (x : Fin 5) (z : Fin 64) :
    (lanes.columnParity x).toBitVec.getLsbD z.val = lanes.cube.columnParity x z := by
  simp only [columnParity, Cube.columnParity, cube_cell, UInt64.toBitVec_xor, BitVec.getLsbD_xor]

theorem add_parities_cube (lanes : Lanes) : (addParities lanes).cube = lanes.cube.theta := by
  have before : ∀ x : Fin 5, x - 1 = x + 4 := by decide
  funext x y z
  rw [cube_cell, add_parities_cell, columnChange, Cube.theta, UInt64.toBitVec_xor,
    UInt64.toBitVec_xor, BitVec.getLsbD_xor, BitVec.getLsbD_xor,
    rotated_bit _ 1 (by decide) (by decide), column_parity_bit, column_parity_bit, before,
    cube_cell]
  rfl

theorem combine_rows_cube (lanes : Lanes) : (combineRows lanes).cube = lanes.cube.chi := by
  funext x y z
  rw [cube_cell, combine_rows_cell, combined, Cube.chi, cube_cell, cube_cell, cube_cell,
    UInt64.toBitVec_xor, UInt64.toBitVec_and, UInt64.toBitVec_not, BitVec.getLsbD_xor,
    BitVec.getLsbD_and, BitVec.getLsbD_not, decide_eq_true z.isLt, Bool.true_and, Bool.xor_true]

theorem constant_bits : ∀ index < 24, ∀ z : Fin 64,
    (constants.getD index 0).toBitVec.getLsbD z.val = Cube.constantBit index z := by
  decide +kernel

theorem add_constant_cube (index : Nat) (inside : index < 24) (lanes : Lanes) :
    (addConstant (constants.getD index 0) lanes).cube = lanes.cube.iota index := by
  funext x y z
  have written := cell_write lanes (0, 0) (x, y) (lanes.cell 0 0 ^^^ constants.getD index 0)
  change (addConstant (constants.getD index 0) lanes).cell x y = _ at written
  rw [cube_cell, written, Cube.iota, cube_cell]
  by_cases origin : x = 0 ∧ y = 0
  · obtain ⟨rfl, rfl⟩ := origin
    rw [if_pos rfl, UInt64.toBitVec_xor, BitVec.getLsbD_xor, constant_bits index inside]
    rfl
  · rw [if_neg fun same => origin (Prod.mk.inj same), decide_eq_false origin, Bool.false_and,
      Bool.xor_false]

def chain (t : Nat) : Fin 25 := place (Cube.reached t).1 (Cube.reached t).2

def turnAmount (t : Nat) : UInt64 := UInt64.ofNat (Cube.distance t % 64)

theorem walk_chain : walk = (List.range 24).map fun t => (chain (t + 1), turnAmount t) := by decide

theorem chain_apart :
    ∀ later ≤ 24, ∀ earlier < later, 0 < earlier → chain earlier ≠ chain later := by
  decide

theorem turned_bit (value : UInt64) (t : Nat) (inside : t < 24) (z : Fin 64) :
    (rotateLeft64 value (turnAmount t)).toBitVec.getLsbD z.val =
      value.toBitVec.getLsbD (z - Fin.ofNat 64 (Cube.distance t)).val := by
  have some : ∀ t < 24, 0 < Cube.distance t % 64 := by decide
  have below : Cube.distance t % 64 < 64 := Nat.mod_lt _ (by decide)
  have amount : (turnAmount t).toNat = Cube.distance t % 64 := by
    rw [turnAmount, UInt64.toNat_ofNat']
    omega
  have same : Fin.ofNat 64 (Cube.distance t % 64) = Fin.ofNat 64 (Cube.distance t) :=
    Fin.ext (Nat.mod_mod _ _)
  rw [rotated_bit _ _ (amount ▸ some t inside) (amount ▸ below), amount, same]

theorem rotate_and_move_cell (lanes : Lanes) :
    (∀ t < 24, (rotateAndMove lanes).cell (Cube.reached (t + 1)).1 (Cube.reached (t + 1)).2 =
      rotateLeft64 (lanes.cell (Cube.reached t).1 (Cube.reached t).2) (turnAmount t)) ∧
    (rotateAndMove lanes).cell 0 0 = lanes.cell 0 0 := by
  obtain ⟨moved, ran, reached, spared⟩ := walk_moves chain turnAmount lanes 24 chain_apart
  have whole : rotateAndMove lanes = moved := by
    rw [rotateAndMove, walk_chain, List.foldl_map]
    exact congrArg Prod.fst ran
  have origin : ∀ t < 24, place 0 0 ≠ chain (t + 1) := by decide
  rw [whole]
  exact ⟨reached, spared _ origin⟩

theorem rotate_and_move_cube (lanes : Lanes) : (rotateAndMove lanes).cube = lanes.cube.rho.pi := by
  obtain ⟨moved, kept⟩ := rotate_and_move_cell lanes
  obtain ⟨turned, spared⟩ := Cube.rho_exact lanes.cube
  funext x y z
  rcases Cube.origin_or_reached x y with origin | ⟨t, inside, here⟩
  · obtain ⟨rfl, rfl⟩ := Prod.mk.inj origin
    have still : lanes.cube.rho.pi 0 0 = lanes.cube.rho 0 0 := rfl
    rw [cube_cell, kept, still, spared, cube_cell]
  · obtain rfl : (Cube.reached (t + 1)).1 = x := congrArg Prod.fst here
    obtain rfl : (Cube.reached (t + 1)).2 = y := congrArg Prod.snd here
    rw [cube_cell, moved t inside, turned_bit _ t inside, Cube.pi_reached, turned t inside]
    exact (cube_cell lanes _ _ _).symm

theorem round_cube (index : Nat) (inside : index < 24) (lanes : Lanes) :
    (round lanes (constants.getD index 0)).cube = lanes.cube.round index := by
  rw [round, add_constant_cube index inside, combine_rows_cube, rotate_and_move_cube,
    add_parities_cube, Cube.round]

theorem permute_cube (lanes : Lanes) : (permute lanes).cube = lanes.cube.permute := by
  have all : constants = (List.range 24).map fun index => constants.getD index 0 := by decide
  have run (count : Nat) (fits : count ≤ 24) (lanes : Lanes) :
      ((List.range count).foldl (fun lanes index => round lanes (constants.getD index 0))
        lanes).cube =
        (List.range count).foldl Cube.round lanes.cube := by
    induction count with
    | zero => rfl
    | succ count ih =>
        rw [List.range_succ, List.foldl_append, List.foldl_append, List.foldl_cons, List.foldl_nil,
          List.foldl_cons, List.foldl_nil, round_cube count fits, ih (by omega)]
  rw [permute, all, List.foldl_map, run 24 le_rfl, Cube.permute]

theorem permutes_as_standard :
    Function.Bijective cube ∧
    (∀ lanes : Lanes, (addParitiesInPlace lanes).cube = lanes.cube.theta) ∧
    (∀ lanes : Lanes, (rotateAndMoveInPlace lanes).cube = lanes.cube.rho.pi) ∧
    (∀ lanes : Lanes, (combineRowsInPlace lanes).cube = lanes.cube.chi) ∧
    (∀ (index : Fin 24) (lanes : Lanes),
      (addConstant (constants.getD index.val 0) lanes).cube = lanes.cube.iota index.val) ∧
    ∀ lanes : Lanes, permuteInPlace lanes = permute lanes ∧ (permute lanes).cube =
      lanes.cube.permute := by
  refine ⟨cube_bijective, fun lanes => ?_, fun lanes => ?_, fun lanes => ?_, fun index lanes => ?_,
    fun lanes => ⟨permute_in_place lanes, permute_cube lanes⟩⟩
  · rw [add_parities_in_place, add_parities_cube]
  · rw [rotate_and_move_in_place, rotate_and_move_cube]
  · rw [combine_rows_in_place, combine_rows_cube]
  · exact add_constant_cube index.val index.isLt lanes

end Lanes

end SymmetricKey
