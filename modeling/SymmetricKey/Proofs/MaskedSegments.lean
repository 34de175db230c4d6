import SymmetricKey.Proofs.BlockFunctions
import SymmetricKey.Proofs.SegmentRuns

/-!
Modes that add the enciphered register to each segment and differ only in the
register that they go on with. Over a function on blocks both the text and the
last register are read off the segments. A cipher that breaks off leaves those
of the segments before the refused one.
-/

namespace SymmetricKey

/-- The register behind a segment, from the register before it, the segment and the segment's
output. Its length stays that of a block. -/
structure RegisterRule (size : Nat) where
  next : Bytes → Bytes → Bytes → Bytes
  kept : ∀ register segment piece, register.length = size →
    (next register segment piece).length = size

/-- Asked in turn, the cipher answers these blocks by the function and refuses the one behind
them. -/
def BreaksOff {C : Type} [BlockCipher C] {size : Nat} (function : Block size → Block size)
    (cause : Error) (refused : Bytes) : C → List Bytes → Prop
  | cipher, [] => (BlockCipher.encryptBlock cipher refused size).1 = .error cause
  | cipher, block :: blocks =>
      (BlockCipher.encryptBlock cipher block size).1 = .ok (function (Block.ofFront size block)) ∧
        BreaksOff function cause refused (BlockCipher.encryptBlock cipher block size).2 blocks

namespace RegisterRule

variable {C : Type} [BlockCipher C] {size : Nat} (rule : RegisterRule size)

def step : SegmentStep C := fun cipher register segment =>
  match BlockCipher.encryptBlock cipher register register.length with
  | (.error cause, after) => (.error cause, after)
  | (.ok key, after) =>
      let piece := segment.xor key.toList
      (.ok (piece, rule.next register segment piece), after)

section Text
variable (function : Block size → Block size)

def follow (register segment : Bytes) : Bytes :=
  rule.next register segment (segment.xor (Block.onBytes function register))

def behind (register : Bytes) (segments : List Bytes) : Bytes :=
  segments.foldl (rule.follow function) register

def registerAt (width : Nat) (register input : Bytes) (count : Nat) : Bytes :=
  rule.behind function register (Bytes.segments width (input.take (count * width)))

def text (register : Bytes) : List Bytes → Bytes
  | [] => []
  | segment :: rest =>
      segment.xor (Block.onBytes function register) ++
        text (rule.follow function register segment) rest

theorem follow_length (register segment : Bytes) (exact : register.length = size) :
    (rule.follow function register segment).length = size :=
  rule.kept register segment _ exact

theorem behind_length (register : Bytes) (segments : List Bytes) (exact : register.length = size) :
    (rule.behind function register segments).length = size := by
  induction segments generalizing register with
  | nil => exact exact
  | cons segment rest ih => exact ih _ (rule.follow_length function register segment exact)

theorem behind_append (register : Bytes) (front rest : List Bytes) :
    rule.behind function register (front ++ rest) =
      rule.behind function (rule.behind function register front) rest :=
  List.foldl_append

theorem text_append (register : Bytes) (front rest : List Bytes) :
    rule.text function register (front ++ rest) =
      rule.text function register front ++
        rule.text function (rule.behind function register front) rest := by
  induction front generalizing register with
  | nil => rfl
  | cons segment front ih =>
      have tail := ih (rule.follow function register segment)
      rw [List.cons_append, text, tail, text, List.append_assoc]
      rfl

theorem piece_length (register segment : Bytes) (short : segment.length ≤ size) :
    (Bytes.xor segment (Block.onBytes function register)).length = segment.length := by
  rw [Bytes.xor_length, Block.on_bytes_length, Nat.min_eq_left short]

theorem text_length (register input : Bytes) (width : Nat) (positive : 0 < width)
    (inside : width ≤ size) :
    (rule.text function register (Bytes.segments width input)).length = input.length := by
  induction input using Bytes.segments_induction width positive generalizing register with
  | none => rw [Bytes.segments_nil, text]
  | further input some ih =>
      have short : (input.take width).length ≤ size := by
        rw [List.length_take]
        omega
      rw [Bytes.segments_cons width input positive some, text, List.length_append, ih,
        piece_length function register _ short, ← List.length_append, List.take_append_drop]

-- The first piece and the others are found again as the first segment and the others are.
theorem first_piece (piece rest input : Bytes) (width : Nat)
    (first : piece.length = (input.take width).length)
    (others : rest.length = (input.drop width).length) :
    (piece ++ rest).take width = piece ∧ (piece ++ rest).drop width = rest := by
  rw [List.length_take] at first
  rw [List.length_drop] at others
  by_cases whole : width ≤ input.length
  · have full : piece.length = width := by omega
    exact ⟨List.take_left' full, List.drop_left' full⟩
  · have nothing : rest = [] := List.length_eq_zero_iff.mp (by omega)
    rw [nothing, List.append_nil]
    exact ⟨List.take_of_length_le (by omega), List.drop_eq_nil_of_le (by omega)⟩

theorem segments_piece (piece rest input : Bytes) (width : Nat) (positive : 0 < width)
    (some : input ≠ []) (first : piece.length = (input.take width).length)
    (others : rest.length = (input.drop width).length) :
    Bytes.segments width (piece ++ rest) = piece :: Bytes.segments width rest := by
  obtain ⟨front, back⟩ := first_piece piece rest input width first others
  have length : (piece ++ rest).length = input.length := by
    rw [List.length_append, first, others, ← List.length_append, List.take_append_drop]
  have something : piece ++ rest ≠ [] := by
    rw [← List.length_pos_iff, length]
    exact List.length_pos_iff.mpr some
  rw [Bytes.segments_cons width _ positive something, front, back]

/-- Each segment is added to the enciphered register that the segments before it leave. -/
theorem text_segment (register input : Bytes) (width : Nat) (positive : 0 < width)
    (inside : width ≤ size) (index : Nat) :
    ((rule.text function register (Bytes.segments width input)).drop (index * width)).take width =
      Bytes.xor ((input.drop (index * width)).take width)
        (Block.onBytes function (rule.registerAt function width register input index)) := by
  by_cases reached : index * width < input.length
  · have front := rule.text_length function register (input.take (index * width)) width positive
      inside
    have some : input.drop (index * width) ≠ [] := by
      rw [ne_eq, List.drop_eq_nil_iff]
      omega
    have short : ((input.drop (index * width)).take width).length ≤ size := by
      rw [List.length_take]
      omega
    rw [List.length_take_of_le (Nat.le_of_lt reached)] at front
    rw [Bytes.segments_split width input positive index (Nat.le_of_lt reached), text_append,
      List.drop_left' front, Bytes.segments_cons width _ positive some, text]
    exact (first_piece _ _ _ width (piece_length function _ _ short)
      (rule.text_length function _ _ width positive inside)).1
  · have written := rule.text_length function register input width positive inside
    rw [List.drop_eq_nil_of_le (by omega), List.drop_eq_nil_of_le (by omega), List.take_nil,
      Bytes.xor_nil]

end Text

section Runs
variable (function : Block size → Block size)

theorem step_answered (cipher : C) (register segment : Bytes) (exact : register.length = size)
    (answered : (BlockCipher.encryptBlock cipher register size).1 =
      .ok (function (Block.ofFront size register))) :
    rule.step cipher register segment =
      (.ok (segment.xor (Block.onBytes function register), rule.follow function register segment),
        (BlockCipher.encryptBlock cipher register size).2) := by
  subst exact
  rw [step]
  cases called : BlockCipher.encryptBlock cipher register register.length with
  | mk answer after =>
      rw [called] at answered
      cases answered
      rfl

theorem run_exact (cipher : C) (steady : Enciphers function cipher) (register : Bytes)
    (exact : register.length = size) (segments : List Bytes) :
    ∃ after, Enciphers function after ∧ rule.step.run cipher register segments =
      { produced := rule.text function register segments
        register := rule.behind function register segments
        cipher := after
        refusal := none } := by
  induction segments generalizing cipher register with
  | nil => exact ⟨cipher, steady, rfl⟩
  | cons segment rest ih =>
      obtain ⟨middle, between, answered⟩ := steady.call function cipher register exact
      have moved := rule.follow_length function register segment exact
      obtain ⟨after, kept, later⟩ := ih middle between _ moved
      have first := rule.step_answered function cipher register segment exact
        (congrArg Prod.fst answered)
      rw [answered] at first
      refine ⟨after, kept, ?_⟩
      rw [SegmentStep.run, first]
      simp only [later]
      rfl

/-- What a run over a whole input leaves to its caller. -/
structure Leaves (width : Nat) (register input : Bytes) (call : Progress C) : Prop where
  finished : call.refusal = none
  steady : Enciphers function call.cipher
  next : call.register = rule.behind function register (Bytes.segments width input)
  produced : call.produced = rule.text function register (Bytes.segments width input)

theorem run_leaves (cipher : C) (steady : Enciphers function cipher) (register input : Bytes)
    (exact : register.length = size) (width : Nat) :
    rule.Leaves function width register input
      (rule.step.run cipher register (Bytes.segments width input)) := by
  obtain ⟨after, kept, run⟩ :=
    rule.run_exact function cipher steady register exact (Bytes.segments width input)
  rw [run]
  exact ⟨rfl, kept, rfl, rfl⟩

theorem Leaves.output {width : Nat} {register input : Bytes} {call : Progress C}
    (leaves : rule.Leaves function width register input call) (positive : 0 < width)
    (inside : width ≤ size) (buffer : Bytes) (fits : input.length ≤ buffer.length) :
    call.output buffer =
      rule.text function register (Bytes.segments width input) ++ buffer.drop input.length := by
  have written := rule.text_length function register input width positive inside
  rw [← written] at fits ⊢
  rw [Progress.output, leaves.produced]
  exact Bytes.overlay_fitting buffer _ fits

theorem run_stopped (cause : Error) (cipher : C) (register : Bytes) (exact : register.length = size)
    (front rest : List Bytes) (segment : Bytes)
    (broken : BreaksOff function cause (rule.behind function register front) cipher
      ((List.range front.length).map fun count =>
        rule.behind function register (front.take count))) :
    ∃ after, rule.step.run cipher register (front ++ segment :: rest) =
      { produced := rule.text function register front
        register := rule.behind function register front
        cipher := after
        refusal := some cause } := by
  -- The cipher answers for the registers in front, and their list shrinks with the segments.
  induction front generalizing cipher register with
  | nil =>
      subst exact
      refine ⟨(BlockCipher.encryptBlock cipher register register.length).2, ?_⟩
      rw [List.nil_append, SegmentStep.run, step]
      change (BlockCipher.encryptBlock cipher register register.length).1 = _ at broken
      cases called : BlockCipher.encryptBlock cipher register register.length with
      | mk answer after =>
          rw [called] at broken
          cases broken
          rfl
  | cons first front ih =>
      have registers : (List.range (first :: front).length).map
            (fun count => rule.behind function register ((first :: front).take count)) =
          register :: (List.range front.length).map fun count =>
            rule.behind function (rule.follow function register first) (front.take count) := by
        rw [List.length_cons, List.range_succ_eq_map, List.map_cons, List.map_map]
        rfl
      rw [registers] at broken
      obtain ⟨answered, broken⟩ := broken
      have moved := rule.follow_length function register first exact
      obtain ⟨after, later⟩ := ih _ _ moved broken
      have begun := rule.step_answered function cipher register first exact answered
      refine ⟨after, ?_⟩
      rw [List.cons_append, SegmentStep.run, begun]
      simp only [later]
      rfl

theorem run_stopped_at (cause : Error) (cipher : C) (register input : Bytes)
    (exact : register.length = size) (width : Nat) (positive : 0 < width) (answered : Nat)
    (reached : answered * width < input.length)
    (broken : BreaksOff function cause (rule.registerAt function width register input answered)
      cipher ((List.range answered).map (rule.registerAt function width register input))) :
    ∃ after, rule.step.run cipher register (Bytes.segments width input) =
      { produced := rule.text function register
          (Bytes.segments width (input.take (answered * width)))
        register := rule.registerAt function width register input answered
        cipher := after
        refusal := some cause } := by
  -- The cipher is asked for one register after the other, so a refusal is met at the segment
  -- whose register it refuses.
  have front : (Bytes.segments width (input.take (answered * width))).length = answered :=
    Bytes.segments_front width input positive answered (Nat.le_of_lt reached)
  have some : input.drop (answered * width) ≠ [] := by
    rw [ne_eq, List.drop_eq_nil_iff]
    omega
  have asked : (List.range answered).map (rule.registerAt function width register input) =
      (List.range answered).map fun count => rule.behind function register
        ((Bytes.segments width (input.take (answered * width))).take count) := by
    apply List.map_congr_left
    intro count member
    have earlier : count * width ≤ answered * width :=
      Nat.mul_le_mul_right width (Nat.le_of_lt (List.mem_range.mp member))
    rw [registerAt, Bytes.segments_take width _ positive count
      (by rw [List.length_take]; omega), List.take_take, Nat.min_eq_left earlier]
  rw [Bytes.segments_split width input positive answered (Nat.le_of_lt reached),
    Bytes.segments_cons width _ positive some]
  apply rule.run_stopped function cause cipher register exact
  rw [front, ← asked]
  exact broken

end Runs

end RegisterRule

end SymmetricKey
