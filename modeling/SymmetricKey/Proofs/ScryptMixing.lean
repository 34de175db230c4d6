import SymmetricKey.Derivation.Scrypt
import SymmetricKey.Proofs.SalsaStandard
import Mathlib.Data.List.Basic

/-!
The mixing of one lane as RFC 7914 has it, on strings of bytes that are never
overwritten, and the stirring of a lane of blocks in place. The stirred blocks
take up all of the room, so nothing is left of what stood there.
-/

namespace SymmetricKey.Derivation.Scrypt

def blockOf (lane : Bytes) (index : Nat) : Bytes := (lane.drop (64 * index)).take 64

section Reference
variable (width : Nat)

/-- The last block, and from it on the sum with one block after the other, each time put through
the core of eight rounds. -/
def reachedText (lane : Bytes) : Nat → Bytes
  | 0 => blockOf lane (2 * width - 1)
  | count + 1 => SalsaBlock.standardCore 4 (Bytes.xor (reachedText lane count) (blockOf lane count))

/-- What the first, third, fifth block and so on leads to, and then what the others lead to. -/
def blockMix (lane : Bytes) : Bytes :=
  ((List.range width).flatMap fun index => reachedText width lane (2 * index + 1)) ++
    (List.range width).flatMap fun index => reachedText width lane (2 * index + 2)

def integerify (lane : Bytes) : Nat := LittleEndian.number (blockOf lane (2 * width - 1))

def roMix (cost : Nat) (lane : Bytes) : Bytes :=
  let kept (index : Nat) : Bytes := (blockMix width)^[index] lane
  (fun next => blockMix width (Bytes.xor next (kept (integerify width next % cost))))^[cost]
  (kept cost)

end Reference

def reached (lane : Lane) : Nat → SalsaBlock
  | 0 => lane.getLastD zeroBlock
  | count + 1 => SalsaBlock.core coreRounds
      (Vector.zipWith (· ^^^ ·) (reached lane count) (lane.getD count zeroBlock))

def stirred (width : Nat) (lane : Lane) : Lane :=
  ((List.range width).map fun index => reached lane (2 * index + 1)) ++
    (List.range width).map fun index => reached lane (2 * index + 2)

def source (width place : Nat) : Nat :=
  if place < width then 2 * place else 2 * (place - width) + 1

theorem target_source (width place index : Nat) (inside : index < 2 * width) :
    index / 2 + index % 2 * width = place ↔ source width place = index := by
  rw [source]
  rcases Nat.mod_two_eq_zero_or_one index with even | odd
  · rw [even, Nat.zero_mul]
    split <;> omega
  · rw [odd, Nat.one_mul]
    split <;> omega

theorem source_inside (width place : Nat) (inside : place < 2 * width) :
    source width place < 2 * width := by
  rw [source]
  split <;> omega

theorem stir_blocks_length (half index : Nat) (last : SalsaBlock) (blocks room : Lane) :
    (stirBlocks half index last blocks room).length = room.length := by
  induction blocks generalizing index last room with
  | nil => rfl
  | cons block blocks ih => rw [stirBlocks, ih, List.length_set]

theorem stir_blocks_at (width : Nat) (lane : Lane) (whole : lane.length = 2 * width)
    (index : Nat) (blocks : Lane) (rest : lane.drop index = blocks) (room : Lane)
    (wide : room.length = 2 * width) (place : Nat) (inside : place < 2 * width) :
    (stirBlocks width index (reached lane index) blocks room)[place]? =
      if index ≤ source width place then some (reached lane (source width place + 1))
      else room[place]? := by
  -- A place is written once its block has been reached.
  induction blocks generalizing index room with
  | nil =>
      have short : lane.length ≤ index := List.drop_eq_nil_iff.mp rest
      have none := source_inside width place inside
      rw [stirBlocks, if_neg (by omega)]
  | cons block blocks ih =>
      have some : index < lane.length := by
        by_contra past
        rw [List.drop_eq_nil_of_le (by omega)] at rest
        cases rest
      rw [List.drop_eq_getElem_cons some] at rest
      obtain ⟨first, others⟩ := List.cons.inj rest
      have next : SalsaBlock.core coreRounds (Vector.zipWith (· ^^^ ·) (reached lane index) block) =
          reached lane (index + 1) := by
        rw [reached, List.getD_eq_getElem _ _ some, first]
      rw [stirBlocks, next, ih (index + 1) others _ (by rw [List.length_set, wide]),
        List.getElem?_set]
      have meets := target_source width place index (by omega)
      by_cases here : source width place = index
      · have target := meets.mpr here
        rw [if_neg (by omega), if_pos target, if_pos (by omega), if_pos here.ge, here]
      · have other : ¬index / 2 + index % 2 * width = place := fun same => here (meets.mp same)
        rw [if_neg other]
        by_cases later : index ≤ source width place
        · rw [if_pos (by omega), if_pos later]
        · rw [if_neg (by omega), if_neg later]

theorem stirred_length (width : Nat) (lane : Lane) : (stirred width lane).length = 2 * width := by
  rw [stirred, List.length_append, List.length_map, List.length_map, List.length_range]
  omega

theorem stirred_at (width : Nat) (lane : Lane) (place : Nat) (inside : place < 2 * width) :
    (stirred width lane)[place]? = some (reached lane (source width place + 1)) := by
  rw [stirred, source]
  by_cases front : place < width
  · rw [List.getElem?_append_left (by rwa [List.length_map, List.length_range]), List.getElem?_map,
      List.getElem?_range front, if_pos front]
    rfl
  · rw [List.getElem?_append_right (by rw [List.length_map, List.length_range]; omega),
      List.length_map, List.length_range, List.getElem?_map, List.getElem?_range (by omega),
      if_neg front]
    rfl

theorem stir_blocks_exact (width : Nat) (lane : Lane) (whole : lane.length = 2 * width)
    (room : Lane) (wide : room.length = 2 * width) :
    stirBlocks width 0 (lane.getLastD zeroBlock) lane room = stirred width lane := by
  -- Nothing is left of what was in the room.
  apply List.ext_getElem?
  intro place
  by_cases inside : place < 2 * width
  · have written := stir_blocks_at width lane whole 0 lane rfl room wide place inside
    rw [if_pos (Nat.zero_le _), reached] at written
    rw [written, stirred_at width lane place inside]
  · rw [List.getElem?_eq_none (by rw [stir_blocks_length]; omega),
      List.getElem?_eq_none (by rw [stirred_length]; omega)]

theorem stir_exact (width : Nat) (memory : Memory) (whole : memory.lane.length = 2 * width)
    (wide : memory.room.length = 2 * width) :
    memory.stir =
      { memory with lane := stirred width memory.lane, room := stirred width memory.lane } := by
  have half : memory.lane.length / 2 = width := by omega
  rw [Memory.stir, half, stir_blocks_exact width _ whole _ wide]

theorem Lane.text_length (lane : Lane) : lane.toBytes.length = lane.length * 64 :=
  Bytes.flat_length _ 64 SalsaBlock.to_bytes_length lane

theorem Lane.xor_length (left right : Lane) :
    (left.xor right).length = min left.length right.length := List.length_zipWith

theorem Lane.xor_text (left right : Lane) :
    (left.xor right).toBytes = Bytes.xor left.toBytes right.toBytes :=
  Bytes.flat_xor _ _ SalsaBlock.xor_text 64 SalsaBlock.to_bytes_length left right

theorem Lane.of_bytes_text (bytes : Bytes) (count : Nat) (aligned : bytes.length = count * 64) :
    (Lane.ofBytes bytes).toBytes = bytes ∧ (Lane.ofBytes bytes).length = count := by
  have blocks : (Bytes.completeBlocks 64 bytes).1 = Bytes.wholeBlocks 64 bytes := by
    rw [Bytes.complete_blocks_exact 64 bytes (by decide)]
  have text : (Lane.ofBytes bytes).toBytes = bytes := by
    rw [Lane.toBytes, Lane.ofBytes, blocks, List.flatMap_map,
      ← Bytes.segments_whole 64 bytes (by decide) count aligned]
    have kept :
        (Bytes.segments 64 bytes).flatMap (fun block => (SalsaBlock.ofBytes block).toBytes) =
        (Bytes.segments 64 bytes).flatMap fun block => block := by
      apply List.flatMap_congr
      intro block member
      exact SalsaBlock.of_bytes_to_bytes block
        (Bytes.segments_aligned 64 bytes (by decide) count aligned block member)
    rw [kept, List.flatMap_id', Bytes.segments_flatten 64 bytes (by decide)]
  have width := Lane.text_length (Lane.ofBytes bytes)
  rw [text, aligned] at width
  exact ⟨text, by omega⟩

theorem block_of_text (lane : Lane) (index : Nat) (inside : index < lane.length) :
    blockOf lane.toBytes index = (lane.getD index zeroBlock).toBytes := by
  rw [List.getD_eq_getElem _ _ inside]
  exact Bytes.flat_piece _ 64 SalsaBlock.to_bytes_length lane index _
    (List.getElem?_eq_getElem inside)

section Texts
variable (width : Nat) (positive : 0 < width) (lane : Lane) (whole : lane.length = 2 * width)
include positive whole

theorem last_block_text :
    blockOf lane.toBytes (2 * width - 1) = (lane.getLastD zeroBlock).toBytes := by
  rw [block_of_text lane _ (by omega), List.getLastD_eq_getLast?, List.getLast?_eq_getElem?,
    List.getD_eq_getElem?_getD, whole]

theorem reached_text (count : Nat) (most : count ≤ 2 * width) :
    (reached lane count).toBytes = reachedText width lane.toBytes count := by
  induction count with
  | zero => rw [reached, reachedText, last_block_text width positive lane whole]
  | succ count ih =>
      rw [reached, SalsaBlock.core_text, SalsaBlock.xor_text, ih (by omega), reachedText,
        block_of_text lane count (by omega)]
      rfl

theorem stirred_text : (stirred width lane).toBytes = blockMix width lane.toBytes := by
  have side : ∀ behind, behind ≤ 2 →
      ((List.range width).flatMap fun index => (reached lane (2 * index + behind)).toBytes) =
        (List.range width).flatMap fun index =>
          reachedText width lane.toBytes (2 * index + behind) := by
    intro behind few
    apply List.flatMap_congr
    intro index member
    have inside := List.mem_range.mp member
    exact reached_text width positive lane whole _ (by omega)
  rw [Lane.toBytes, stirred, List.flatMap_append, List.flatMap_map, List.flatMap_map,
    side 1 (by decide), side 2 (by decide), blockMix]

omit positive in
theorem stirred_iterate_length (count : Nat) :
    ((stirred width)^[count] lane).length = 2 * width := by
  cases count with
  | zero => exact whole
  | succ count => rw [Function.iterate_succ_apply', stirred_length]

theorem stirred_iterate_text (count : Nat) :
    ((stirred width)^[count] lane).toBytes = (blockMix width)^[count] lane.toBytes := by
  induction count with
  | zero => rfl
  | succ count ih =>
      rw [Function.iterate_succ_apply', Function.iterate_succ_apply',
        stirred_text width positive _ (stirred_iterate_length width lane whole count), ih]

end Texts

end SymmetricKey.Derivation.Scrypt
