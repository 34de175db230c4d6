import SymmetricKey.Proofs.CheckedRanges
import SymmetricKey.Proofs.ScryptMixing

/-!
The mixing of a lane in a machine's buffers. The kept values, the lane and the room are
words in a row, and each step takes the ranges it needs of them. As long as the buffers
have the sizes that were asked for, no range is outside, whatever is in them.
-/

namespace SymmetricKey.Derivation.Scrypt

structure MixBuffers where
  kept : List UInt32
  lane : List UInt32
  room : List UInt32

namespace MixBuffers

def added (target source : List UInt32) : List UInt32 :=
  List.zipWith (· ^^^ ·) target source ++ target.drop source.length

def arrayOf (words : List UInt32) : Checked SalsaBlock :=
  if words.length = 16 then .ok (SalsaBlock.ofWords words) else .error .uneven

def mixBlocks (lane : List UInt32) (half : Nat) :
    Nat → Nat → SalsaBlock → List UInt32 → Checked (List UInt32)
  | 0, _, _, room => .ok room
  | left + 1, index, last, room => do
      let behind ← Checked.add index 1
      let first ← Checked.multiply index 16
      let reach ← Checked.multiply behind 16
      let block ← Checked.range lane first reach
      let next := SalsaBlock.core coreRounds (SalsaBlock.ofWords (added last.toList block))
      let side ← Checked.multiply (index % 2) half
      let place ← Checked.add (index / 2) side
      let target ← Checked.multiply place 16
      let targetReach ← Checked.add target 16
      let written ← Checked.overwrite room target targetReach next.toList
      mixBlocks lane half left behind next written

def stir (buffers : MixBuffers) : Checked MixBuffers := do
  let blocks := buffers.lane.length / 16
  let before ← Checked.subtract blocks 1
  let first ← Checked.multiply before 16
  let block ← Checked.range buffers.lane first buffers.lane.length
  let last ← arrayOf block
  let room ← mixBlocks buffers.lane (blocks / 2) blocks 0 last buffers.room
  let lane ← Checked.overwrite buffers.lane 0 buffers.lane.length room
  .ok { buffers with lane, room }

def placeOf (cost : UInt64) (lane : List UInt32) : Checked UInt64 := do
  let lower ← Checked.subtract lane.length 16
  let upper ← Checked.add lower 1
  let high ← Checked.itemAt lane upper
  let low ← Checked.itemAt lane lower
  let mask ← Checked.subtract cost.toNat 1
  .ok (((high.toUInt64 <<< 32) ||| low.toUInt64) &&& UInt64.ofNat mask)

-- The pieces of the kept values from `index` on take the lane in.
def keepLanes (words : Nat) : Nat → Nat → MixBuffers → Checked MixBuffers
  | 0, _, buffers => .ok buffers
  | left + 1, index, buffers => do
      let kept ← Checked.overwrite buffers.kept (index * words) ((index + 1) * words) buffers.lane
      let next ← stir { buffers with kept }
      keepLanes words left (index + 1) next

def lookUp (cost : UInt64) (words : Nat) (buffers : MixBuffers) : Checked MixBuffers := do
  let place ← placeOf cost buffers.lane
  let behind ← Checked.add place.toNat 1
  let first ← Checked.multiply place.toNat words
  let reach ← Checked.multiply behind words
  let value ← Checked.range buffers.kept first reach
  stir { buffers with lane := added buffers.lane value }

def lookUps (cost : UInt64) (words : Nat) : Nat → MixBuffers → Checked MixBuffers
  | 0, buffers => .ok buffers
  | count + 1, buffers => do
      let before ← lookUps cost words count buffers
      lookUp cost words before

def loadWord (bytes : Bytes) : Checked UInt32 := do
  let first ← Checked.itemAt bytes 0
  let second ← Checked.itemAt bytes 1
  let third ← Checked.itemAt bytes 2
  let fourth ← Checked.itemAt bytes 3
  .ok (LittleEndian.word first second third fourth)

def loadWords (bytes : Bytes) : Nat → Nat → Checked (List UInt32)
  | 0, _ => .ok []
  | left + 1, index => do
      let first ← Checked.multiply 4 index
      let rest ← Checked.range bytes first bytes.length
      let word ← loadWord rest
      let words ← loadWords bytes left (index + 1)
      .ok (word :: words)

def storeWords : List UInt32 → Nat → Bytes → Checked Bytes
  | [], _, bytes => .ok bytes
  | word :: words, index, bytes => do
      let first ← Checked.multiply 4 index
      let reach ← Checked.add first 4
      let stored ← Checked.overwrite bytes first reach (LittleEndian.bytes32 word)
      storeWords words (index + 1) stored

/-- The lane of the given bytes once it is mixed, and what is left in the kept values and in the
two halves of the scratch memory. -/
def mixLane (cost : UInt64) (bytes : Bytes) (kept scratch : List UInt32) :
    Checked (Bytes × List UInt32 × List UInt32) := do
  let words := bytes.length / 4
  let front ← Checked.range scratch 0 words
  let room ← Checked.range scratch words scratch.length
  let lane ← loadWords bytes front.length 0
  let count ← Checked.quotient kept.length words
  let filled ← keepLanes words count 0 { kept, lane, room }
  let mixed ← lookUps cost words cost.toNat filled
  let stored ← storeWords mixed.lane 0 bytes
  .ok (stored, mixed.kept, mixed.lane ++ mixed.room)

def wordsOf (lane : Lane) : List UInt32 := lane.flatMap Vector.toList

def ofMemory (memory : Memory) : MixBuffers :=
  { kept := memory.kept.toList.flatMap wordsOf
    lane := wordsOf memory.lane
    room := wordsOf memory.room }

theorem words_length (lane : Lane) : (wordsOf lane).length = lane.length * 16 :=
  Checked.row_length _ 16 lane fun _ _ => Vector.length_toList

theorem array_of_block (block : SalsaBlock) : arrayOf block.toList = .ok block := by
  have whole : block.toList.length = 16 := Vector.length_toList
  have same : SalsaBlock.ofWords block.toList = block :=
    Vector.toList_inj.mp (SalsaBlock.of_words_list _ whole)
  rw [arrayOf, if_pos whole, same]

theorem added_even (target source : List UInt32) (even : target.length = source.length) :
    added target source = List.zipWith (· ^^^ ·) target source := by
  rw [added, ← even, List.drop_length, List.append_nil]

theorem added_block (left right : SalsaBlock) :
    SalsaBlock.ofWords (added left.toList right.toList) = Vector.zipWith (· ^^^ ·) left right := by
  have even : left.toList.length = right.toList.length := by
    rw [Vector.length_toList, Vector.length_toList]
  apply Vector.toList_inj.mp
  rw [added_even _ _ even, ← Vector.toList_zipWith, SalsaBlock.of_words_list _ Vector.length_toList]

theorem added_lane (left right : Lane) (even : left.length = right.length) :
    added (wordsOf left) (wordsOf right) = wordsOf (left.xor right) := by
  rw [added_even _ _ (by rw [words_length, words_length, even])]
  induction left generalizing right with
  | nil => rfl
  | cons block left ih =>
      cases right with
      | nil => cases even
      | cons other right =>
          have rest := ih right (Nat.succ.inj even)
          have wide : block.toList.length = other.toList.length := by
            rw [Vector.length_toList, Vector.length_toList]
          simp only [wordsOf, Lane.xor, List.flatMap_cons, List.zipWith_cons_cons] at rest ⊢
          rw [List.zipWith_append wide, rest, Vector.toList_zipWith]

section Stirring
variable {width : Nat} (narrow : 32 * width < 2 ^ 64)
include narrow

theorem mix_blocks_follow (lane : Lane) (whole : lane.length = 2 * width) (blocks : Lane)
    (index : Nat) (rest : lane.drop index = blocks) (last : SalsaBlock) (room : Lane)
    (wide : room.length = 2 * width) :
    mixBlocks (wordsOf lane) width blocks.length index last (wordsOf room) =
      .ok (wordsOf (stirBlocks width index last blocks room)) := by
  induction blocks generalizing index last room with
  | nil => rfl
  | cons block blocks ih =>
      have some : index < lane.length := by
        by_contra past
        rw [List.drop_eq_nil_of_le (by omega)] at rest
        cases rest
      rw [List.drop_eq_getElem_cons some] at rest
      obtain ⟨first, others⟩ := List.cons.inj rest
      -- Even places go to the first half of the room and odd ones to the second.
      have inside : index / 2 + index % 2 * width < 2 * width := by
        rcases Nat.mod_two_eq_zero_or_one index with even | odd
        · rw [even, Nat.zero_mul]
          omega
        · rw [odd, Nat.one_mul]
          omega
      have taken :=
        Checked.row_range Vector.toList 16 lane (fun _ _ => Vector.length_toList) index some
      have written := Checked.row_overwrite Vector.toList 16 room (fun _ _ => Vector.length_toList)
        (index / 2 + index % 2 * width) (by omega)
        (SalsaBlock.core coreRounds (Vector.zipWith (· ^^^ ·) last block)) Vector.length_toList
      rw [Nat.succ_mul (index / 2 + index % 2 * width)] at written
      generalize target : index / 2 + index % 2 * width = place at inside written
      have side : index % 2 * width ≤ place := by omega
      rw [List.length_cons, mixBlocks, Checked.add_within _ _ (by omega), Checked.ok_bind,
        Checked.multiply_within _ _ (by omega), Checked.ok_bind,
        Checked.multiply_within _ _ (by omega), Checked.ok_bind, wordsOf, taken, Checked.ok_bind,
        Checked.multiply_within _ _ (by omega), Checked.ok_bind, Checked.add_within _ _ (by omega),
        Checked.ok_bind, target, Checked.multiply_within _ _ (by omega), Checked.ok_bind,
        Checked.add_within _ _ (by omega), Checked.ok_bind, added_block, first, wordsOf, written,
        Checked.ok_bind, stirBlocks, target]
      exact ih (index + 1) others _ _ (by rw [List.length_set, wide])

end Stirring

/-- All lanes of a memory have the size that was asked for. -/
structure Sized (width cost : Nat) (memory : Memory) : Prop where
  lane : memory.lane.length = 2 * width
  room : memory.room.length = 2 * width
  count : memory.kept.size = cost
  kept : ∀ lane ∈ memory.kept.toList, lane.length = 2 * width

section Steps
variable {width cost : Nat} {memory : Memory} (positive : 0 < width) (narrow : 32 * width < 2 ^ 64)

theorem Sized.stir (sized : Sized width cost memory) : Sized width cost memory.stir := by
  have wide (half index : Nat) (last : SalsaBlock) (blocks : Lane) :
      (stirBlocks half index last blocks memory.room).length = 2 * width := by
    rw [stir_blocks_length, sized.room]
  exact ⟨wide _ _ _ _, wide _ _ _ _, sized.count, sized.kept⟩

theorem Sized.lane_words (sized : Sized width cost memory) :
    (wordsOf memory.lane).length = 32 * width := by
  rw [words_length, sized.lane]
  omega

theorem Sized.kept_words (sized : Sized width cost memory) :
    ∀ lane ∈ memory.kept.toList, (wordsOf lane).length = 32 * width := by
  intro lane member
  rw [words_length, sized.kept lane member]
  omega

theorem Sized.lengths (sized : Sized width cost memory) :
    (ofMemory memory).kept.length = cost * (32 * width) ∧
      ((ofMemory memory).lane ++ (ofMemory memory).room).length = 64 * width := by
  constructor
  · rw [ofMemory, Checked.row_length wordsOf _ _ sized.kept_words, Array.length_toList, sized.count]
  · rw [ofMemory, List.length_append, words_length, words_length, sized.lane, sized.room]
    omega

include positive in
theorem last_block_words (lane : Lane) (whole : lane.length = 2 * width) :
    ∃ front, wordsOf lane = front ++ (lane.getLastD zeroBlock).toList ∧
      front.length = (2 * width - 1) * 16 := by
  have final : 2 * width - 1 < lane.length := by omega
  have block : lane[2 * width - 1] = lane.getLastD zeroBlock := by
    rw [List.getLastD_eq_getLast?, List.getLast?_eq_getElem?, whole, List.getElem?_eq_getElem final]
    rfl
  obtain ⟨parted, front, -⟩ := Checked.row_parted Vector.toList 16 lane
    (fun _ _ => Vector.length_toList) _ final
  rw [List.drop_eq_nil_of_le (by omega), List.flatMap_nil, List.append_nil, block] at parted
  exact ⟨_, parted, front⟩

include positive narrow in
theorem stir_follows (sized : Sized width cost memory) :
    stir (ofMemory memory) = .ok (ofMemory memory.stir) := by
  have whole := sized.lane
  have length : (wordsOf memory.lane).length = 2 * width * 16 := by rw [words_length, whole]
  have blocks : (wordsOf memory.lane).length / 16 = 2 * width := by omega
  have half : 2 * width / 2 = width := by omega
  obtain ⟨front, parted, before⟩ := last_block_words positive memory.lane whole
  have taken :
      Checked.range (wordsOf memory.lane) ((2 * width - 1) * 16) (wordsOf memory.lane).length =
      .ok (memory.lane.getLastD zeroBlock).toList := by
    have range := Checked.range_parted front (memory.lane.getLastD zeroBlock).toList []
    rw [List.append_nil, ← parted, ← List.length_append, ← parted, before] at range
    exact range
  have mixed := mix_blocks_follow narrow memory.lane whole memory.lane 0 rfl
    (memory.lane.getLastD zeroBlock) memory.room sized.room
  have even :
      (wordsOf
        (stirBlocks width 0 (memory.lane.getLastD zeroBlock) memory.lane memory.room)).length =
      (wordsOf memory.lane).length := by
    rw [words_length, words_length, stir_blocks_length, sized.room, whole]
  rw [whole] at mixed
  simp only [stir, ofMemory, blocks, half]
  rw [Checked.subtract_within _ _ (by omega), Checked.ok_bind,
    Checked.multiply_within _ _ (by omega), Checked.ok_bind, taken, Checked.ok_bind, array_of_block,
    Checked.ok_bind, mixed, Checked.ok_bind, Checked.overwrite_all _ _ even, Checked.ok_bind,
    Memory.stir, whole, half]

theorem place_below (cost : UInt64) (some : 1 ≤ cost.toNat) (lane : Lane) :
    (Scrypt.placeOf cost lane).toNat < cost.toNat := by
  have least : (1 : UInt64) ≤ cost := UInt64.le_iff_toNat_le.mpr some
  have most : (Scrypt.placeOf cost lane).toNat ≤ cost.toNat - 1 := by
    rw [Scrypt.placeOf, UInt64.toNat_and, UInt64.toNat_sub_of_le _ _ least]
    exact Nat.and_le_right
  omega

include positive narrow in
theorem place_follows (cost : UInt64) (some : 1 ≤ cost.toNat) (lane : Lane)
    (whole : lane.length = 2 * width) :
    placeOf cost (wordsOf lane) = .ok (Scrypt.placeOf cost lane) := by
  obtain ⟨front, parted, before⟩ := last_block_words positive lane whole
  have length : (wordsOf lane).length = 2 * width * 16 := by rw [words_length, whole]
  have lower : (wordsOf lane).length - 16 = front.length := by omega
  have item (index : Fin 16) : Checked.itemAt (wordsOf lane) (front.length + index.val) =
      .ok ((lane.getLastD zeroBlock).get index) := by
    apply Checked.item_within
    rw [parted, List.getElem?_append_right (Nat.le_add_right _ _), Nat.add_sub_cancel_left,
      List.getElem?_eq_getElem (by rw [Vector.length_toList]; exact index.isLt)]
    rfl
  have high : Checked.itemAt (wordsOf lane) (front.length + 1) =
      .ok ((lane.getLastD zeroBlock).get 1) := item 1
  have low : Checked.itemAt (wordsOf lane) front.length = .ok ((lane.getLastD zeroBlock).get 0) :=
    item 0
  have mask : UInt64.ofNat (cost.toNat - 1) = cost - 1 := by
    have least : (1 : UInt64) ≤ cost := UInt64.le_iff_toNat_le.mpr some
    have bound := cost.toNat_lt
    apply UInt64.toNat_inj.mp
    rw [UInt64.toNat_sub_of_le _ _ least, UInt64.toNat_ofNat']
    exact Nat.mod_eq_of_lt (by omega)
  rw [placeOf, Checked.subtract_within _ _ (by omega), Checked.ok_bind, lower,
    Checked.add_within _ _ (by omega), Checked.ok_bind, high, Checked.ok_bind, low, Checked.ok_bind,
    Checked.subtract_within _ _ some, Checked.ok_bind, mask, UInt64.or_comm]
  rfl

theorem Sized.keep (sized : Sized width cost memory) (place : Nat) :
    Sized width cost { memory with kept := memory.kept.setIfInBounds place memory.lane } := by
  refine ⟨sized.lane, sized.room, by rw [Array.size_setIfInBounds, sized.count],
    fun lane member => ?_⟩
  rw [Array.toList_setIfInBounds] at member
  rcases List.mem_or_eq_of_mem_set member with before | new
  · exact sized.kept lane before
  · rw [new, sized.lane]

include positive narrow in
theorem keep_follows (sized : Sized width cost memory) (left index : Nat)
    (all : index + left = cost) :
    keepLanes (32 * width) left index (ofMemory memory) =
        .ok (ofMemory ((List.range' index left).foldl Memory.keep memory)) ∧
      Sized width cost ((List.range' index left).foldl Memory.keep memory) := by
  -- All pieces in front of `index` are kept; the sizes carry the ranges on.
  induction left generalizing index memory with
  | zero => exact ⟨rfl, sized⟩
  | succ left ih =>
      have inside : index < memory.kept.toList.length := by
        rw [Array.length_toList, sized.count]
        omega
      have written :=
        Checked.row_overwrite wordsOf (32 * width) memory.kept.toList sized.kept_words index
          inside memory.lane sized.lane_words
      rw [← Array.toList_setIfInBounds] at written
      have kept := sized.keep index
      have stirred := stir_follows positive narrow kept
      obtain ⟨later, last⟩ := ih kept.stir (index + 1) (by omega)
      rw [List.range'_succ, List.foldl_cons]
      refine ⟨?_, last⟩
      simp only [keepLanes, ofMemory] at written stirred ⊢
      rw [written, Checked.ok_bind, stirred, Checked.ok_bind]
      exact later

theorem Sized.found (sized : Sized width cost memory) (place : Nat) (inside : place < cost) :
    ∃ there : place < memory.kept.toList.length,
      memory.kept.toList[place] = memory.kept.getD place [] ∧
        (memory.kept.getD place []).length = 2 * width := by
  have there : place < memory.kept.toList.length := by rwa [Array.length_toList, sized.count]
  have value : memory.kept.toList[place] = memory.kept.getD place [] := by
    rw [Array.getD_eq_getD_getElem?, ← Array.getElem?_toList, List.getElem?_eq_getElem there]
    rfl
  exact ⟨there, value, value ▸ sized.kept _ (List.getElem_mem there)⟩

include positive narrow in
theorem look_up_follows {cost : UInt64} (some : 1 ≤ cost.toNat)
    (fits : cost.toNat * (32 * width) < 2 ^ 64) (sized : Sized width cost.toNat memory) :
    lookUp cost (32 * width) (ofMemory memory) = .ok (ofMemory (Scrypt.lookUp cost memory)) ∧
      Sized width cost.toNat (Scrypt.lookUp cost memory) := by
  -- The place is below the cost, so the range that it selects is inside.
  have below := place_below cost some memory.lane
  have bound := cost.toNat_lt
  have place := place_follows positive narrow cost some memory.lane sized.lane
  obtain ⟨there, value, whole⟩ := sized.found _ below
  have reach : ((Scrypt.placeOf cost memory.lane).toNat + 1) * (32 * width) < 2 ^ 64 :=
    (Nat.mul_le_mul_right _ below).trans_lt fits
  have start : (Scrypt.placeOf cost memory.lane).toNat * (32 * width) < 2 ^ 64 :=
    (Nat.mul_le_mul_right _ (Nat.le_succ _)).trans_lt reach
  have taken := Checked.row_range wordsOf (32 * width) memory.kept.toList sized.kept_words _ there
  rw [value] at taken
  have summed : Sized width cost.toNat
      { memory with
        lane := memory.lane.xor (memory.kept.getD (Scrypt.placeOf cost memory.lane).toNat []) } :=
    ⟨by rw [Lane.xor_length, sized.lane, whole, Nat.min_self], sized.room, sized.count, sized.kept⟩
  have stirred := stir_follows positive narrow summed
  refine ⟨?_, summed.stir⟩
  simp only [lookUp, ofMemory] at stirred ⊢
  rw [place, Checked.ok_bind, Checked.add_within _ _ (by omega), Checked.ok_bind,
    Checked.multiply_within _ _ start, Checked.ok_bind, Checked.multiply_within _ _ reach,
    Checked.ok_bind, taken, Checked.ok_bind, added_lane _ _ (by rw [sized.lane, whole])]
  exact stirred

include positive narrow in
theorem look_ups_follow {cost : UInt64} (some : 1 ≤ cost.toNat)
    (fits : cost.toNat * (32 * width) < 2 ^ 64) (sized : Sized width cost.toNat memory)
    (count : Nat) :
    lookUps cost (32 * width) count (ofMemory memory) =
        .ok (ofMemory (Nat.repeat (Scrypt.lookUp cost) count memory)) ∧
      Sized width cost.toNat (Nat.repeat (Scrypt.lookUp cost) count memory) := by
  induction count with
  | zero => exact ⟨rfl, sized⟩
  | succ count ih =>
      obtain ⟨before, between⟩ := ih
      obtain ⟨last, after⟩ := look_up_follows positive narrow some fits between
      refine ⟨?_, after⟩
      rw [lookUps, before, Checked.ok_bind, last]
      rfl

end Steps

theorem load_word_exact (word : UInt32) (rest : Bytes) :
    loadWord (LittleEndian.bytes32 word ++ rest) = .ok word :=
  congrArg Except.ok (LittleEndian.word_bytes word)

theorem load_words_exact (words : List UInt32) (front : Bytes) (index : Nat)
    (behind : front.length = 4 * index) (fits : 4 * (index + words.length) < 2 ^ 64) :
    loadWords (front ++ words.flatMap LittleEndian.bytes32) words.length index = .ok words := by
  induction words generalizing front index with
  | nil => rfl
  | cons word words ih =>
      rw [List.length_cons] at fits
      have taken := Checked.range_parted front ((word :: words).flatMap LittleEndian.bytes32) []
      rw [List.append_nil, ← List.length_append, behind] at taken
      have next := ih (front ++ LittleEndian.bytes32 word) (index + 1)
        (by rw [List.length_append, behind, Nat.mul_succ]; rfl) (by omega)
      rw [List.append_assoc, ← List.flatMap_cons] at next
      rw [List.length_cons, loadWords, Checked.multiply_within _ _ (by omega), Checked.ok_bind,
        taken, Checked.ok_bind, List.flatMap_cons, load_word_exact, Checked.ok_bind,
        ← List.flatMap_cons, next, Checked.ok_bind]

theorem store_words_exact (words : List UInt32) (front old : Bytes) (index : Nat)
    (behind : front.length = 4 * index) (room : old.length = 4 * words.length)
    (fits : 4 * (index + words.length) < 2 ^ 64) :
    storeWords words index (front ++ old) = .ok (front ++ words.flatMap LittleEndian.bytes32) := by
  induction words generalizing front old index with
  | nil =>
      have nothing : old = [] := List.length_eq_zero_iff.mp room
      rw [nothing]
      rfl
  | cons word words ih =>
      rw [List.length_cons] at fits room
      have here : (old.take 4).length = 4 := by
        rw [List.length_take]
        omega
      have written :=
        Checked.overwrite_parted front (old.take 4) (old.drop 4) (LittleEndian.bytes32 word)
          here.symm
      rw [List.append_assoc front, List.take_append_drop, behind, here] at written
      rw [storeWords, Checked.multiply_within _ _ (by omega), Checked.ok_bind,
        Checked.add_within _ _ (by omega), Checked.ok_bind, written, Checked.ok_bind,
        ih (front ++ LittleEndian.bytes32 word) (old.drop 4) (index + 1)
          (by rw [List.length_append, behind, Nat.mul_succ]; rfl)
          (by rw [List.length_drop]; omega) (by omega),
        List.flatMap_cons, List.append_assoc]

theorem text_of_words (lane : Lane) :
    (wordsOf lane).flatMap LittleEndian.bytes32 = lane.toBytes := by
  rw [wordsOf, List.flatMap_assoc]
  rfl

theorem lane_exists (width : Nat) (words : List UInt32) (whole : words.length = 32 * width) :
    ∃ lane : Lane, lane.length = 2 * width ∧ wordsOf lane = words := by
  obtain ⟨lane, count, -, same⟩ := Checked.row_exists Vector.toList 16 (fun _ : SalsaBlock => True)
    (fun block sixteen =>
      ⟨SalsaBlock.ofWords block, trivial, SalsaBlock.of_words_list block sixteen⟩)
    (2 * width) words (by omega)
  exact ⟨lane, count, same⟩

-- Buffers of the right sizes are the words of some memory, whatever is in them.
theorem memory_exists (width cost : Nat) (bytes : Bytes) (whole : bytes.length = 128 * width)
    (kept room : List UInt32) (keptWhole : kept.length = cost * (32 * width))
    (roomWhole : room.length = 32 * width) :
    ∃ memory : Memory, Sized width cost memory ∧ memory.lane = Lane.ofBytes bytes ∧
      (ofMemory memory).kept = kept ∧ (ofMemory memory).room = room := by
  obtain ⟨lanes, count, fit, keptSame⟩ := Checked.row_exists wordsOf (32 * width)
    (fun lane => lane.length = 2 * width) (lane_exists width) cost kept keptWhole
  obtain ⟨stand, wide, roomSame⟩ := lane_exists width room roomWhole
  obtain ⟨-, blocks⟩ := Lane.of_bytes_text bytes (2 * width) (by omega)
  exact ⟨⟨lanes.toArray, Lane.ofBytes bytes, stand⟩, ⟨blocks, wide, count, fit⟩, rfl, keptSame,
    roomSame⟩

theorem lane_read (width : Nat) (bytes : Bytes) (whole : bytes.length = 128 * width)
    (narrow : 128 * width < 2 ^ 64) :
    loadWords bytes (32 * width) 0 = .ok (wordsOf (Lane.ofBytes bytes)) := by
  obtain ⟨text, blocks⟩ := Lane.of_bytes_text bytes (2 * width) (by omega)
  have length : (wordsOf (Lane.ofBytes bytes)).length = 32 * width := by
    rw [words_length, blocks]
    omega
  have read := load_words_exact (wordsOf (Lane.ofBytes bytes)) [] 0 rfl (by omega)
  rw [text_of_words, text, length] at read
  exact read

theorem lane_stored {width cost : Nat} {memory : Memory} (sized : Sized width cost memory)
    (narrow : 128 * width < 2 ^ 64) (bytes : Bytes) (whole : bytes.length = 128 * width) :
    storeWords (wordsOf memory.lane) 0 bytes = .ok memory.lane.toBytes := by
  have length := sized.lane_words
  have written := store_words_exact (wordsOf memory.lane) [] bytes 0 rfl (by omega) (by omega)
  rw [text_of_words] at written
  exact written

theorem mix_lane_follows (width : Nat) (positive : 0 < width) (cost : UInt64)
    (some : 1 ≤ cost.toNat) (fits : cost.toNat * (32 * width) < 2 ^ 64) (bytes : Bytes)
    (whole : bytes.length = 128 * width) (narrow : 128 * width < 2 ^ 64)
    (kept scratch : List UInt32) (keptWhole : kept.length = cost.toNat * (32 * width))
    (scratchWhole : scratch.length = 64 * width) :
    ∃ memory : Memory, memory.kept.size = cost.toNat ∧ memory.room.length = 2 * width ∧
      ∃ keptAfter scratchAfter,
        mixLane cost bytes kept scratch = .ok ((Scrypt.mixLane cost memory bytes).1, keptAfter,
          scratchAfter) ∧
          (Scrypt.mixLane cost memory bytes).1.length = 128 * width ∧
          keptAfter.length = cost.toNat * (32 * width) ∧ scratchAfter.length = 64 * width := by
  obtain ⟨memory, sized, lane, keptSame, roomSame⟩ :=
    memory_exists width cost.toNat bytes whole kept
      (scratch.drop (32 * width)) keptWhole (by rw [List.length_drop]; omega)
  have begun : (⟨kept, wordsOf (Lane.ofBytes bytes), scratch.drop (32 * width)⟩ : MixBuffers) =
      ofMemory memory := by
    rw [← keptSame, ← roomSame, ← lane]
    rfl
  obtain ⟨filled, between⟩ := keep_follows positive (by omega) sized cost.toNat 0 (Nat.zero_add _)
  obtain ⟨mixed, after⟩ := look_ups_follow positive (by omega) some fits between cost.toNat
  rw [← List.range_eq_range'] at filled mixed after
  generalize made : Nat.repeat (Scrypt.lookUp cost) cost.toNat
    ((List.range cost.toNat).foldl Memory.keep memory) = final at mixed after
  have same : Scrypt.mixLane cost memory bytes = (final.lane.toBytes, final) := by
    rw [Scrypt.mixLane, ← lane, sized.count, made]
  have front : (scratch.take (32 * width)).length = 32 * width := List.length_take_of_le (by omega)
  have count : kept.length / (32 * width) = cost.toNat := by
    rw [keptWhole, Nat.mul_div_cancel _ (by omega)]
  have quarter : bytes.length / 4 = 32 * width := by omega
  obtain ⟨keptLength, scratchLength⟩ := after.lengths
  have length : (Scrypt.mixLane cost memory bytes).1.length = 128 * width := by
    rw [same, Lane.text_length, after.lane]
    omega
  refine ⟨memory, sized.count, sized.room, _, _, ?_, length, keptLength, scratchLength⟩
  simp only [mixLane, quarter, same]
  rw [Checked.range_within scratch _ _ (Nat.zero_le _) (by omega), Checked.ok_bind,
    Checked.range_within scratch _ _ (by omega) (Nat.le_refl _), List.take_length, Checked.ok_bind,
    List.drop_zero, front, lane_read width bytes whole narrow, Checked.ok_bind,
    Checked.quotient_within _ _ (by omega), Checked.ok_bind, count, begun, filled, Checked.ok_bind,
    mixed, Checked.ok_bind]
  simp only [ofMemory]
  rw [lane_stored after narrow bytes whole, Checked.ok_bind]

end MixBuffers

end SymmetricKey.Derivation.Scrypt
