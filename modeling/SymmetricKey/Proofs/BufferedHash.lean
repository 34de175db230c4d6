import SymmetricKey.Proofs.BufferedSegments
import SymmetricKey.Proofs.GcmFunction

/-!
The hash of authenticated encryption in a machine's buffers, and the calls that
are made of it. A block buffer holds what does not fill a block yet, and behind
that whatever was in it before.
-/

namespace SymmetricKey

structure HashBuffer where
  sum : BitVec 128
  block : Bytes
  filled : Nat

namespace HashBuffer

def empty : HashBuffer := { sum := 0, block := Bytes.zeros 16, filled := 0 }

def absorbBlocks (key : GhashKey) (sum : BitVec 128) : List Bytes → Checked (BitVec 128)
  | [] => .ok sum
  | block :: blocks => do
      let copy ← Checked.copyInto (Bytes.zeros 16) 0 16 block
      absorbBlocks key (Ghash.absorbBlock key sum copy) blocks

def absorbAligned (key : GhashKey) (sum : BitVec 128) (block data : Bytes) :
    Checked HashBuffer := do
  let cut := Bytes.completeBlocks 16 data
  let sum ← absorbBlocks key sum cut.1
  let block ← Checked.copyInto block 0 cut.2.length cut.2
  .ok { sum, block, filled := cut.2.length }

def absorb (key : GhashKey) (hash : HashBuffer) (data : Bytes) : Checked HashBuffer :=
  if 0 < hash.filled then do
    let room ← Checked.subtract 16 hash.filled
    let count := min room data.length
    let last ← Checked.add hash.filled count
    let piece ← Checked.slice data 0 count
    let block ← Checked.copyInto hash.block hash.filled last piece
    let rest ← Checked.slice data count data.length
    if last < 16 then .ok { hash with block, filled := last }
    else absorbAligned key (Ghash.absorbBlock key hash.sum block) block rest
  else absorbAligned key hash.sum hash.block data

def pad (key : GhashKey) (hash : HashBuffer) : Checked HashBuffer :=
  if 0 < hash.filled then do
    let block ← Checked.edit hash.block hash.filled 16 Bytes.cleared
    .ok { sum := Ghash.absorbBlock key hash.sum block, block, filled := 0 }
  else .ok hash

def lengthBlock (first second : UInt64) : Checked Bytes := do
  let block ← Checked.copyInto (Bytes.zeros 16) 0 8 (BigEndian.bytes64 (first * 8))
  Checked.copyInto block 8 16 (BigEndian.bytes64 (second * 8))

def close (key : GhashKey) (hash : HashBuffer) (first second : UInt64) : Checked HashBuffer := do
  let whole ← pad key hash
  let block ← lengthBlock first second
  .ok { whole with sum := Ghash.absorbBlock key whole.sum block }

def startBlock (key : GhashKey) (iv : Bytes) : Checked Bytes :=
  if iv.length = 12 then do
    let block ← Checked.copyInto (Bytes.zeros 16) 0 12 iv
    Checked.setByte block 15 1
  else do
    let hash ← absorb key empty iv
    let closed ← close key hash 0 (UInt64.ofNat iv.length)
    .ok (BigEndian.bytes128 closed.sum)

-- What stands behind the filled bytes does not matter.
def view (hash : HashBuffer) : Ghash := { sum := hash.sum, pending := hash.block.take hash.filled }

structure Sound (hash : HashBuffer) : Prop where
  wide : hash.block.length = 16
  short : hash.filled < 16

theorem empty_sound : Sound empty := ⟨Bytes.zeros_length 16, by decide⟩

section Hashing
variable (key : GhashKey)

theorem absorb_blocks_exact (sum : BitVec 128) (blocks : List Bytes)
    (whole : ∀ block ∈ blocks, block.length = 16) :
    absorbBlocks key sum blocks = .ok (blocks.foldl (Ghash.absorbBlock key) sum) := by
  induction blocks generalizing sum with
  | nil => rfl
  | cons block blocks ih =>
      have copied : Checked.copyInto (Bytes.zeros 16) 0 16 block = .ok block :=
        Checked.copy_into_whole _ _ (whole block List.mem_cons_self)
      rw [absorbBlocks, copied, Checked.ok_bind,
        ih _ fun later member => whole later (List.mem_cons_of_mem _ member), List.foldl_cons]

theorem absorb_aligned_exact (sum : BitVec 128) (block data : Bytes) (wide : block.length = 16) :
    ∃ after, absorbAligned key sum block data = .ok after ∧ Sound after ∧
      after.view = Ghash.absorb key { sum, pending := [] } data := by
  have cut := Bytes.complete_blocks_exact 16 data (by decide)
  have short := Bytes.rest_length 16 data (by decide)
  have whole : ∀ piece ∈ (Bytes.completeBlocks 16 data).1, piece.length = 16 := by
    rw [cut, ← Bytes.whole_blocks_take 16 data (by decide),
      ← Bytes.segments_whole 16 _ (by decide) _ (Bytes.complete_length 16 data)]
    exact Bytes.segments_aligned 16 _ (by decide) _ (Bytes.complete_length 16 data)
  have rest : (Bytes.completeBlocks 16 data).2 = data.drop (data.length / 16 * 16) :=
    congrArg Prod.snd cut
  rw [← rest] at short
  rw [absorbAligned, absorb_blocks_exact key sum _ whole, Checked.ok_bind,
    Checked.copy_into_front _ _ _ (by omega) rfl, Checked.ok_bind]
  refine ⟨_, rfl, ⟨(Checked.front_length block _ _ (by omega) rfl).trans wide, short⟩, ?_⟩
  rw [view, List.take_left' rfl]
  rfl

theorem absorb_exact (hash : HashBuffer) (data : Bytes) (sound : Sound hash) :
    ∃ after, absorb key hash data = .ok after ∧ Sound after ∧
      after.view = Ghash.absorb key hash.view data := by
  obtain ⟨sum, block, filled⟩ := hash
  obtain ⟨wide, short⟩ := sound
  simp only at wide short
  by_cases some : 0 < filled
  · have kept : (block.take filled).length = filled := List.length_take_of_le (by omega)
    have piece : (data.take (min (16 - filled) data.length)).length =
        min (16 - filled) data.length :=
      List.length_take_of_le (Nat.min_le_right _ _)
    have front : (block.take filled ++ data.take (min (16 - filled) data.length)).length =
        filled + min (16 - filled) data.length := by rw [List.length_append, kept, piece]
    have spliced := Checked.spliced_length block filled (filled + min (16 - filled) data.length)
      (data.take (min (16 - filled) data.length)) (by omega) (by omega) (by omega)
    rw [absorb, if_pos some]
    simp only
    rw [Checked.subtract_within _ _ (by omega), Checked.ok_bind, Checked.add_within _ _ (by omega),
      Checked.ok_bind, Checked.slice_front _ _ (Nat.min_le_right _ _), Checked.ok_bind,
      Checked.copy_into_within _ _ _ _ (by omega) (by omega) (by omega), Checked.ok_bind,
      Checked.slice_back _ _ (Nat.min_le_right _ _), Checked.ok_bind]
    -- The piece behind what is held leaves the block short or fills it.
    by_cases narrow : filled + min (16 - filled) data.length < 16
    · have all : data.take (min (16 - filled) data.length) = data :=
        List.take_of_length_le (by omega)
      have none : (block.take filled ++ data).length < 16 := by
        rw [all] at front
        omega
      rw [if_pos narrow]
      refine ⟨_, rfl, ⟨spliced.trans wide, narrow⟩, ?_⟩
      rw [view, Ghash.absorb, view, Bytes.complete_blocks_short 16 _ none, Checked.spliced,
        List.take_left' front, all]
      rfl
    · have full : block.take filled ++ data.take (min (16 - filled) data.length) =
          Checked.spliced block filled (filled + min (16 - filled) data.length)
            (data.take (min (16 - filled) data.length)) := by
        rw [Checked.spliced, List.drop_eq_nil_of_le (by omega), List.append_nil]
      rw [if_neg narrow, ← full]
      obtain ⟨after, ran, sound, same⟩ := absorb_aligned_exact key
        (Ghash.absorbBlock key sum (block.take filled ++ data.take (min (16 - filled) data.length)))
        (block.take filled ++ data.take (min (16 - filled) data.length))
        (data.drop (min (16 - filled) data.length)) (by omega)
      refine ⟨after, ran, sound, same.trans ?_⟩
      have cut := Bytes.complete_blocks_cons 16
        (block.take filled ++ data.take (min (16 - filled) data.length))
        (data.drop (min (16 - filled) data.length)) (by decide) (by omega)
      rw [List.append_assoc, List.take_append_drop] at cut
      rw [Ghash.absorb, Ghash.absorb, view, cut]
      rfl
  · have none : filled = 0 := by omega
    subst none
    exact absorb_aligned_exact key sum block data wide

theorem pad_exact (hash : HashBuffer) (sound : Sound hash) :
    ∃ after, pad key hash = .ok after ∧ Sound after ∧ after.view = Ghash.pad key hash.view := by
  obtain ⟨sum, block, filled⟩ := hash
  obtain ⟨wide, short⟩ := sound
  simp only at wide short
  by_cases some : 0 < filled
  · have kept : (block.take filled).length = filled := List.length_take_of_le (by omega)
    have pending : ¬(block.take filled).isEmpty = true := by
      rw [List.isEmpty_iff]
      exact List.length_pos_iff.mp (by omega)
    have cleared : Bytes.cleared ((block.take 16).drop filled) = Bytes.zeros (16 - filled) := by
      rw [Bytes.cleared, List.map_const', Checked.range_length _ _ _ (by omega), Bytes.zeros]
    have whole : Checked.spliced block filled 16 (Bytes.zeros (16 - filled)) =
        block.take filled ++ Bytes.zeros (16 - filled) := by
      rw [Checked.spliced, List.drop_eq_nil_of_le (by omega), List.append_nil]
    rw [pad, if_pos some]
    simp only
    rw [Checked.edit_within _ _ _ _ (by omega) (by omega), Checked.ok_bind, cleared, whole]
    refine ⟨_, rfl, ⟨?_, (by decide : 0 < 16)⟩, ?_⟩
    · rw [List.length_append, kept, Bytes.zeros_length]
      omega
    · rw [Ghash.pad, view, view, if_neg pending, kept]
      rfl
  · have none : filled = 0 := by omega
    subst none
    exact ⟨_, rfl, ⟨wide, short⟩, rfl⟩

theorem length_block_exact (first second : UInt64) :
    lengthBlock first second = .ok (Ghash.lengthBlock first second) := rfl

theorem close_exact (hash : HashBuffer) (first second : UInt64) (sound : Sound hash) :
    ∃ after, close key hash first second = .ok after ∧ Sound after ∧
      after.view = Ghash.close key hash.view first second := by
  obtain ⟨whole, ran, ⟨wide, short⟩, same⟩ := pad_exact key hash sound
  rw [close, ran, Checked.ok_bind, length_block_exact, Checked.ok_bind]
  refine ⟨_, rfl, ⟨wide, short⟩, ?_⟩
  rw [Ghash.close, ← same]
  rfl

theorem start_block_exact (iv : Bytes) : startBlock key iv = .ok (Ghash.startBlock key iv) := by
  rw [startBlock, Ghash.startBlock]
  by_cases short : iv.length = 12
  · rw [if_pos short, if_pos short, Checked.copy_into_front _ _ _ (by decide) short,
      Checked.ok_bind, Checked.set_byte_within _ _ _ (by rw [List.length_append, short]; decide),
      List.set_append_right _ _ (by omega), short]
    rfl
  · obtain ⟨hash, taken, sound, same⟩ := absorb_exact key empty iv empty_sound
    obtain ⟨closed, ran, _, last⟩ := close_exact key hash 0 (UInt64.ofNat iv.length) sound
    rw [if_neg short, if_neg short, taken, Checked.ok_bind, ran, Checked.ok_bind]
    rw [same] at last
    rw [Ghash.value, ← show empty.view = Ghash.empty from rfl, ← last]
    rfl

end Hashing

end HashBuffer

end SymmetricKey
