import SymmetricKey.Proofs.CheckedBuffers
import SymmetricKey.Proofs.HashedMessages

/-!
Messages in a machine's buffer on their way to a hash function. What does not fill a
block yet is kept in a buffer of 64 bytes, and behind it stands whatever was in the
buffer before. The blocks that are handed on are those of the message alone.
-/

namespace SymmetricKey

/-- The bytes in front of `filled` wait for a whole block. -/
structure MessageBuffer where
  block : Bytes
  filled : Nat
  length : UInt64

namespace MessageBuffer

def empty : MessageBuffer := { block := Bytes.zeros 64, filled := 0, length := 0 }

/-- The blocks that are handed on, in their order, and the buffer behind them. -/
abbrev Step := Checked (List Bytes × MessageBuffer)

def absorbAligned (buffer : MessageBuffer) (data : Bytes) : Step := do
  let cut := Bytes.completeBlocks 64 data
  let block ← Checked.copyInto buffer.block 0 cut.2.length cut.2
  .ok (cut.1, { buffer with block, filled := cut.2.length })

def absorb (buffer : MessageBuffer) (data : Bytes) : Step :=
  let counted := { buffer with length := buffer.length + UInt64.ofNat data.length }
  if 0 < buffer.filled then do
    let room ← Checked.subtract 64 buffer.filled
    let count := min room data.length
    let last ← Checked.add buffer.filled count
    let piece ← Checked.slice data 0 count
    let block ← Checked.copyInto buffer.block buffer.filled last piece
    let rest ← Checked.slice data count data.length
    if last < 64 then .ok ([], { counted with block, filled := last })
    else do
      let later ← absorbAligned { counted with block, filled := 0 } rest
      .ok (block :: later.1, later.2)
  else absorbAligned counted data

def close (buffer : MessageBuffer) : Step := do
  let bits := BigEndian.bytes64 (buffer.length * 8)
  let marked ← Checked.setByte buffer.block buffer.filled 0x80
  let behind ← Checked.add buffer.filled 1
  let filled ← Checked.edit marked behind marked.length Bytes.cleared
  if 56 ≤ buffer.filled then do
    let last ← Checked.copyInto (Bytes.cleared filled) 56 64 bits
    .ok ([filled, last], { buffer with block := last, filled := 0 })
  else do
    let last ← Checked.copyInto filled 56 64 bits
    .ok ([last], { buffer with block := last, filled := 0 })

def absorbAll (buffer : MessageBuffer) : List Bytes → Step
  | [] => .ok ([], buffer)
  | piece :: pieces => do
      let first ← absorb buffer piece
      let later ← absorbAll first.2 pieces
      .ok (first.1 ++ later.1, later.2)

/-- All blocks of a message that comes in pieces. -/
def handedOn (pieces : List Bytes) : Checked (List Bytes) := do
  let fed ← absorbAll empty pieces
  let closed ← close fed.2
  .ok (fed.1 ++ closed.1)

/-- These bytes wait in the front of the buffer, behind a message of this length. -/
structure Holds (pending : Bytes) (length : UInt64) (buffer : MessageBuffer) : Prop where
  wide : buffer.block.length = 64
  short : buffer.filled < 64
  front : buffer.block.take buffer.filled = pending
  counted : buffer.length = length

theorem empty_holds : Holds [] 0 empty := ⟨Bytes.zeros_length 64, by decide, rfl, rfl⟩

theorem Holds.pending_length {pending : Bytes} {length : UInt64} {buffer : MessageBuffer}
    (holds : Holds pending length buffer) : pending.length = buffer.filled := by
  have wide := holds.wide
  have short := holds.short
  rw [← holds.front, List.length_take_of_le (by omega)]

theorem absorb_aligned_holds (buffer : MessageBuffer) (wide : buffer.block.length = 64)
    (data : Bytes) :
    ∃ after, absorbAligned buffer data = .ok (Bytes.wholeBlocks 64 data, after) ∧
      Holds (data.drop (data.length / 64 * 64)) buffer.length after := by
  have short := Bytes.rest_length 64 data (by decide)
  rw [absorbAligned, Bytes.complete_blocks_exact 64 data (by decide)]
  simp only
  rw [Checked.copy_into_front _ _ _ (by omega) rfl, Checked.ok_bind]
  exact ⟨_, rfl, (Checked.front_length _ _ _ (by omega) rfl).trans wide, short,
    List.take_left' rfl, rfl⟩

section Absorbing
variable {pending : Bytes} {length : UInt64} {buffer : MessageBuffer} (data : Bytes)

theorem absorb_begun (holds : Holds pending length buffer) (some : 0 < buffer.filled) (count : Nat)
    (least : count = min (64 - buffer.filled) data.length) (block : Bytes)
    (laid : Checked.spliced buffer.block buffer.filled (buffer.filled + count) (data.take count) =
      block) :
    absorb buffer data =
      if buffer.filled + count < 64 then
        .ok ([], { block, filled := buffer.filled + count,
                   length := buffer.length + UInt64.ofNat data.length })
      else
        absorbAligned { block, filled := 0, length := buffer.length + UInt64.ofNat data.length }
          (data.drop count) >>= fun later => .ok (block :: later.1, later.2) := by
  have wide := holds.wide
  have short := holds.short
  have piece : (data.take count).length = buffer.filled + count - buffer.filled := by
    rw [List.length_take]
    omega
  rw [absorb, if_pos some, Checked.subtract_within _ _ (by omega), Checked.ok_bind, ← least]
  simp only
  rw [Checked.add_within _ _ (by omega), Checked.ok_bind, Checked.slice_front _ _ (by omega),
    Checked.ok_bind, Checked.copy_into_within _ _ _ _ (by omega) (by omega) piece, Checked.ok_bind,
    Checked.slice_back _ _ (by omega), Checked.ok_bind, laid]

theorem absorb_short (holds : Holds pending length buffer) (some : 0 < buffer.filled)
    (short : data.length < 64 - buffer.filled) :
    ∃ after, absorb buffer data = .ok ([], after) ∧
      Holds (pending ++ data) (length + UInt64.ofNat data.length) after := by
  have wide := holds.wide
  have kept := holds.pending_length
  have laid := Checked.spliced_length buffer.block buffer.filled (buffer.filled + data.length) data
    (by omega) (by omega) (by omega)
  have front : (buffer.block.take buffer.filled ++ data).length = buffer.filled + data.length := by
    rw [holds.front, List.length_append, kept]
  have begun := absorb_begun data holds some data.length (by omega) _ rfl
  rw [if_pos (by omega), List.take_length] at begun
  refine ⟨_, begun, laid.trans wide, ?_, ?_, congrArg (· + _) holds.counted⟩
  · simp only
    omega
  · simp only [Checked.spliced]
    rw [List.take_left' front, holds.front]

theorem absorb_full (holds : Holds pending length buffer) (some : 0 < buffer.filled)
    (enough : 64 - buffer.filled ≤ data.length) :
    let rest := data.drop (64 - buffer.filled)
    ∃ after, absorb buffer data =
        .ok ((pending ++ data.take (64 - buffer.filled)) :: Bytes.wholeBlocks 64 rest, after) ∧
      Holds (rest.drop (rest.length / 64 * 64)) (length + UInt64.ofNat data.length) after := by
  -- The block is full, so nothing of what stood in the buffer is left.
  intro rest
  have wide := holds.wide
  have short := holds.short
  have kept := holds.pending_length
  have full : buffer.filled + (64 - buffer.filled) = 64 := by omega
  have block : Checked.spliced buffer.block buffer.filled 64 (data.take (64 - buffer.filled)) =
      pending ++ data.take (64 - buffer.filled) := by
    rw [Checked.spliced, holds.front, List.drop_eq_nil_of_le (by omega), List.append_nil]
  have whole : (pending ++ data.take (64 - buffer.filled)).length = 64 := by
    rw [List.length_append, kept, List.length_take]
    omega
  obtain ⟨after, ran, later⟩ := absorb_aligned_holds
    { block := pending ++ data.take (64 - buffer.filled), filled := 0,
      length := buffer.length + UInt64.ofNat data.length } whole rest
  rw [absorb_begun data holds some (64 - buffer.filled) (by omega) _ (by rw [full, block]),
    if_neg (by omega), ran, Checked.ok_bind, ← holds.counted]
  exact ⟨after, rfl, later⟩

theorem absorb_holds (holds : Holds pending length buffer) :
    let bytes := pending ++ data
    ∃ after, absorb buffer data = .ok (Bytes.wholeBlocks 64 bytes, after) ∧
      Holds (bytes.drop (bytes.length / 64 * 64)) (length + UInt64.ofNat data.length) after := by
  intro bytes
  have short := holds.short
  have kept := holds.pending_length
  have total : bytes.length = buffer.filled + data.length := by rw [List.length_append, kept]
  by_cases some : 0 < buffer.filled
  · by_cases narrow : data.length < 64 - buffer.filled
    · have nothing : bytes.length / 64 * 64 = 0 := by omega
      rw [Bytes.whole_blocks_short 64 bytes (by omega), nothing]
      exact absorb_short data holds some narrow
    · have whole : (pending ++ data.take (64 - buffer.filled)).length = 64 := by
        rw [List.length_append, kept, List.length_take]
        omega
      have parted : bytes = pending ++ data.take (64 - buffer.filled) ++
          data.drop (64 - buffer.filled) := by
        rw [List.append_assoc, List.take_append_drop]
      have reach : bytes.length / 64 * 64 =
          (pending ++ data.take (64 - buffer.filled)).length +
            (data.drop (64 - buffer.filled)).length / 64 * 64 := by
        rw [whole, List.length_drop]
        omega
      rw [reach, parted, Bytes.whole_blocks_cons 64 _ _ (by decide) whole,
        List.drop_length_add_append]
      exact absorb_full data holds some (by omega)
  · have nothing : pending = [] := List.length_eq_zero_iff.mp (by omega)
    have all : bytes = data := by rw [← List.nil_append data, ← nothing]
    rw [absorb, if_neg some, all, ← holds.counted]
    exact absorb_aligned_holds { buffer with length := buffer.length + UInt64.ofNat data.length }
      holds.wide data

end Absorbing

/-- A message so far, of which the buffer holds what fills no block. -/
def Follows (message : Bytes) : MessageBuffer → Prop :=
  Holds (message.drop (message.length / 64 * 64)) (UInt64.ofNat message.length)

theorem absorb_follows (message data : Bytes) (buffer : MessageBuffer)
    (follows : Follows message buffer) :
    ∃ blocks after, absorb buffer data = .ok (blocks, after) ∧ Follows (message ++ data) after ∧
      Bytes.wholeBlocks 64 (message ++ data) = Bytes.wholeBlocks 64 message ++ blocks := by
  obtain ⟨after, ran, holds⟩ := absorb_holds data follows
  have front := Bytes.complete_length 64 message
  have string : message ++ data = message.take (message.length / 64 * 64) ++
      (message.drop (message.length / 64 * 64) ++ data) := by
    rw [← List.append_assoc, List.take_append_drop]
  generalize message.drop (message.length / 64 * 64) ++ data = bytes at ran holds string
  have reach : (message ++ data).length / 64 * 64 =
      (message.take (message.length / 64 * 64)).length + bytes.length / 64 * 64 := by
    rw [string, List.length_append, front]
    omega
  refine ⟨_, after, ran, ?_, ?_⟩
  · rw [Follows, reach, string, List.drop_length_add_append, ← string, List.length_append,
      UInt64.ofNat_add]
    exact holds
  · rw [string, Bytes.whole_blocks_append 64 _ _ (by decide) _ front,
      Bytes.whole_blocks_take 64 message (by decide)]

section Closing
variable {pending : Bytes} {length : UInt64} {buffer : MessageBuffer}

theorem marked_exact (holds : Holds pending length buffer) :
    Checked.spliced (buffer.block.set buffer.filled 0x80) (buffer.filled + 1) 64
        (Bytes.cleared (((buffer.block.set buffer.filled 0x80).take 64).drop (buffer.filled + 1))) =
      pending ++ 0x80 :: Bytes.zeros (63 - pending.length) := by
  -- Behind the marker nothing is left of what stood in the buffer.
  have wide := holds.wide
  have short := holds.short
  have kept := holds.pending_length
  have size : (buffer.block.set buffer.filled 0x80).length = 64 := by rw [List.length_set, wide]
  have room : 64 - (buffer.filled + 1) = 63 - pending.length := by omega
  have front : (buffer.block.set buffer.filled 0x80).take (buffer.filled + 1) =
      pending ++ [0x80] := by
    rw [List.set_eq_take_append_cons_drop, if_pos (by omega), holds.front, ← kept,
      List.take_length_add_append]
    rfl
  rw [Checked.spliced, front, Bytes.cleared, List.map_const', Checked.range_length _ _ _ (by omega),
    room, List.drop_eq_nil_of_le (by omega), List.append_nil, List.append_assoc]
  rfl

theorem close_exact (holds : Holds pending length buffer) :
    ∃ after, close buffer = .ok (Hash.closing pending length, after) := by
  have wide := holds.wide
  have short := holds.short
  have kept := holds.pending_length
  have size : (buffer.block.set buffer.filled 0x80).length = 64 := by rw [List.length_set, wide]
  have bits : (BigEndian.bytes64 (buffer.length * 8)).length = 8 := by
    rw [BigEndian.bytes64_exact, BigEndian.numeral_length]
  have whole : (pending ++ 0x80 :: Bytes.zeros (63 - pending.length)).length = 64 := by
    rw [List.length_append, List.length_cons, Bytes.zeros_length]
    omega
  rw [Hash.closing, close, ← holds.counted, Checked.set_byte_within _ _ _ (by omega),
    Checked.ok_bind, Checked.add_within _ _ (by omega), Checked.ok_bind,
    Checked.edit_within _ _ _ _ (by omega) (Nat.le_refl _), Checked.ok_bind, size,
    marked_exact holds, ← kept]
  -- The length takes eight bytes. A marker behind the 56th byte leaves no room for it.
  by_cases late : 56 ≤ pending.length
  · have cleared : Bytes.cleared (pending ++ 0x80 :: Bytes.zeros (63 - pending.length)) =
        Bytes.zeros 64 := by rw [Bytes.cleared, List.map_const', whole, Bytes.zeros]
    have last : Checked.spliced (Bytes.zeros 64) 56 64 (BigEndian.bytes64 (buffer.length * 8)) =
        Bytes.zeros 56 ++ BigEndian.bytes64 (buffer.length * 8) := by
      rw [Checked.spliced, Bytes.zeros_take _ _ (by decide), List.drop_eq_nil_of_le (by decide),
        List.append_nil]
    rw [if_pos late, if_pos late, cleared,
      Checked.copy_into_within _ _ _ _ (by decide) (by decide) bits, Checked.ok_bind, last]
    exact ⟨_, rfl⟩
  · have last : Checked.spliced (pending ++ 0x80 :: Bytes.zeros (63 - pending.length)) 56 64
          (BigEndian.bytes64 (buffer.length * 8)) =
        (pending ++ 0x80 :: Bytes.zeros (63 - pending.length)).take 56 ++
          BigEndian.bytes64 (buffer.length * 8) := by
      rw [Checked.spliced, List.drop_eq_nil_of_le (by omega), List.append_nil]
    rw [if_neg late, if_neg late, Checked.copy_into_within _ _ _ _ (by decide) (by omega) bits,
      Checked.ok_bind, last]
    exact ⟨_, rfl⟩

end Closing

theorem absorb_all_follows (pieces : List Bytes) (message : Bytes) (buffer : MessageBuffer)
    (follows : Follows message buffer) :
    ∃ blocks after, absorbAll buffer pieces = .ok (blocks, after) ∧
      Follows (message ++ pieces.flatten) after ∧
      Bytes.wholeBlocks 64 (message ++ pieces.flatten) = Bytes.wholeBlocks 64 message ++
        blocks := by
  induction pieces generalizing message buffer with
  | nil =>
      rw [List.flatten_nil, List.append_nil]
      exact ⟨[], buffer, rfl, follows, (List.append_nil _).symm⟩
  | cons piece pieces ih =>
      obtain ⟨first, next, ran, between, cut⟩ := absorb_follows message piece buffer follows
      obtain ⟨later, after, onward, last, others⟩ := ih _ next between
      rw [List.flatten_cons, ← List.append_assoc]
      refine ⟨first ++ later, after, ?_, last, ?_⟩
      · rw [absorbAll, ran, Checked.ok_bind, onward, Checked.ok_bind]
      · rw [others, cut, List.append_assoc]

end MessageBuffer

end SymmetricKey
