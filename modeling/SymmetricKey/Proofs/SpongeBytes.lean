import SymmetricKey.Sponge
import SymmetricKey.Proofs.WordStrings

/-!
The words of a sponge as 200 bytes. A byte or a block that goes into the words
is added to the string at its place, and the byte read at a place is the byte of
the string.
-/

namespace SymmetricKey

namespace Lanes

/-- The string in front of as many zeros as the state has room for. -/
def widened (bytes : Bytes) : Bytes := bytes ++ Bytes.zeros (200 - bytes.length)

theorem widened_length (bytes : Bytes) (fits : bytes.length ≤ 200) :
    (widened bytes).length = 200 := by
  rw [widened, List.length_append, Bytes.zeros_length]
  omega

theorem widened_zeros (bytes : Bytes) (count : Nat) (fits : bytes.length + count ≤ 200) :
    widened (bytes ++ Bytes.zeros count) = widened bytes := by
  have room : count + (200 - (bytes.length + count)) = 200 - bytes.length := by omega
  rw [widened, List.length_append, Bytes.zeros_length, List.append_assoc, Bytes.zeros_append, room,
    widened]

-- What comes behind a string is a summand of its own.
theorem widened_append (front back : Bytes) (fits : front.length + back.length ≤ 200) :
    widened (front ++ back) =
      Bytes.xor (widened front) (widened (Bytes.zeros front.length ++ back)) := by
  have room : 200 - front.length = back.length + (200 - (front.length + back.length)) := by omega
  have width : (back ++ Bytes.zeros (200 - (front.length + back.length))).length =
      back.length + (200 - (front.length + back.length)) := by
    rw [List.length_append, Bytes.zeros_length]
  rw [widened, widened, widened, List.length_append, List.length_append, Bytes.zeros_length,
    List.append_assoc, List.append_assoc,
    Bytes.xor_append _ _ _ _ (Bytes.zeros_length front.length).symm, Bytes.xor_zeros, room, ← width,
    Bytes.zeros_xor]

theorem widened_sum (left right : Bytes) (same : left.length = right.length) :
    widened (Bytes.xor left right) = Bytes.xor (widened left) (widened right) := by
  rw [widened, widened, widened, Bytes.xor_length, ← same, Nat.min_self,
    Bytes.xor_append _ _ _ _ same, Bytes.zeros_sum]

-- Words that the string does not reach are zero.
def ofBytes (bytes : Bytes) : Lanes :=
  Vector.ofFn fun index => (LittleEndian.words64 bytes).getD index.val 0

def toBytes (lanes : Lanes) : Bytes := lanes.toList.flatMap LittleEndian.bytes64

@[simp] theorem to_bytes_length (lanes : Lanes) : lanes.toBytes.length = 200 := by
  rw [toBytes, Bytes.flat_length _ 8 LittleEndian.bytes64_length, Vector.length_toList]

theorem of_bytes_to_bytes (lanes : Lanes) : ofBytes lanes.toBytes = lanes := by
  apply Vector.ext
  intro index inside
  rw [ofBytes, toBytes, LittleEndian.words64_flat, Vector.getElem_ofFn, List.getD_eq_getElem?_getD,
    Vector.getElem?_toList, Vector.getElem?_eq_getElem inside, Option.getD_some]

theorem to_bytes_of_bytes (bytes : Bytes) (count : Nat) (aligned : bytes.length = count * 8)
    (fits : bytes.length ≤ 200) :
    (ofBytes bytes).toBytes = widened bytes := by
  have read := LittleEndian.flat_words64 bytes count aligned
  have words : (LittleEndian.words64 bytes).length = count := by
    have width := congrArg List.length read
    rw [Bytes.flat_length _ 8 LittleEndian.bytes64_length] at width
    omega
  have room : (25 - count) * 8 = 200 - bytes.length := by omega
  have whole : (ofBytes bytes).toList =
      LittleEndian.words64 bytes ++ List.replicate (25 - count) 0 := by
    apply List.ext_getElem?
    intro index
    rw [Vector.getElem?_toList, ofBytes, Vector.getElem?_ofFn, List.getElem?_append, words,
      List.getElem?_replicate]
    by_cases here : index < count
    · have found : index < (LittleEndian.words64 bytes).length := by omega
      rw [dif_pos (by omega), if_pos here, List.getD_eq_getElem?_getD,
        List.getElem?_eq_getElem found, Option.getD_some]
    · have missing : (LittleEndian.words64 bytes)[index]? = none :=
        List.getElem?_eq_none (by omega)
      by_cases inside : index < 25
      · rw [dif_pos inside, if_neg here, if_pos (by omega), List.getD_eq_getElem?_getD, missing,
          Option.getD_none]
      · rw [dif_neg inside, if_neg here, if_neg (by omega)]
  rw [toBytes, whole, List.flatMap_append, read, LittleEndian.zeros64, room, widened]

end Lanes

namespace Sponge

open Lanes (ofBytes widened)

theorem add_block_bytes (lanes : Lanes) (block : Bytes) (count : Nat)
    (aligned : block.length = count * 8) (fits : block.length ≤ 200) :
    (addBlock lanes block).toBytes =
      Bytes.xor lanes.toBytes (widened block) := by
  have sum : (addBlock lanes block).toList =
      List.zipWith (· ^^^ ·) lanes.toList (ofBytes block).toList := by
    rw [addBlock, Vector.toList_zipWith]
    rfl
  rw [← Lanes.to_bytes_of_bytes block count aligned fits, Lanes.toBytes, sum,
    Bytes.flat_xor _ _ LittleEndian.bytes64_xor 8 LittleEndian.bytes64_length]
  rfl

theorem word_at_exact (lanes : Lanes) (position : Nat) (inside : position < 200) :
    wordAt lanes position = lanes[position / 8] := by
  rw [wordAt, Vector.getElem?_eq_getElem (by omega), Option.getD_some]

theorem byte_at_exact (lanes : Lanes) (position : Nat) (inside : position < 200) :
    lanes.toBytes[position]? = some (byteAt lanes position) := by
  rw [Lanes.toBytes, Bytes.flat_byte _ 8 (by decide) LittleEndian.bytes64_length,
    Vector.getElem?_toList, Vector.getElem?_eq_getElem (by omega), Option.bind_some,
    LittleEndian.bytes64_byte _ _ (Nat.mod_lt _ (by decide)), byteAt,
    word_at_exact lanes position inside, offset]

theorem offset_exact (position : Nat) : (offset position).toNat = 8 * (position % 8) := by
  rw [offset, UInt64.toNat_ofNat']
  omega

theorem offset_byte (byte : UInt8) (position other : Nat) :
    ((byte.toUInt64 <<< offset position) >>> offset other).toUInt8 =
      if other % 8 = position % 8 then byte else 0 := by
  -- Of a byte in its place in a word the other places hold nothing.
  have place : position % 8 < 8 := Nat.mod_lt _ (by decide)
  have read : other % 8 < 8 := Nat.mod_lt _ (by decide)
  have above : ∀ bit, 8 ≤ bit → byte.toNat.testBit bit = false := fun bit high =>
    Nat.testBit_lt_two_pow (lt_of_lt_of_le byte.toNat_lt (Nat.pow_le_pow_right (by decide) high))
  apply UInt8.toNat_inj.mp
  apply Nat.eq_of_testBit_eq
  intro bit
  simp only [UInt64.toNat_toUInt8, UInt64.toNat_shiftRight, UInt64.toNat_shiftLeft, offset_exact,
    UInt8.toNat_toUInt64, apply_ite UInt8.toNat]
  rw [Nat.mod_eq_of_lt (by omega : 8 * (position % 8) < 64),
    Nat.mod_eq_of_lt (by omega : 8 * (other % 8) < 64), Nat.testBit_mod_two_pow,
    Nat.testBit_shiftRight, Nat.testBit_mod_two_pow, Nat.testBit_shiftLeft]
  by_cases low : bit < 8
  · by_cases same : other % 8 = position % 8
    · have inside : 8 * (position % 8) + bit < 64 := by omega
      simp [same, low, inside]
    · by_cases below : 8 * (other % 8) + bit < 8 * (position % 8)
      · simp [same, below]
      · simp [same, above (8 * (other % 8) + bit - 8 * (position % 8)) (by omega)]
  · by_cases same : other % 8 = position % 8
    · simp [same, low, above bit (by omega)]
    · simp [same, low]

theorem word_at_add_byte (lanes : Lanes) (position other : Nat) (inside : other < 200)
    (byte : UInt8) :
    wordAt (addByte lanes position byte) other =
      if position / 8 = other / 8 then wordAt lanes other ^^^ (byte.toUInt64 <<< offset position)
      else wordAt lanes other := by
  rw [word_at_exact _ other inside, word_at_exact lanes other inside, addByte,
    Vector.getElem_setIfInBounds]
  split
  case isTrue same =>
    have here : position < 200 := by omega
    rw [word_at_exact lanes position here]
    simp only [same]
  case isFalse => rfl

theorem byte_at_add_byte (lanes : Lanes) (position other : Nat) (inside : other < 200)
    (byte : UInt8) :
    byteAt (addByte lanes position byte) other =
      byteAt lanes other ^^^ if other = position then byte else 0 := by
  rw [byteAt, byteAt, word_at_add_byte lanes position other inside]
  split
  case isTrue word =>
    have place : other % 8 = position % 8 ↔ other = position := by omega
    rw [UInt64.shiftRight_xor, UInt64.toUInt8_xor, offset_byte]
    simp only [place]
  case isFalse apart =>
    have different : other ≠ position := fun same => apart (by rw [same])
    rw [if_neg different, UInt8.xor_zero]

theorem single_byte (position other : Nat) (inside : other < 200) (here : position < 200)
    (byte : UInt8) :
    (widened (Bytes.zeros position ++ [byte]))[other]? =
      some (if other = position then byte else 0) := by
  have front : (Bytes.zeros position).length = position := Bytes.zeros_length position
  rw [widened, List.append_assoc]
  rcases Nat.lt_trichotomy other position with before | same | behind
  · rw [List.getElem?_append_left (by omega), Bytes.zeros, List.getElem?_replicate, if_pos before,
      if_neg (by omega)]
  · rw [List.getElem?_append_right (by omega), front, same, Nat.sub_self, List.cons_append,
      List.getElem?_cons_zero, if_pos rfl]
  · obtain ⟨more, rfl⟩ : ∃ more, other = position + (more + 1) := ⟨other - position - 1, by omega⟩
    rw [List.getElem?_append_right (by omega), front, Nat.add_sub_cancel_left, List.cons_append,
      List.getElem?_cons_succ, List.nil_append, List.length_append, front, Bytes.zeros,
      List.getElem?_replicate, if_pos (by rw [List.length_singleton]; omega), if_neg (by omega)]

theorem add_byte_bytes (lanes : Lanes) (position : Nat) (here : position < 200) (byte : UInt8) :
    (addByte lanes position byte).toBytes =
      Bytes.xor lanes.toBytes (widened (Bytes.zeros position ++ [byte])) := by
  apply List.ext_getElem?
  intro other
  by_cases inside : other < 200
  · rw [byte_at_exact _ other inside, byte_at_add_byte lanes position other inside, Bytes.xor,
      List.getElem?_zipWith, byte_at_exact lanes other inside,
      single_byte position other inside here]
  · rw [List.getElem?_eq_none (by rw [Lanes.to_bytes_length]; omega),
      List.getElem?_eq_none (by rw [Bytes.xor_length, Lanes.to_bytes_length]; omega)]

end Sponge

end SymmetricKey
