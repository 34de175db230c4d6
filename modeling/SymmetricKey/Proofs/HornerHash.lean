import SymmetricKey.Confidentiality.Gcm
import SymmetricKey.Proofs.ByteStrings
import SymmetricKey.Proofs.Numerals
import SymmetricKey.Proofs.ReflectedProduct

/-!
The universal hash as the value of a polynomial. Whatever pieces a string was
absorbed in, the state stands for the string as a whole: the sum is the value
over its complete blocks, and the rest is pending.
-/

namespace SymmetricKey.Ghash

open Field.Reflected (serialProduct multiples mul_exact)

def element (block : Bytes) : BitVec 128 := BitVec.ofNat 128 (BigEndian.number block)

/-- The blocks are the coefficients, that of the highest power first; there is no constant term. -/
def evaluation (point : BitVec 128) (bytes : Bytes) : BitVec 128 :=
  (Bytes.wholeBlocks 16 bytes).foldl
    (fun value block => serialProduct (value ^^^ element block) point) 0

def hash (point : BitVec 128) (bytes : Bytes) : Bytes :=
  BigEndian.numeral 16 (evaluation point bytes).toNat

/-- The string with the fewest zeros behind it that complete its last block. -/
def filled (bytes : Bytes) : Bytes :=
  bytes ++ Bytes.zeros (16 * ((bytes.length + 15) / 16) - bytes.length)

theorem filled_length (bytes : Bytes) :
    (filled bytes).length = (bytes.length + 15) / 16 * 16 := by
  simp only [filled, Bytes.zeros, List.length_append, List.length_replicate]
  omega

theorem filled_aligned (bytes : Bytes) (count : Nat) (aligned : bytes.length = count * 16) :
    filled bytes = bytes := by
  have nothing : 16 * ((bytes.length + 15) / 16) - bytes.length = 0 := by omega
  simp [filled, nothing, Bytes.zeros]

theorem filled_append (front bytes : Bytes) (count : Nat) (aligned : front.length = count * 16) :
    filled (front ++ bytes) = front ++ filled bytes := by
  have same : 16 * (((front ++ bytes).length + 15) / 16) - (front ++ bytes).length =
      16 * ((bytes.length + 15) / 16) - bytes.length := by
    rw [List.length_append]
    omega
  rw [filled, same, List.append_assoc, filled]

theorem filled_rest (rest : Bytes) (some : rest ≠ []) (short : rest.length < 16) :
    filled rest = rest ++ Bytes.zeros (16 - rest.length) := by
  have positive : 0 < rest.length := List.length_pos_iff.mpr some
  have missing : 16 * ((rest.length + 15) / 16) - rest.length = 16 - rest.length := by omega
  rw [filled, missing]

theorem filled_rest_length (rest : Bytes) (some : rest ≠ []) (short : rest.length < 16) :
    (filled rest).length = 16 := by
  have positive : 0 < rest.length := List.length_pos_iff.mpr some
  rw [filled_length]
  omega

theorem absorb_block_exact (point sum : BitVec 128) (block : Bytes) :
    absorbBlock (multiples point) sum block = serialProduct (sum ^^^ element block) point := by
  rw [absorbBlock, mul_exact, BigEndian.number128_exact, element]

theorem evaluation_append (point : BitVec 128) (front bytes : Bytes) (count : Nat)
    (aligned : front.length = count * 16) :
    evaluation point (front ++ bytes) =
      (Bytes.wholeBlocks 16 bytes).foldl (absorbBlock (multiples point))
      (evaluation point front) := by
  have step : (fun value block => serialProduct (value ^^^ element block) point) =
      absorbBlock (multiples point) := by
    funext value block
    exact (absorb_block_exact point value block).symm
  rw [evaluation, Bytes.whole_blocks_append 16 front bytes (by omega) count aligned,
    List.foldl_append, evaluation, step]

theorem evaluation_block (point : BitVec 128) (front block : Bytes) (count : Nat)
    (aligned : front.length = count * 16) (single : block.length = 16) :
    evaluation point (front ++ block) =
      absorbBlock (multiples point) (evaluation point front) block := by
  rw [evaluation_append point front block count aligned,
    Bytes.whole_blocks_single 16 block (by decide) single]
  rfl

/-- The state after the string has been absorbed. -/
def StandsFor (point : BitVec 128) (state : Ghash) (bytes : Bytes) : Prop :=
  ∃ front count, front.length = count * 16 ∧ bytes = front ++ state.pending ∧
    state.pending.length < 16 ∧ state.sum = evaluation point front

theorem whole_stands_for (point : BitVec 128) (bytes : Bytes) (count : Nat)
    (aligned : bytes.length = count * 16) :
    StandsFor point { sum := evaluation point bytes, pending := [] } bytes :=
  ⟨bytes, count, aligned, (List.append_nil bytes).symm, Nat.zero_lt_succ 15, rfl⟩

theorem absorb_stands_for (point : BitVec 128) (state : Ghash) (bytes data : Bytes)
    (standing : StandsFor point state bytes) :
    StandsFor point (absorb (multiples point) state data) (bytes ++ data) := by
  obtain ⟨front, count, aligned, rfl, short, value⟩ := standing
  -- The new front ends where the last complete block of the pending and the new bytes does.
  have cut := Bytes.complete_blocks_exact 16 (state.pending ++ data) (by omega)
  rw [absorb, cut, List.append_assoc]
  generalize state.pending ++ data = string
  refine ⟨front ++ string.take (string.length / 16 * 16), count + string.length / 16, ?_,
    ?_, ?_, ?_⟩
  · rw [List.length_append, Bytes.complete_length 16 string, aligned, Nat.add_mul]
  · rw [List.append_assoc, List.take_append_drop]
  · exact Bytes.rest_length 16 string (by decide)
  · rw [evaluation_append point front _ count aligned,
      Bytes.whole_blocks_take 16 string (by decide), value]

theorem pad_exact (point : BitVec 128) (state : Ghash) (bytes : Bytes)
    (standing : StandsFor point state bytes) :
    pad (multiples point) state = { sum := evaluation point (filled bytes), pending := [] } := by
  obtain ⟨front, count, aligned, rfl, short, value⟩ := standing
  cases state with
  | mk sum pending =>
      change sum = evaluation point front at value
      by_cases none : pending = []
      · subst none
        rw [List.append_nil, filled_aligned front count aligned, ← value]
        rfl
      · have some : ¬pending.isEmpty = true := by simpa using none
        have single := filled_rest_length pending none short
        rw [pad, if_neg some, filled_append front pending count aligned,
          evaluation_block point front _ count aligned single, filled_rest pending none short,
          value]

theorem length_block_length (first second : UInt64) : (lengthBlock first second).length = 16 := by
  rw [lengthBlock, List.length_append, BigEndian.bytes64_exact, BigEndian.bytes64_exact,
    BigEndian.numeral_length, BigEndian.numeral_length]

theorem close_whole (point : BitVec 128) (state : Ghash) (bytes : Bytes) (first second : UInt64)
    (standing : StandsFor point state bytes) :
    close (multiples point) state first second =
      { sum := evaluation point (filled bytes ++ lengthBlock first second), pending := [] } := by
  rw [close, pad_exact point state bytes standing,
    evaluation_block point _ _ _ (filled_length bytes) (length_block_length first second)]

theorem close_exact (point : BitVec 128) (state : Ghash) (bytes : Bytes) (first second : UInt64)
    (standing : StandsFor point state bytes) :
    (close (multiples point) state first second).value =
      hash point (filled bytes ++ lengthBlock first second) := by
  rw [close_whole point state bytes first second standing, hash, value, BigEndian.bytes128_exact]

-- The block of lengths goes in like any other block, and stays in.
theorem close_stands_for (point : BitVec 128) (state : Ghash) (bytes : Bytes)
    (first second : UInt64) (standing : StandsFor point state bytes) :
    StandsFor point (close (multiples point) state first second)
      (filled bytes ++ lengthBlock first second) := by
  rw [close_whole point state bytes first second standing]
  apply whole_stands_for point _ ((bytes.length + 15) / 16 + 1)
  rw [List.length_append, filled_length, length_block_length, Nat.succ_mul]

theorem length_block_exact (first second : Nat) :
    lengthBlock (UInt64.ofNat first) (UInt64.ofNat second) =
      BigEndian.numeral 8 (8 * first) ++ BigEndian.numeral 8 (8 * second) := by
  rw [lengthBlock, BigEndian.bytes64_bits, BigEndian.bytes64_bits]

theorem start_block_exact (point : BitVec 128) (iv : Bytes) (long : iv.length ≠ 12) :
    startBlock (multiples point) iv =
      hash point (filled iv ++ (Bytes.zeros 8 ++ BigEndian.numeral 8 (8 * iv.length))) := by
  have standing := absorb_stands_for point empty [] iv (whole_stands_for point [] 0 rfl)
  have lengths := length_block_exact 0 iv.length
  have zero : BigEndian.numeral 8 (8 * 0) = Bytes.zeros 8 := by decide
  rw [zero] at lengths
  rw [startBlock, if_neg long, ← lengths]
  exact close_exact point _ iv 0 _ standing

theorem text_hash_exact (point : BitVec 128) (aad text : Bytes) :
    Gcm.textHash (multiples point) aad text =
      hash point (filled aad ++ filled text ++
        (BigEndian.numeral 8 (8 * aad.length) ++ BigEndian.numeral 8 (8 * text.length))) := by
  have first := absorb_stands_for point empty [] aad (whole_stands_for point [] 0 rfl)
  have between := whole_stands_for point (filled aad) _ (filled_length aad)
  rw [Gcm.textHash, pad_exact point _ aad first]
  have second := absorb_stands_for point _ _ text between
  rw [close_exact point _ _ _ _ second, filled_append _ _ _ (filled_length aad), length_block_exact]

end SymmetricKey.Ghash
