import SymmetricKey.Proofs.ByteStrings
import SymmetricKey.Proofs.Numerals
import Mathlib.Tactic.IntervalCases

/-!
Words read from byte strings and written back, mostly lowest byte first. Reading
and writing undo each other on whole words, and a sum of words is written as the
sum of the strings.
-/

namespace SymmetricKey

namespace Bytes

-- Strings of one width that add up piece by piece add up as a whole.
theorem flat_xor {Piece : Type} (write : Piece → Bytes) (add : Piece → Piece → Piece)
    (linear : ∀ left right, write (add left right) = xor (write left) (write right))
    (size : Nat) (width : ∀ piece, (write piece).length = size) (lefts rights : List Piece) :
    (List.zipWith add lefts rights).flatMap write =
      xor (lefts.flatMap write) (rights.flatMap write) := by
  induction lefts generalizing rights with
  | nil => rfl
  | cons left lefts ih =>
      cases rights with
      | nil => rw [List.flatMap_nil, xor_comm]; rfl
      | cons right rights =>
          rw [List.zipWith_cons_cons, List.flatMap_cons, List.flatMap_cons, List.flatMap_cons,
            xor_append _ _ _ _ ((width left).trans (width right).symm), linear, ih]

theorem flat_length {Piece : Type} (write : Piece → Bytes) (size : Nat)
    (width : ∀ piece, (write piece).length = size) (pieces : List Piece) :
    (pieces.flatMap write).length = pieces.length * size := by
  induction pieces with
  | nil => rw [List.flatMap_nil, List.length_nil, List.length_nil, Nat.zero_mul]
  | cons piece pieces ih =>
      rw [List.flatMap_cons, List.length_append, width, ih, List.length_cons, Nat.succ_mul,
        Nat.add_comm]

theorem flat_byte {Piece : Type} (write : Piece → Bytes) (size : Nat) (positive : 0 < size)
    (width : ∀ piece, (write piece).length = size) (pieces : List Piece) (index : Nat) :
    (pieces.flatMap write)[index]? =
      pieces[index / size]?.bind fun piece => (write piece)[index % size]? := by
  -- A byte of a string of equal pieces stands in one of them.
  induction pieces generalizing index with
  | nil => rfl
  | cons piece pieces ih =>
      rw [List.flatMap_cons]
      by_cases here : index < size
      · rw [List.getElem?_append_left (by rw [width]; exact here), Nat.div_eq_of_lt here,
          Nat.mod_eq_of_lt here]
        rfl
      · obtain ⟨further, rfl⟩ : ∃ further, index = further + size := ⟨index - size, by omega⟩
        rw [List.getElem?_append_right (by rw [width]; omega), width, Nat.add_sub_cancel, ih,
          Nat.add_div_right _ positive, Nat.add_mod_right, List.getElem?_cons_succ]

theorem flat_piece {Piece : Type} (write : Piece → Bytes) (size : Nat)
    (width : ∀ piece, (write piece).length = size) (pieces : List Piece) (index : Nat)
    (piece : Piece) (found : pieces[index]? = some piece) :
    ((pieces.flatMap write).drop (size * index)).take size = write piece := by
  induction pieces generalizing index with
  | nil => cases found
  | cons first pieces ih =>
      rw [List.flatMap_cons]
      cases index with
      | zero =>
          cases found
          exact List.take_left' (width piece)
      | succ index =>
          rw [Nat.mul_succ, Nat.add_comm, ← List.drop_drop, List.drop_left' (width first)]
          exact ih index found

end Bytes

namespace LittleEndian

theorem word_exact (first second third fourth : UInt8) :
    (word first second third fourth).toNat = number [first, second, third, fourth] := by
  have a := first.toNat_lt
  have b := second.toNat_lt
  have c := third.toNat_lt
  have d := fourth.toNat_lt
  -- Each byte comes under those above it, so that the union is a sum.
  have upper : fourth.toNat <<< 24 ||| third.toNat <<< 16 =
      (fourth.toNat <<< 8 + third.toNat) <<< 16 := by
    rw [Nat.shiftLeft_add_eq_or_of_lt c, Nat.shiftLeft_or_distrib, ← Nat.shiftLeft_add]
  have middle : (fourth.toNat <<< 8 + third.toNat) <<< 16 ||| second.toNat <<< 8 =
      ((fourth.toNat <<< 8 + third.toNat) <<< 8 + second.toNat) <<< 8 := by
    rw [Nat.shiftLeft_add_eq_or_of_lt b (fourth.toNat <<< 8 + third.toNat),
      Nat.shiftLeft_or_distrib, ← Nat.shiftLeft_add]
  have lower : ((fourth.toNat <<< 8 + third.toNat) <<< 8 + second.toNat) <<< 8 ||| first.toNat =
      ((fourth.toNat <<< 8 + third.toNat) <<< 8 + second.toNat) <<< 8 + first.toNat :=
    (Nat.shiftLeft_add_eq_or_of_lt a _).symm
  have top : fourth.toNat <<< 24 % 2 ^ 32 = fourth.toNat <<< 24 :=
    Nat.mod_eq_of_lt (by rw [Nat.shiftLeft_eq]; omega)
  have next : third.toNat <<< 16 % 2 ^ 32 = third.toNat <<< 16 :=
    Nat.mod_eq_of_lt (by rw [Nat.shiftLeft_eq]; omega)
  have last : second.toNat <<< 8 % 2 ^ 32 = second.toNat <<< 8 :=
    Nat.mod_eq_of_lt (by rw [Nat.shiftLeft_eq]; omega)
  simp only [word, BigEndian.word, UInt32.toNat_or, UInt32.toNat_shiftLeft, UInt8.toNat_toUInt32,
    UInt32.reduceToNat, Nat.reduceMod, top, next, last, upper, middle, lower]
  simp only [number, Nat.shiftLeft_eq]
  omega

theorem bytes32_exact (value : UInt32) : bytes32 value = numeral 4 value.toNat := by
  simp only [bytes32, numeral, List.cons.injEq, ← UInt8.toNat_inj]
  simp [Nat.shiftRight_eq_div_pow]
  omega

theorem number_bytes32 (value : UInt32) : number (bytes32 value) = value.toNat := by
  rw [bytes32_exact, number_numeral]
  exact Nat.mod_eq_of_lt value.toNat_lt

theorem number_word (value : UInt32) (rest : Bytes) :
    number (bytes32 value ++ rest) = value.toNat + 2 ^ 32 * number rest := by
  rw [← number_bytes32]
  simp only [bytes32, List.cons_append, List.nil_append, number]
  omega

theorem word_bytes (value : UInt32) :
    word value.toUInt8 (value >>> 8).toUInt8 (value >>> 16).toUInt8 (value >>> 24).toUInt8 =
      value := by
  have read := congrArg number (bytes32_exact value)
  rw [number_numeral 4, Nat.mod_eq_of_lt (by simpa using value.toNat_lt)] at read
  exact UInt32.toNat_inj.mp ((word_exact _ _ _ _).trans read)

theorem bytes32_word (first second third fourth : UInt8) :
    bytes32 (word first second third fourth) = [first, second, third, fourth] := by
  rw [bytes32_exact, word_exact]
  exact numeral_number [first, second, third, fourth]

theorem four_bytes (block : Bytes) (whole : block.length = 4) : ∃ value, bytes32 value = block := by
  match block, whole with
  | [first, second, third, fourth], _ => exact ⟨_, bytes32_word first second third fourth⟩

theorem words_bytes (value : UInt32) (rest : Bytes) :
    words (bytes32 value ++ rest) = value :: words rest := by
  rw [bytes32, List.cons_append, List.cons_append, List.cons_append, List.cons_append,
    List.nil_append, words, word_bytes]

theorem flat_words (bytes : Bytes) (count : Nat) (aligned : bytes.length = count * 4) :
    (words bytes).flatMap bytes32 = bytes := by
  apply Bytes.blocks_induction 4 (fun bytes => (words bytes).flatMap bytes32 = bytes) rfl ?further
    bytes count aligned
  case further =>
    intro block rest whole ih
    obtain ⟨value, rfl⟩ := four_bytes block whole
    rw [words_bytes, List.flatMap_cons, ih]

theorem words_length (bytes : Bytes) (count : Nat) (aligned : bytes.length = count * 4) :
    (words bytes).length = count := by
  have width := Bytes.flat_length bytes32 4 (fun _ => rfl) (words bytes)
  rw [flat_words bytes count aligned] at width
  omega

theorem bytes32_xor (left right : UInt32) :
    bytes32 (left ^^^ right) = Bytes.xor (bytes32 left) (bytes32 right) := by
  simp only [bytes32, UInt32.shiftRight_xor, UInt32.toUInt8_xor, Bytes.xor, List.zipWith_cons_cons,
    List.zipWith_nil_left]

theorem pair_exact (low high : UInt32) :
    (low.toUInt64 ||| (high.toUInt64 <<< 32)).toNat = low.toNat + 2 ^ 32 * high.toNat := by
  have a := low.toNat_lt
  have b := high.toNat_lt
  have room : high.toNat <<< 32 % 2 ^ 64 = high.toNat <<< 32 :=
    Nat.mod_eq_of_lt (by rw [Nat.shiftLeft_eq]; omega)
  simp only [UInt64.toNat_or, UInt64.toNat_shiftLeft, UInt32.toNat_toUInt64, UInt64.reduceToNat,
    Nat.reduceMod, room]
  rw [Nat.or_comm, ← Nat.shiftLeft_add_eq_or_of_lt a, Nat.shiftLeft_eq]
  omega

theorem pair_halves (value : UInt64) :
    value.toUInt32.toUInt64 ||| ((value >>> 32).toUInt32.toUInt64 <<< 32) = value := by
  have bound := value.toNat_lt
  apply UInt64.toNat_inj.mp
  rw [pair_exact]
  simp [Nat.shiftRight_eq_div_pow]
  omega

theorem bytes64_pair (low high : UInt32) :
    bytes64 (low.toUInt64 ||| (high.toUInt64 <<< 32)) = bytes32 low ++ bytes32 high := by
  have a := low.toNat_lt
  have b := high.toNat_lt
  have lower : (low.toUInt64 ||| (high.toUInt64 <<< 32)).toUInt32 = low := by
    apply UInt32.toNat_inj.mp
    rw [UInt64.toNat_toUInt32, pair_exact]
    omega
  have upper : ((low.toUInt64 ||| (high.toUInt64 <<< 32)) >>> 32).toUInt32 = high := by
    apply UInt32.toNat_inj.mp
    rw [UInt64.toNat_toUInt32, UInt64.toNat_shiftRight, pair_exact]
    simp [Nat.shiftRight_eq_div_pow]
    omega
  rw [bytes64, lower, upper]

@[simp] theorem bytes64_length (value : UInt64) : (bytes64 value).length = 8 := rfl

theorem bytes64_byte (value : UInt64) (index : Nat) (inside : index < 8) :
    (bytes64 value)[index]? = some (value >>> UInt64.ofNat (8 * index)).toUInt8 := by
  have bound := value.toNat_lt
  interval_cases index <;> simp [bytes64, bytes32, ← UInt8.toNat_inj, Nat.shiftRight_eq_div_pow] <;>
    omega

theorem words64_bytes (value : UInt64) (rest : Bytes) :
    words64 (bytes64 value ++ rest) = value :: words64 rest := by
  rw [words64, bytes64, List.append_assoc, words_bytes, words_bytes, paired, pair_halves]
  rfl

theorem words64_flat (values : List UInt64) : words64 (values.flatMap bytes64) = values := by
  induction values with
  | nil => rfl
  | cons value values ih => rw [List.flatMap_cons, words64_bytes, ih]

theorem flat_words64 (bytes : Bytes) (count : Nat) (aligned : bytes.length = count * 8) :
    (words64 bytes).flatMap bytes64 = bytes := by
  apply Bytes.blocks_induction 8 (fun bytes => (words64 bytes).flatMap bytes64 = bytes) rfl ?further
    bytes count aligned
  case further =>
    intro block rest whole ih
    obtain ⟨low, front⟩ := four_bytes (block.take 4) (by rw [List.length_take, whole]; rfl)
    obtain ⟨high, back⟩ := four_bytes (block.drop 4) (by rw [List.length_drop, whole])
    rw [← List.take_append_drop 4 block, ← front, ← back, List.append_assoc, words64, words_bytes,
      words_bytes, paired, List.flatMap_cons, bytes64_pair, List.append_assoc]
    exact congrArg _ (congrArg _ ih)

theorem zeros64 (count : Nat) :
    (List.replicate count 0).flatMap bytes64 = Bytes.zeros (count * 8) := by
  induction count with
  | zero => rfl
  | succ count ih =>
      have more : (count + 1) * 8 = 8 + count * 8 := by omega
      rw [List.replicate_succ, List.flatMap_cons, ih, more, Bytes.zeros, Bytes.zeros,
        ← List.replicate_append_replicate]
      rfl

theorem bytes64_xor (left right : UInt64) :
    bytes64 (left ^^^ right) = Bytes.xor (bytes64 left) (bytes64 right) := by
  rw [bytes64, UInt64.shiftRight_xor, UInt64.toUInt32_xor, UInt64.toUInt32_xor, bytes32_xor,
    bytes32_xor]
  rfl

end LittleEndian

namespace BigEndian

theorem word_bytes (value : UInt32) :
    word (value >>> 24).toUInt8 (value >>> 16).toUInt8 (value >>> 8).toUInt8 value.toUInt8 =
      value :=
  LittleEndian.word_bytes value

theorem bytes32_word (first second third fourth : UInt8) :
    bytes32 (word first second third fourth) = [first, second, third, fourth] :=
  congrArg List.reverse (LittleEndian.bytes32_word fourth third second first)

end BigEndian

end SymmetricKey
