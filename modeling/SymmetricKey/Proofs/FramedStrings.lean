import SymmetricKey.Sponge.Framing
import SymmetricKey.Proofs.Numerals
import SymmetricKey.Proofs.ByteStrings
import Mathlib.Data.Nat.Log

/-!
The framing of SP 800-185. A number goes with the count of its bytes, a string
goes behind the count of its bits, and strings are filled up to whole blocks
behind the block size. Read from the front, or a number behind a string from the
end, there is one way to take each apart.
-/

namespace SymmetricKey.Framing

/-- The fewest bytes that the number needs, and at least one. -/
def width (number : Nat) : Nat := Nat.log 256 number + 1

def leftEncoded (number : Nat) : Bytes :=
  UInt8.ofNat (width number) :: BigEndian.numeral (width number) number

def rightEncoded (number : Nat) : Bytes :=
  BigEndian.numeral (width number) number ++ [UInt8.ofNat (width number)]

/-- The string behind the count of its bits, which is a number of 64 bits. -/
def encodedString (text : Bytes) : Bytes := leftEncoded (8 * text.length % 2 ^ 64) ++ text

/-- The content behind the block size, with the fewest zeros that make whole blocks of it all. -/
def bytePadded (rate : Nat) (content : Bytes) : Bytes :=
  let string := leftEncoded rate ++ content
  string ++ Bytes.zeros ((rate - string.length % rate) % rate)

theorem width_holds (number : Nat) : number < 256 ^ width number :=
  Nat.lt_pow_succ_log_self (by decide) number

theorem width_least (number count : Nat) (some : 0 < count) (holds : number < 256 ^ count) :
    width number ≤ count := by
  have below : Nat.log 256 number < count := Nat.log_lt_of_lt_pow' (by omega) holds
  exact below

theorem width_word (number : Nat) (bounded : number < 2 ^ 64) : width number ≤ 8 :=
  width_least number 8 (by decide) bounded

theorem numeral_leading (number : Nat) (some : number ≠ 0) :
    ∃ top rest, BigEndian.numeral (width number) number = top :: rest ∧ top ≠ 0 := by
  have least : 256 ^ Nat.log 256 number ≤ number := Nat.pow_log_le_self 256 some
  have most : number < 256 ^ Nat.log 256 number * 256 := width_holds number
  refine ⟨_, _, BigEndian.numeral_top _ number, fun none => ?_⟩
  have digit : number / 256 ^ Nat.log 256 number < 256 := Nat.div_lt_of_lt_mul most
  have positive : 0 < number / 256 ^ Nat.log 256 number :=
    Nat.div_pos least (Nat.pow_pos (by decide))
  have value := congrArg UInt8.toNat none
  rw [UInt8.toNat_ofNat_of_lt' digit] at value
  exact absurd value (by simpa using positive.ne')

theorem strip_zeros (count : Nat) (bytes : Bytes) :
    (Bytes.zeros count ++ bytes).dropWhile (· == 0) = bytes.dropWhile (· == 0) := by
  induction count with
  | zero => rfl
  | succ count ih => exact ih

theorem shortest_exact (number : UInt64) :
    shortest number = BigEndian.numeral (width number.toNat) number.toNat := by
  have narrow := width_word number.toNat number.toNat_lt
  have spread : BigEndian.bytes64 number = Bytes.zeros (8 - width number.toNat) ++
      BigEndian.numeral (width number.toNat) number.toNat := by
    rw [BigEndian.bytes64_exact, ← BigEndian.numeral_wide _ _ _ (width_holds _)]
    congr 1
    omega
  rw [shortest, spread, strip_zeros]
  by_cases some : number.toNat = 0
  · rw [some]
    rfl
  · obtain ⟨top, rest, leading, nonzero⟩ := numeral_leading number.toNat some
    have kept : ¬(top == 0) = true := fun zero => nonzero (eq_of_beq zero)
    rw [leading, List.dropWhile_cons, if_neg kept]

theorem left_encode_exact (number : UInt64) : leftEncode number = leftEncoded number.toNat := by
  rw [leftEncode, shortest_exact, BigEndian.numeral_length, leftEncoded]

theorem right_encode_exact (number : UInt64) : rightEncode number = rightEncoded number.toNat := by
  rw [rightEncode, shortest_exact, BigEndian.numeral_length, rightEncoded]

theorem bit_count (length : Nat) : (UInt64.ofNat length * 8).toNat = 8 * length % 2 ^ 64 := by
  simp only [UInt64.toNat_mul, UInt64.toNat_ofNat', UInt64.reduceToNat]
  omega

theorem encoded_string_exact (text : Bytes) :
    leftEncode (UInt64.ofNat text.length * 8) ++ text = encodedString text := by
  rw [left_encode_exact, bit_count, encodedString]

theorem encoded_string_short (text : Bytes) (short : text.length < 2 ^ 61) :
    encodedString text = leftEncoded (8 * text.length) ++ text := by
  rw [encodedString, Nat.mod_eq_of_lt (by omega)]

theorem width_code (left right : Nat) (leftWord : left < 2 ^ 64) (rightWord : right < 2 ^ 64)
    (same : UInt8.ofNat (width left) = UInt8.ofNat (width right)) : width left = width right := by
  have one := width_word left leftWord
  have other := width_word right rightWord
  have codes := congrArg UInt8.toNat same
  rwa [UInt8.toNat_ofNat_of_lt' (by simp only [UInt8.size]; omega),
    UInt8.toNat_ofNat_of_lt' (by simp only [UInt8.size]; omega)] at codes

theorem numeral_parse (left right : Nat) (more further : Bytes) (wide : width left = width right)
    (same : BigEndian.numeral (width left) left ++ more =
      BigEndian.numeral (width right) right ++ further) : left = right ∧ more = further := by
  obtain ⟨numerals, rest⟩ := List.append_inj same
    (by rw [BigEndian.numeral_length, BigEndian.numeral_length, wide])
  have values := congrArg BigEndian.number numerals
  rw [BigEndian.number_numeral, BigEndian.number_numeral, Nat.mod_eq_of_lt (width_holds left),
    Nat.mod_eq_of_lt (width_holds right)] at values
  exact ⟨values, rest⟩

theorem left_encoded_parse (left right : Nat) (leftWord : left < 2 ^ 64)
    (rightWord : right < 2 ^ 64) (more further : Bytes)
    (same : leftEncoded left ++ more = leftEncoded right ++ further) :
    left = right ∧ more = further := by
  obtain ⟨code, rest⟩ := List.cons.inj same
  exact numeral_parse left right more further (width_code left right leftWord rightWord code) rest

theorem right_encoded_parse (left right : Nat) (leftWord : left < 2 ^ 64)
    (rightWord : right < 2 ^ 64) (more further : Bytes)
    (same : more ++ rightEncoded left = further ++ rightEncoded right) :
    more = further ∧ left = right := by
  -- A number behind a string is read from the end.
  rw [rightEncoded, rightEncoded, ← List.append_assoc, ← List.append_assoc] at same
  obtain ⟨rest, code⟩ := List.append_inj' same rfl
  have wide := width_code left right leftWord rightWord (List.cons.inj code).1
  obtain ⟨front, numerals⟩ := List.append_inj' rest
    (by rw [BigEndian.numeral_length, BigEndian.numeral_length, wide])
  have values := numeral_parse left right [] [] wide (by rw [numerals])
  exact ⟨front, values.1⟩

theorem encoded_string_parse (left right : Bytes) (leftShort : left.length < 2 ^ 61)
    (rightShort : right.length < 2 ^ 61) (more further : Bytes)
    (same : encodedString left ++ more = encodedString right ++ further) :
    left = right ∧ more = further := by
  rw [encoded_string_short left leftShort, encoded_string_short right rightShort,
    List.append_assoc, List.append_assoc] at same
  obtain ⟨counts, rest⟩ := left_encoded_parse _ _ (by omega) (by omega) _ _ same
  exact List.append_inj rest (by omega)

theorem byte_padded_parse (rate : Nat) (front left right more further : Bytes)
    (leftShort : left.length < 2 ^ 61) (rightShort : right.length < 2 ^ 61)
    (same : bytePadded rate (front ++ encodedString left) ++ more =
      bytePadded rate (front ++ encodedString right) ++ further) :
    left = right ∧ more = further := by
  -- A padded string behind the same front, where the front and the string determine what is
  -- filled up.
  simp only [bytePadded, List.append_assoc, List.append_cancel_left_eq] at same
  obtain ⟨rfl, rest⟩ := encoded_string_parse left right leftShort rightShort _ _ same
  exact ⟨rfl, List.append_cancel_left rest⟩

end SymmetricKey.Framing
