import SymmetricKey.Bytes
import SymmetricKey.Catalogue.Name
import Mathlib.Data.List.Forall2
import Mathlib.Data.String.Basic

/-!
Names as the bytes of their characters. Folding a name folds its bytes one by
one, for no byte of a longer character is a letter, and names stand in the order
of their bytes.
-/

namespace SymmetricKey.Name

def bytes (name : String) : Bytes := name.toUTF8.data.toList

/-- The letters A to Z become a to z. -/
def foldByte (byte : UInt8) : UInt8 := if 0x41 ≤ byte ∧ byte ≤ 0x5A then byte + 0x20 else byte

/-- Of one length, and byte by byte the same up to the case of a letter. -/
def EqualUpToCase (left right : String) : Prop :=
  List.Forall₂ (fun left right => foldByte left = foldByte right) (bytes left) (bytes right)

theorem bytes_exact (name : String) : bytes name = name.toList.flatMap String.utf8EncodeChar := by
  rw [bytes, String.toUTF8_eq_toByteArray, ← String.utf8Encode_toList]
  simp [List.utf8Encode]

theorem bytes_injective (left right : String) (same : bytes left = bytes right) : left = right :=
  String.toByteArray_inj.mp (ByteArray.ext (Array.toList_inj.mp same))

/-- A leading byte, and then the `count` lowest digits to the base 64, the highest first. -/
def digits (lead : Nat) : Nat → Nat → Bytes
  | 0, value => [UInt8.ofNat (lead + value)]
  | count + 1, value => digits lead count (value / 64) ++ [UInt8.ofNat (0x80 + value % 64)]

/-- Where the leading bytes of a character count from, and how many digits follow. -/
inductive Encoded (letter : Char) : Nat → Nat → Prop where
  | one (most : letter.toNat ≤ 0x7F) : Encoded letter 0 0
  | two (least : 0x80 ≤ letter.toNat) (most : letter.toNat ≤ 0x7FF) : Encoded letter 0xC0 1
  | three (least : 0x800 ≤ letter.toNat) (most : letter.toNat ≤ 0xFFFF) : Encoded letter 0xE0 2
  | four (least : 0x10000 ≤ letter.toNat) (most : letter.toNat ≤ 0x10FFFF) : Encoded letter 0xF0 3

theorem encoded_exact (letter : Char) : ∃ lead count, Encoded letter lead count ∧
    String.utf8EncodeChar letter = digits lead count letter.toNat := by
  have largest : letter.toNat ≤ 0x10FFFF := by
    rcases letter.valid with low | ⟨_, high⟩
    · exact Nat.le_of_lt (Nat.lt_of_lt_of_le low (by decide))
    · exact Nat.le_of_lt_succ high
  have shape : ∀ value : Nat, letter.toNat = value → String.utf8EncodeChar letter =
      if value ≤ 0x7F then [UInt8.ofNat value]
      else if value ≤ 0x7FF then
        [UInt8.ofNat (value / 64 % 32 + 0xC0), UInt8.ofNat (value % 64 + 0x80)]
      else if value ≤ 0xFFFF then
        [UInt8.ofNat (value / 4096 % 16 + 0xE0), UInt8.ofNat (value / 64 % 64 + 0x80),
          UInt8.ofNat (value % 64 + 0x80)]
      else
        [UInt8.ofNat (value / 262144 % 8 + 0xF0), UInt8.ofNat (value / 4096 % 64 + 0x80),
          UInt8.ofNat (value / 64 % 64 + 0x80), UInt8.ofNat (value % 64 + 0x80)] := by
    rintro _ rfl
    rfl
  obtain ⟨value, same⟩ : ∃ value, letter.toNat = value := ⟨_, rfl⟩
  have twice : value / 4096 = value / 64 / 64 := (Nat.div_div_eq_div_mul value 64 64).symm
  have thrice : value / 262144 = value / 64 / 64 / 64 := by
    rw [Nat.div_div_eq_div_mul, Nat.div_div_eq_div_mul]
  rw [shape value same, twice, thrice]
  have digit : ∀ number : Nat, number % 64 + 0x80 = 0x80 + number % 64 := fun _ => Nat.add_comm _ _
  by_cases one : value ≤ 0x7F
  · refine ⟨0, 0, .one (same ▸ one), ?_⟩
    rw [if_pos one, digits, Nat.zero_add, same]
  · by_cases two : value ≤ 0x7FF
    · refine ⟨0xC0, 1, .two (by omega) (by omega), ?_⟩
      rw [if_neg one, if_pos two, Nat.mod_eq_of_lt (by omega), Nat.add_comm, digit, same]
      rfl
    · by_cases three : value ≤ 0xFFFF
      · refine ⟨0xE0, 2, .three (by omega) (by omega), ?_⟩
        rw [if_neg one, if_neg two, if_pos three, Nat.mod_eq_of_lt (by omega), Nat.add_comm, digit,
          digit, same]
        rfl
      · refine ⟨0xF0, 3, .four (by omega) (by omega), ?_⟩
        rw [if_neg one, if_neg two, if_neg three, Nat.mod_eq_of_lt (by omega), Nat.add_comm, digit,
          digit, digit, same]
        rfl

theorem digits_head (lead count value : Nat) :
    ∃ tail, digits lead count value = UInt8.ofNat (lead + value / 64 ^ count) :: tail := by
  induction count generalizing value with
  | zero => exact ⟨[], by rw [digits, Nat.pow_zero, Nat.div_one]⟩
  | succ count ih =>
      obtain ⟨tail, front⟩ := ih (value / 64)
      refine ⟨tail ++ [UInt8.ofNat (0x80 + value % 64)], ?_⟩
      rw [digits, front, Nat.div_div_eq_div_mul, ← Nat.pow_succ', List.cons_append]

theorem byte_lt (first second : Nat) (less : first < second) (most : second < 256)
    (rest others : Bytes) : UInt8.ofNat first :: rest < UInt8.ofNat second :: others := by
  have smaller : UInt8.ofNat first < UInt8.ofNat second := by
    rw [UInt8.lt_iff_toNat_lt, UInt8.toNat_ofNat_of_lt' (Nat.lt_trans less most),
      UInt8.toNat_ofNat_of_lt' most]
    exact less
  exact List.cons_lt_cons_iff.mpr (Or.inl smaller)

theorem digits_lt (lead count first second : Nat) (less : first < second)
    (most : lead + second / 64 ^ count < 256) (rest others : Bytes) :
    digits lead count first ++ rest < digits lead count second ++ others := by
  induction count generalizing first second rest others with
  | zero =>
      rw [Nat.pow_zero, Nat.div_one] at most
      exact byte_lt _ _ (by omega) most rest others
  | succ count ih =>
      rw [digits, digits, List.append_assoc, List.append_assoc]
      rw [Nat.pow_succ', ← Nat.div_div_eq_div_mul] at most
      rcases Nat.lt_or_eq_of_le
        (Nat.div_le_div_right (c := 64) (Nat.le_of_lt less)) with higher | same
      · exact ih _ _ higher most _ _
      · rw [same]
        exact List.append_left_lt (byte_lt _ _ (by omega) (by omega) rest others)

theorem encoded_lt (first second : Char) (less : first < second) (rest others : Bytes) :
    String.utf8EncodeChar first ++ rest < String.utf8EncodeChar second ++ others := by
  -- The order of characters shows in their bytes before either of them ends.
  have ordered : first.toNat < second.toNat := less
  obtain ⟨lead, count, form, bytes⟩ := encoded_exact first
  obtain ⟨lead', count', form', bytes'⟩ := encoded_exact second
  have most : lead' + second.toNat / 64 ^ count' < 256 := by
    cases form' <;> omega
  rw [bytes, bytes']
  by_cases alike : lead = lead' ∧ count = count'
  · obtain ⟨rfl, rfl⟩ := alike
    exact digits_lt lead count _ _ ordered most rest others
  · -- A character of fewer bytes has the smaller leading byte.
    have heads : lead + first.toNat / 64 ^ count < lead' + second.toNat / 64 ^ count' := by
      cases form <;> cases form' <;> omega
    obtain ⟨tail, front⟩ := digits_head lead count first.toNat
    obtain ⟨tail', front'⟩ := digits_head lead' count' second.toNat
    rw [front, front']
    exact byte_lt _ _ heads most _ _

theorem digits_high (lead count value : Nat) (high : 0x80 ≤ lead)
    (most : lead + value / 64 ^ count < 256) : ∀ byte ∈ digits lead count value, 0x80 ≤ byte := by
  have above : ∀ number : Nat, 0x80 ≤ number → number < 256 → 0x80 ≤ UInt8.ofNat number := by
    intro number least most
    rw [UInt8.le_iff_toNat_le, UInt8.toNat_ofNat_of_lt' most]
    exact least
  induction count generalizing value with
  | zero =>
      rw [Nat.pow_zero, Nat.div_one] at most
      intro byte member
      rw [List.mem_singleton.mp member]
      exact above _ (by omega) most
  | succ count ih =>
      rw [Nat.pow_succ', ← Nat.div_div_eq_div_mul] at most
      intro byte member
      rcases List.mem_append.mp member with front | last
      · exact ih (value / 64) most byte front
      · rw [List.mem_singleton.mp last]
        exact above _ (by omega) (by omega)

theorem fold_byte_kept (byte : UInt8) (other : ¬(0x41 ≤ byte ∧ byte ≤ 0x5A)) :
    foldByte byte = byte :=
  if_neg other

theorem lower_number (letter : Char) (upper : 65 ≤ letter.toNat ∧ letter.toNat ≤ 90) :
    letter.toLower.toNat = letter.toNat + 32 := by
  have lower : letter.toLower.val = letter.val + 32 := congrArg Char.val (dif_pos upper)
  have sum := congrArg UInt32.toNat lower
  rw [UInt32.toNat_add] at sum
  have small : letter.val.toNat ≤ 90 := upper.2
  rw [Char.toNat, sum, Nat.mod_eq_of_lt (by simp; omega)]
  rfl

theorem encoded_fold (letter : Char) :
    String.utf8EncodeChar letter.toLower = (String.utf8EncodeChar letter).map foldByte := by
  by_cases upper : 65 ≤ letter.toNat ∧ letter.toNat ≤ 90
  · have ascii : ∀ letter : Char, letter.toNat ≤ 0x7F →
        String.utf8EncodeChar letter = [UInt8.ofNat letter.toNat] := fun _ most => if_pos most
    have number := lower_number letter upper
    have folded : foldByte (UInt8.ofNat letter.toNat) = UInt8.ofNat (letter.toNat + 32) := by
      have byte := UInt8.toNat_ofNat_of_lt' (Nat.lt_of_le_of_lt upper.2 (by decide))
      rw [foldByte, if_pos, UInt8.ofNat_add]
      · rfl
      · rw [UInt8.le_iff_toNat_le, UInt8.le_iff_toNat_le, byte]
        exact upper
    rw [ascii _ (by omega), ascii _ (by omega), number, List.map_singleton, folded]
  · have kept : letter.toLower = letter := dif_neg upper
    have same : ∀ byte ∈ String.utf8EncodeChar letter, foldByte byte = byte := by
      obtain ⟨lead, count, form, bytes⟩ := encoded_exact letter
      intro byte member
      rw [bytes] at member
      apply fold_byte_kept
      rw [UInt8.le_iff_toNat_le, UInt8.le_iff_toNat_le]
      -- A code of one byte is no capital here, and longer codes have high bytes only.
      cases form with
      | one most =>
          rw [digits, Nat.zero_add] at member
          rw [List.mem_singleton.mp member,
            UInt8.toNat_ofNat_of_lt' (Nat.lt_of_le_of_lt most (by decide))]
          exact upper
      | _ =>
          have high := digits_high _ _ letter.toNat (by decide) (by omega) byte member
          rw [UInt8.le_iff_toNat_le] at high
          simp at high ⊢
          omega
    rw [kept, List.map_congr_left same, List.map_id']

theorem fold_bytes (name : String) : bytes (fold name) = (bytes name).map foldByte := by
  rw [bytes_exact, bytes_exact, fold, String.toList_ofList, List.flatMap_map, List.map_flatMap]
  simp only [encoded_fold]

theorem same_iff (left right : String) : same left right = true ↔ EqualUpToCase left right := by
  have aligned : EqualUpToCase left right ↔ (bytes left).map foldByte =
      (bytes right).map foldByte := by
    rw [← List.forall₂_eq_eq_eq, List.forall₂_map_left_iff, List.forall₂_map_right_iff]
    rfl
  rw [aligned, ← fold_bytes, ← fold_bytes, same, beq_iff_eq]
  exact ⟨congrArg bytes, bytes_injective _ _⟩

theorem letters_lt (left right : List Char) (less : left < right) :
    left.flatMap String.utf8EncodeChar < right.flatMap String.utf8EncodeChar := by
  induction less with
  | @nil letter letters =>
      rw [List.flatMap_nil, List.flatMap_cons]
      obtain ⟨byte, rest, some⟩ :=
        List.exists_cons_of_ne_nil (String.utf8EncodeChar_ne_nil (c := letter))
      rw [some]
      exact List.Lex.nil
  | rel less =>
      rw [List.flatMap_cons, List.flatMap_cons]
      exact encoded_lt _ _ less _ _
  | cons _ ih =>
      rw [List.flatMap_cons, List.flatMap_cons]
      exact List.append_left_lt ih

theorem lt_iff_bytes_lt (left right : String) : left < right ↔ bytes left < bytes right := by
  have onward : ∀ left right : String, left < right → bytes left < bytes right := by
    intro left right less
    rw [bytes_exact, bytes_exact]
    exact letters_lt _ _ (String.lt_iff.mp less)
  refine ⟨onward left right, fun less => ?_⟩
  rcases lt_trichotomy left right with before | rfl | behind
  · exact before
  · exact absurd less (List.lt_irrefl _)
  · exact absurd less (List.lt_asymm (onward right left behind))

end SymmetricKey.Name
