import SymmetricKey.Proofs.KmacStandard

/-!
All that goes into the sponge of KMAC. A sponge that keeps what it was handed
beside its state takes the calls that KMAC makes. What it then holds is the
string of the standard, zeros and length included, and no two inputs have it
in common.
-/

namespace SymmetricKey

/-- A sponge beside the string that has gone into it. -/
structure RecordedSponge where
  sponge : Sponge
  string : Bytes

namespace RecordedSponge

open Framing (encodedString bytePadded)

def empty (rate : Nat) : RecordedSponge := { sponge := Sponge.empty rate, string := [] }

def absorb (recorded : RecordedSponge) (data : Bytes) : RecordedSponge :=
  { sponge := recorded.sponge.absorb data, string := recorded.string ++ data }

-- To permute the state in the middle of a block is to absorb zeros up to its end.
def fillBlock (recorded : RecordedSponge) : RecordedSponge :=
  let missing :=
    if recorded.sponge.position = 0 then 0 else recorded.sponge.rate - recorded.sponge.position
  { sponge := recorded.sponge.fillBlock, string := recorded.string ++ Bytes.zeros missing }

def absorbString (recorded : RecordedSponge) (text : Bytes) : RecordedSponge :=
  (recorded.absorb (Framing.leftEncode (UInt64.ofNat text.length * 8))).absorb text

def absorbPadded (recorded : RecordedSponge) (texts : List Bytes) : RecordedSponge :=
  let started := recorded.absorb (Framing.leftEncode (UInt64.ofNat recorded.sponge.rate))
  (texts.foldl absorbString started).fillBlock

theorem absorb_strings_forget (recorded : RecordedSponge) (texts : List Bytes) :
    (texts.foldl absorbString recorded).sponge =
      texts.foldl Sponge.absorbString recorded.sponge :=
  (List.foldl_hom sponge fun _ _ => rfl).symm

theorem absorb_padded_forget (recorded : RecordedSponge) (texts : List Bytes) :
    (recorded.absorbPadded texts).sponge = recorded.sponge.absorbPadded texts :=
  congrArg Sponge.fillBlock (absorb_strings_forget _ texts)

theorem absorb_pieces_forget (recorded : RecordedSponge) (pieces : List Bytes) :
    (pieces.foldl absorb recorded).sponge = pieces.foldl Sponge.absorb recorded.sponge :=
  (List.foldl_hom sponge fun _ _ => rfl).symm

theorem steps_string (step : RecordedSponge → Bytes → RecordedSponge) (added : Bytes → Bytes)
    (adds : ∀ recorded text, (step recorded text).string = recorded.string ++ added text)
    (recorded : RecordedSponge) (texts : List Bytes) :
    (texts.foldl step recorded).string = recorded.string ++ texts.flatMap added :=
  calc
    (texts.foldl step recorded).string =
        texts.foldl (fun string text => string ++ added text) recorded.string :=
      (List.foldl_hom string fun recorded text => (adds recorded text).symm).symm
    _ = recorded.string ++ texts.flatMap added := List.foldl_append_eq_append

theorem absorb_pieces_string (recorded : RecordedSponge) (pieces : List Bytes) :
    (pieces.foldl absorb recorded).string = recorded.string ++ pieces.flatten := by
  rw [steps_string absorb id fun _ _ => rfl, List.flatMap_id]

theorem absorb_strings_string (recorded : RecordedSponge) (texts : List Bytes) :
    (texts.foldl absorbString recorded).string =
      recorded.string ++ texts.flatMap encodedString := by
  refine steps_string absorbString encodedString (fun recorded text => ?_) recorded texts
  rw [absorbString, absorb, absorb, List.append_assoc, Framing.encoded_string_exact]

/-- The state is the one that the standard has behind the recorded string. -/
def Truthful (strength : KmacStrength) (recorded : RecordedSponge) : Prop :=
  recorded.sponge = Kmac.taken strength recorded.string

namespace Truthful

variable {strength : KmacStrength} {recorded : RecordedSponge}

theorem empty : Truthful strength (RecordedSponge.empty strength.rate) := Kmac.empty_taken strength

theorem absorb (truthful : Truthful strength recorded) (data : Bytes) :
    Truthful strength (recorded.absorb data) := by
  rw [Truthful, RecordedSponge.absorb, truthful, Kmac.absorb_taken]

theorem absorb_strings (truthful : Truthful strength recorded) (texts : List Bytes) :
    Truthful strength (texts.foldl absorbString recorded) := by
  induction texts generalizing recorded with
  | nil => exact truthful
  | cons text rest ih => exact ih ((truthful.absorb _).absorb text)

theorem absorb_pieces (truthful : Truthful strength recorded) (pieces : List Bytes) :
    Truthful strength (pieces.foldl RecordedSponge.absorb recorded) := by
  induction pieces generalizing recorded with
  | nil => exact truthful
  | cons piece rest ih => exact ih (truthful.absorb piece)

theorem rate (truthful : Truthful strength recorded) :
    recorded.sponge.rate = strength.standardRate := by
  rw [truthful]
  rfl

theorem position (truthful : Truthful strength recorded) :
    recorded.sponge.position = recorded.string.length % strength.standardRate := by
  rw [truthful, Kmac.taken, Sponge.behind, Sponge.started_position, List.length_drop, Nat.mul_comm,
    ← Nat.mod_eq_sub_mul_div]

theorem filled_string (truthful : Truthful strength recorded) :
    recorded.fillBlock.string = recorded.string ++ Bytes.zeros
      ((strength.standardRate - recorded.string.length % strength.standardRate) %
        strength.standardRate) := by
  rw [fillBlock, truthful.position, truthful.rate]
  by_cases aligned : recorded.string.length % strength.standardRate = 0
  · rw [if_pos aligned, aligned, Nat.sub_zero, Nat.mod_self]
  · have fewer : strength.standardRate - recorded.string.length % strength.standardRate <
        strength.standardRate := by
      have begun := Nat.mod_lt recorded.string.length strength.rate_positive
      omega
    rw [if_neg aligned, Nat.mod_eq_of_lt fewer]

theorem fill (truthful : Truthful strength recorded) : Truthful strength recorded.fillBlock := by
  have filled := Sponge.fill_block_exact _ strength.rate_positive strength.rate_fits
    (Bytes.zeros 200) recorded.string (Bytes.zeros_length 200)
  rw [Truthful, truthful.filled_string, Kmac.taken, ← filled]
  exact congrArg Sponge.fillBlock truthful

theorem absorb_padded (truthful : Truthful strength recorded) (texts : List Bytes) :
    Truthful strength (recorded.absorbPadded texts) :=
  ((truthful.absorb _).absorb_strings texts).fill

theorem padded_string (truthful : Truthful strength recorded)
    (aligned : recorded.string.length % strength.standardRate = 0) (texts : List Bytes) :
    (recorded.absorbPadded texts).string =
      recorded.string ++ bytePadded strength.standardRate (texts.flatMap encodedString) := by
  have started := truthful.absorb (Framing.leftEncode (UInt64.ofNat recorded.sponge.rate))
  rw [absorbPadded, (started.absorb_strings texts).filled_string, absorb_strings_string,
    RecordedSponge.absorb, truthful.rate, Framing.left_encode_rate _ strength.rate_fits,
    List.append_assoc recorded.string, Framing.padded_behind_blocks _ _ _ aligned]

end Truthful

end RecordedSponge

namespace Kmac

open Framing (encodedString bytePadded)

/-- The sponge of the given inputs as it is before it is closed. -/
def recorded (strength : KmacStrength) (key custom : Bytes) (pieces : List Bytes) (length : Nat) :
    RecordedSponge :=
  let named := (RecordedSponge.empty strength.rate).absorbPadded [functionName, custom]
  (pieces.foldl RecordedSponge.absorb (named.absorbPadded [key])).absorb
    (Framing.rightEncode (UInt64.ofNat length * 8))

theorem absorb_pieces_running (context : Kmac) (pieces : List Bytes) :
    (pieces.foldl absorb context).running = pieces.foldl Sponge.absorb context.running :=
  (List.foldl_hom running fun _ _ => rfl).symm

theorem recorded_forget (strength : KmacStrength) (key custom : Bytes) (pieces : List Bytes)
    (length : Nat) :
    (pieces.foldl absorb (ofStrength strength key custom)).ready length =
      (recorded strength key custom pieces length).sponge := by
  rw [ready, absorb_pieces_running, recorded, RecordedSponge.absorb,
    RecordedSponge.absorb_pieces_forget, RecordedSponge.absorb_padded_forget,
    RecordedSponge.absorb_padded_forget, RecordedSponge.empty, ofStrength]

theorem recorded_string (strength : KmacStrength) (key custom : Bytes) (pieces : List Bytes)
    (length : Nat) (most : length ≤ maxSize) :
    (recorded strength key custom pieces length).string =
      framed strength key custom pieces.flatten length := by
  have fresh :
      RecordedSponge.Truthful strength (RecordedSponge.empty strength.rate) := .empty
  have name : ((RecordedSponge.empty strength.rate).absorbPadded [functionName, custom]).string =
      bytePadded strength.standardRate
        (encodedString [75, 77, 65, 67] ++ encodedString custom) := by
    rw [fresh.padded_string (Nat.zero_mod _), RecordedSponge.empty, List.nil_append]
    simp only [List.flatMap_cons, List.flatMap_nil, List.append_nil, functionName]
  have aligned := Framing.byte_padded_length strength.standardRate strength.rate_positive
    (encodedString [75, 77, 65, 67] ++ encodedString custom)
  rw [← name] at aligned
  rw [recorded, RecordedSponge.absorb, RecordedSponge.absorb_pieces_string,
    (fresh.absorb_padded _).padded_string aligned, name, List.flatMap_singleton,
    right_encode_length length most, framed, front]

theorem framed_iff (strength : KmacStrength)
    (custom key message otherCustom otherKey otherMessage : Bytes) (length otherLength : Nat)
    (customShort : custom.length < 2 ^ 61) (keyShort : key.length < 2 ^ 61)
    (otherCustomShort : otherCustom.length < 2 ^ 61) (otherKeyShort : otherKey.length < 2 ^ 61)
    (counted : 8 * length < 2 ^ 64) (otherCounted : 8 * otherLength < 2 ^ 64) :
    framed strength key custom message length =
        framed strength otherKey otherCustom otherMessage otherLength ↔
      (custom, key, message, length) = (otherCustom, otherKey, otherMessage, otherLength) := by
  -- Two parts read from the front, then the length from the end.
  constructor
  · intro same
    simp only [framed, front, List.append_assoc] at same
    obtain ⟨customs, behindName⟩ := Framing.byte_padded_parse _ _ custom otherCustom _ _
      customShort otherCustomShort same
    obtain ⟨keys, behindKey⟩ := Framing.byte_padded_parse _ [] key otherKey _ _
      keyShort otherKeyShort behindName
    obtain ⟨messages, lengths⟩ := Framing.right_encoded_parse _ _ counted otherCounted _ _ behindKey
    rw [customs, keys, messages, Nat.eq_of_mul_eq_mul_left (by decide) lengths]
  · intro same
    cases same
    rfl

/-- The bytes handed to the sponge in front of the padding, zeros and length included, are those of
one string, and it tells key, customization string, message and length. -/
theorem absorbed_string_tells_inputs (strength : KmacStrength)
    (custom key message otherCustom otherKey otherMessage : Bytes) (length otherLength : Nat)
    (customShort : custom.length < 2 ^ 61) (keyShort : key.length < 2 ^ 61)
    (otherCustomShort : otherCustom.length < 2 ^ 61) (otherKeyShort : otherKey.length < 2 ^ 61)
    (counted : 8 * length < 2 ^ 64) (otherCounted : 8 * otherLength < 2 ^ 64) :
    (∃ fresh, ofKey strength.bits key custom = .ok fresh ∧
      ∀ pieces : List Bytes, pieces.flatten = message →
        (pieces.foldl absorb fresh).ready length =
            (recorded strength key custom pieces length).sponge ∧
          (recorded strength key custom pieces length).string =
            framed strength key custom message length ∧
          (pieces.foldl absorb fresh).ready length =
            Sponge.behind strength.standardRate (Bytes.zeros 200)
              (framed strength key custom message length) ∧
          (pieces.foldl absorb fresh).ready length =
            (Sponge.empty strength.rate).absorb (framed strength key custom message length)) ∧
      (framed strength key custom message length =
          framed strength otherKey otherCustom otherMessage otherLength ↔
        (custom, key, message, length) = (otherCustom, otherKey, otherMessage, otherLength)) := by
  refine ⟨⟨_, of_key_awaiting strength key custom, ?_⟩, framed_iff strength _ _ _ _ _ _ _ _
    customShort keyShort otherCustomShort otherKeyShort counted otherCounted⟩
  rintro pieces rfl
  have most : length ≤ maxSize := by
    have bound : maxSize = 2 ^ 61 - 1 := rfl
    omega
  have behind : (pieces.foldl absorb (awaiting strength key custom [])).ready length =
      taken strength (framed strength key custom pieces.flatten length) := by
    rw [absorb_pieces_awaiting, List.nil_append, ready_awaiting strength key custom _ length most]
  refine ⟨?_, recorded_string strength key custom pieces length most, behind, ?_⟩
  · rw [← of_strength_awaiting strength key custom, recorded_forget]
  · rw [behind, empty_taken, absorb_taken, List.nil_append]

/-- A zero byte in the key, or in front of a message of two pieces. -/
theorem moved_zero_absorbed_apart :
    (∃ fresh, ofKey 128 [0] [] = .ok fresh ∧
      ([[1], [2]].foldl absorb fresh).ready 32 = (recorded .bits128 [0] [] [[1], [2]] 32).sponge ∧
      (recorded .bits128 [0] [] [[1], [2]] 32).string = framed .bits128 [0] [] [1, 2] 32 ∧
      ([[1], [2]].foldl absorb fresh).ready 32 =
        (Sponge.empty 168).absorb (framed .bits128 [0] [] [1, 2] 32)) ∧
      framed .bits128 [0] [] [1, 2] 32 ≠ framed .bits128 [] [] [0, 1, 2] 32 := by
  obtain ⟨⟨fresh, given, absorbed⟩, told⟩ := absorbed_string_tells_inputs .bits128 [] [0] [1, 2]
    [] [] [0, 1, 2] 32 32 (by decide) (by decide) (by decide) (by decide) (by decide) (by decide)
  obtain ⟨kept, held, -, whole⟩ := absorbed [[1], [2]] rfl
  refine ⟨⟨fresh, given, kept, held, whole⟩, fun same => ?_⟩
  exact absurd (told.mp same) (by decide)

end Kmac

end SymmetricKey
