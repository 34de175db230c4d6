import SymmetricKey.Derivation.Pbkdf2
import SymmetricKey.Proofs.HmacStandard
import SymmetricKey.Proofs.NumberedBlocks

/-!
PBKDF2 as RFC 8018 has it. A block adds up a chain of tags: the first is that of
the salt with the number of the block, each other that of the tag before it. The
derivation, which keys the hash and absorbs the salt once for all blocks, gives
the front of these blocks.
-/

namespace SymmetricKey.Derivation

open Hmac (standardTag awaiting)

section Reference
variable (hash : Hash) (password salt : Bytes) (number : Nat)

def roundTag : Nat → Bytes
  | 0 => standardTag hash password (salt ++ BigEndian.numeral 4 number)
  | round + 1 => standardTag hash password (roundTag round)

def roundSum : Nat → Bytes
  | 0 => Bytes.zeros hash.digestSize
  | count + 1 => Bytes.xor (roundSum count) (roundTag hash password salt number count)

def standardPbkdf2 (iterations size : Nat) : Bytes :=
  frontOf hash (fun number => roundSum hash password salt number iterations) size

end Reference

theorem standard_tag_length (hash : Hash) (key message : Bytes) :
    (standardTag hash key message).length = hash.digestSize := by
  rw [standardTag, Hash.digest_length, Hash.digestSize]

-- A context of HMAC is copied for each tag. What the tag leaves of it is never used.
theorem full_tag_awaiting (hash : Hash) (key message data : Bytes) :
    fullTag (awaiting hash key message) data = .ok (standardTag hash key (message ++ data)) := by
  have size : (awaiting hash key message).size = hash.digestSize := rfl
  have whole : (standardTag hash key (message ++ data)).take hash.digestSize =
      standardTag hash key (message ++ data) :=
    List.take_of_length_le (standard_tag_length hash key _).le
  rw [fullTag, Hmac.absorb_awaiting, Hmac.finish_awaiting, size,
    if_pos ⟨digest_size_positive hash, le_refl _⟩, whole]

section Rounds
variable (hash : Hash) (password salt : Bytes)

theorem round_tag_length (number count : Nat) :
    (roundTag hash password salt number count).length = hash.digestSize := by
  cases count with
  | zero => exact standard_tag_length hash password _
  | succ count => exact standard_tag_length hash password _

theorem round_sum_length (number count : Nat) :
    (roundSum hash password salt number count).length = hash.digestSize := by
  induction count with
  | zero => exact Bytes.zeros_length _
  | succ count ih => rw [roundSum, Bytes.xor_length, ih, round_tag_length, Nat.min_self]

theorem round_sum_single (number : Nat) :
    roundSum hash password salt number 1 = roundTag hash password salt number 0 := by
  have width := round_tag_length hash password salt number 0
  rw [roundSum, roundSum, ← width, Bytes.zeros_xor]

theorem rounds_exact (number done count : Nat) :
    pbkdf2Rounds (awaiting hash password []) count (roundTag hash password salt number done)
        (roundSum hash password salt number (done + 1)) =
      .ok (roundSum hash password salt number (done + 1 + count)) := by
  induction count generalizing done with
  | zero => rfl
  | succ count ih =>
      have next : fullTag (awaiting hash password []) (roundTag hash password salt number done) =
          .ok (roundTag hash password salt number (done + 1)) := by
        rw [full_tag_awaiting, List.nil_append, roundTag]
      have later := ih (done + 1)
      rw [Nat.add_right_comm (done + 1) 1 count] at later
      rw [pbkdf2Rounds, next]
      exact later

theorem block_exact (iterations : Nat) (some : 1 ≤ iterations) (number : UInt32) :
    pbkdf2Block (awaiting hash password []) (awaiting hash password salt) iterations number =
      .ok (roundSum hash password salt number.toNat iterations) := by
  have first : fullTag (awaiting hash password salt) (BigEndian.bytes32 number) =
      .ok (roundTag hash password salt number.toNat 0) := by
    rw [full_tag_awaiting, BigEndian.bytes32_exact, roundTag]
  have later := rounds_exact hash password salt number.toNat 0 (iterations - 1)
  rw [Nat.zero_add, Nat.add_sub_cancel' some, round_sum_single] at later
  rw [pbkdf2Block, first]
  exact later

theorem pbkdf2_none (size : Nat) :
    pbkdf2 hash password salt 0 size = .error .invalidParameter := rfl

theorem pbkdf2_exact (iterations : UInt32) (some : 1 ≤ iterations.toNat) (size : Nat)
    (accepted : size ≤ (2 ^ 32 - 1) * hash.digestSize) :
    pbkdf2 hash password salt iterations size =
      .ok (standardPbkdf2 hash password salt iterations.toNat size) := by
  have going : iterations ≠ 0 := by
    rintro rfl
    exact absurd some (by decide)
  have salted : (Hmac.ofKey hash password).absorb salt = awaiting hash password salt := by
    rw [Hmac.of_key_awaiting, Hmac.absorb_awaiting, List.nil_append]
  have blocks := numbered_exact hash _
    (fun number => roundSum hash password salt number iterations.toNat)
    (block_exact hash password salt iterations.toNat some) size accepted
  rw [← Hmac.of_key_awaiting, ← salted] at blocks
  rw [pbkdf2, if_neg going, check_size_inside hash size accepted]
  exact blocks

end Rounds

/-- Any number of rounds but none derives the front of the blocks, into the caller's buffer too; no
number comes twice, so a shorter key is the front. No rounds at all are refused, and the buffer
stays as it was. -/
theorem derives_by_rounds (hash : Hash) (password salt : Bytes) (iterations : UInt32)
    (buffer : Bytes) :
    (1 ≤ iterations.toNat → buffer.length ≤ (2 ^ 32 - 1) * hash.digestSize →
      pbkdf2 hash password salt iterations buffer.length =
          .ok (standardPbkdf2 hash password salt iterations.toNat buffer.length) ∧
        filled buffer (pbkdf2 hash password salt iterations buffer.length) =
          standardPbkdf2 hash password salt iterations.toNat buffer.length ∧
        (∀ index, index * hash.digestSize < buffer.length →
          (UInt32.ofNat index + 1).toNat = index + 1) ∧
        ∀ shorter, shorter ≤ buffer.length →
          pbkdf2 hash password salt iterations shorter =
            (pbkdf2 hash password salt iterations buffer.length).map (·.take shorter)) ∧
      (iterations = 0 →
        pbkdf2 hash password salt iterations buffer.length = .error .invalidParameter ∧
          filled buffer (pbkdf2 hash password salt iterations buffer.length) = buffer) := by
  constructor
  · intro some accepted
    have whole := fun number => round_sum_length hash password salt number iterations.toNat
    have answer := pbkdf2_exact hash password salt iterations some buffer.length accepted
    refine ⟨answer, ?_, fun index => number_exact hash _ index accepted, fun shorter less => ?_⟩
    · have width := front_length hash _ whole buffer.length
      rw [answer, filled, standardPbkdf2, Bytes.overlay_fitting _ _ width.le, width,
        List.drop_length, List.append_nil]
    · rw [answer, pbkdf2_exact hash password salt iterations some shorter (less.trans accepted),
        standardPbkdf2, front_shorter hash _ whole buffer.length shorter less]
      rfl
  · rintro rfl
    rw [pbkdf2_none]
    exact ⟨rfl, rfl⟩

/-- A published key of two rounds, whose second block is cut. -/
theorem sample_key_derived :
    pbkdf2 .sha256 [0x70, 0x61, 0x73, 0x73, 0x77, 0x6f, 0x72, 0x64] [0x73, 0x61, 0x6c, 0x74] 2 40 =
      .ok [0xae, 0x4d, 0x0c, 0x95, 0xaf, 0x6b, 0x46, 0xd3, 0x2d, 0x0a, 0xdf, 0xf9, 0x28, 0xf0, 0x6d,
        0xd0, 0x2a, 0x30, 0x3f, 0x8e, 0xf3, 0xc2, 0x51, 0xdf, 0xd6, 0xe2, 0xd8, 0x5a, 0x95, 0x47,
        0x4c, 0x43, 0x83, 0x06, 0x51, 0xaf, 0xcb, 0x5c, 0x86, 0x2f] := by
  have derived := ((derives_by_rounds .sha256 [0x70, 0x61, 0x73, 0x73, 0x77, 0x6f, 0x72, 0x64]
    [0x73, 0x61, 0x6c, 0x74] 2 (Bytes.zeros 40)).1 (by decide) (by decide)).1
  rw [Bytes.zeros_length] at derived
  rw [derived]
  decide +kernel

end SymmetricKey.Derivation
