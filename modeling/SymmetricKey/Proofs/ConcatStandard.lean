import SymmetricKey.Derivation.Concat
import SymmetricKey.Proofs.HashedMessages
import SymmetricKey.Proofs.HmacStandard
import SymmetricKey.Proofs.NumberedBlocks

/-!
Concatenation key derivation as SP 800-56A has it: digests of a counter, the
secret and the other information, each of the whole string. One hasher gives
them all, although every digest clears it.
-/

namespace SymmetricKey.Derivation

section Reference
variable (hash : Hash) (secret info : Bytes)

def standardDigest (number : Nat) : Bytes :=
  hash.digest (BigEndian.numeral 4 number ++ secret ++ info)

def standardConcat (size : Nat) : Bytes := frontOf hash (standardDigest hash secret info) size

end Reference

/-- The other information is not there, or shorter than its length says. -/
def InfoMissing (info : Option Bytes) (length : Nat) : Prop :=
  match info with
  | some bytes => bytes.length < length
  | none => 0 < length

/-- The part of the other information that counts. -/
def countedInfo (info : Option Bytes) (length : Nat) : Bytes := (info.getD []).take length

theorem used_info_missing (info : Option Bytes) (length : Nat) (missing : InfoMissing info length) :
    usedInfo info length = .error .invalidParameter := by
  cases info with
  | some bytes => exact if_neg (Nat.not_le.mpr missing)
  | none => exact if_neg (Nat.pos_iff_ne_zero.mp missing)

theorem used_info_there (info : Option Bytes) (length : Nat) (there : ¬InfoMissing info length) :
    usedInfo info length = .ok (countedInfo info length) := by
  cases info with
  | some bytes => exact if_pos (Nat.not_lt.mp there)
  | none =>
      have zero : length = 0 := Nat.eq_zero_of_not_pos there
      rw [usedInfo, if_pos zero, countedInfo, Option.getD_none, List.take_nil]

section Digests
variable (hash : Hash) (secret info : Bytes)

-- What the hasher held before does not matter, once it is restarted.
theorem restarted_digest (hasher : Hasher) (same : hasher.hash = hash) (counter : Bytes) :
    (((hasher.restart.absorb counter).absorb secret).absorb info).finishInto hash.digestSize =
      (.ok (hash.digest (counter ++ secret ++ info)), (Hasher.empty hash).cleared) := by
  have anew : hasher.restart = Hasher.behind hash hash.start [] := by
    rw [Hasher.restart, same, Hasher.empty_behind]
  have digest : (Hasher.behind hash hash.start (counter ++ secret ++ info)).digest =
      hash.digest (counter ++ secret ++ info) := by
    rw [Hasher.digest_behind, Hash.digest_exact]
  rw [anew, Hasher.absorb_behind, Hasher.absorb_behind, Hasher.absorb_behind, List.nil_append,
    ← digest]
  exact if_pos rfl

theorem counted_digests_exact (size : Nat) (accepted : size ≤ (2 ^ 32 - 1) * hash.digestSize)
    (hasher : Hasher) (same : hasher.hash = hash) (indices : List Nat)
    (begun : ∀ index ∈ indices, index * hash.digestSize < size) :
    countedDigests secret info hasher indices =
      .ok (indices.map fun index => standardDigest hash secret info (index + 1)) := by
  induction indices generalizing hasher with
  | nil => rfl
  | cons index later ih =>
      have number := number_exact hash size index accepted (begun index List.mem_cons_self)
      have first := restarted_digest hash secret info hasher same
        (BigEndian.numeral 4 (index + 1))
      -- The digest leaves a cleared hasher, of which only the algorithm is known.
      have others := ih (Hasher.empty hash).cleared rfl fun other member =>
        begun other (List.mem_cons_of_mem index member)
      rw [countedDigests, same, BigEndian.bytes32_exact, number, first]
      simp only [others]
      rfl

theorem concat_exact (given : Option Bytes) (length size : Nat)
    (accepted : size ≤ (2 ^ 32 - 1) * hash.digestSize) (there : ¬InfoMissing given length) :
    concat hash secret given length size =
      .ok (standardConcat hash secret (countedInfo given length) size) := by
  have digests := counted_digests_exact hash secret (countedInfo given length) size accepted
    (Hasher.empty hash) rfl (List.range (blockCount hash size)) fun index member =>
      block_begun hash size index (List.mem_range.mp member)
  rw [concat, used_info_there given length there, check_size_inside hash size accepted]
  change (countedDigests secret (countedInfo given length) _ (List.range (blockCount hash size)) >>=
    fun digests => pure (digests.flatten.take size)) = _
  rw [digests, standardConcat, frontOf, List.flatMap]
  rfl

theorem concat_missing (given : Option Bytes) (length size : Nat)
    (missing : InfoMissing given length) :
    concat hash secret given length size = .error .invalidParameter := by
  rw [concat, used_info_missing given length missing]
  rfl

theorem standard_digest_length (number : Nat) :
    (standardDigest hash secret info number).length = hash.digestSize := by
  rw [standardDigest, Hash.digest_length, Hash.digestSize]

end Digests

/-- A key is refused just when its other information is missing, and then the buffer stays as it
was; otherwise the buffer is filled with the front of the numbered digests, no number of which comes
twice. So other information behind its given length never counts, and a shorter key is the front. -/
theorem derives_counted_digests (hash : Hash) (secret : Bytes) (info : Option Bytes) (length : Nat)
    (buffer : Bytes) (accepted : buffer.length ≤ (2 ^ 32 - 1) * hash.digestSize) :
    (concat hash secret info length buffer.length = .error .invalidParameter ↔
        InfoMissing info length) ∧
      (InfoMissing info length →
        filled buffer (concat hash secret info length buffer.length) = buffer) ∧
      (¬InfoMissing info length →
        concat hash secret info length buffer.length =
            .ok (standardConcat hash secret (countedInfo info length) buffer.length) ∧
          filled buffer (concat hash secret info length buffer.length) =
            standardConcat hash secret (countedInfo info length) buffer.length) ∧
      (∀ bytes other, info = some bytes → length ≤ bytes.length → length ≤ other.length →
        other.take length = bytes.take length →
          concat hash secret (some other) length buffer.length =
            concat hash secret info length buffer.length) ∧
      ∀ shorter, shorter ≤ buffer.length →
        concat hash secret info length shorter =
          (concat hash secret info length buffer.length).map (·.take shorter) := by
  have whole := standard_digest_length hash secret (countedInfo info length)
  by_cases missing : InfoMissing info length
  · have refused := fun size => concat_missing hash secret info length size missing
    refine ⟨⟨fun _ => missing, fun _ => refused _⟩, fun _ => ?_,
      fun there => absurd missing there, ?_, fun shorter _ => ?_⟩
    · rw [refused, filled]
    · rintro bytes other rfl reached _ _
      exact absurd missing (Nat.not_lt.mpr reached)
    · rw [refused, refused]
      rfl
  · have answer := concat_exact hash secret info length buffer.length accepted missing
    refine ⟨⟨fun refused => ?_, fun there => absurd there missing⟩,
      fun there => absurd there missing, fun _ => ⟨answer, ?_⟩, ?_, fun shorter less => ?_⟩
    · rw [answer] at refused
      cases refused
    · have width := front_length hash _ whole buffer.length
      rw [answer, filled, standardConcat, Bytes.overlay_fitting _ _ width.le, width,
        List.drop_length, List.append_nil]
    · rintro bytes other rfl _ reached same
      have counted : countedInfo (some other) length = countedInfo (some bytes) length := same
      rw [answer, concat_exact hash secret (some other) length _ accepted (Nat.not_lt.mpr reached),
        counted]
    · rw [answer, concat_exact hash secret info length shorter (less.trans accepted) missing,
        standardConcat, front_shorter hash _ whole buffer.length shorter less]
      rfl

/-- Two digests, of which the second is cut. Of eight bytes of other information five count; two
bytes are too few. -/
theorem front_of_info_counted :
    concat .sha256 ((List.range 32).map UInt8.ofNat)
        (some [0x68, 0x65, 0x6c, 0x69, 0x78, 0x58, 0x59, 0x5a]) 5 40 =
      .ok [0xf2, 0x60, 0x2d, 0x9b, 0x2d, 0x2c, 0xc4, 0xb4, 0x38, 0xf6, 0x2e, 0x0c, 0x12, 0xc2, 0x62,
        0x7d, 0x61, 0x61, 0x5c, 0x7c, 0x7b, 0x40, 0xbb, 0xbe, 0xab, 0x0d, 0xcc, 0x97, 0xbf, 0x4c,
        0x89, 0xdb, 0x29, 0x3a, 0x0e, 0xbf, 0x35, 0x05, 0x41, 0xf0] ∧
      filled (Bytes.zeros 40) (concat .sha256 [1] (some [2, 3]) 5 40) = Bytes.zeros 40 := by
  constructor
  · obtain ⟨_, _, there, _⟩ := derives_counted_digests .sha256 ((List.range 32).map UInt8.ofNat)
      (some [0x68, 0x65, 0x6c, 0x69, 0x78, 0x58, 0x59, 0x5a]) 5 (Bytes.zeros 40) (by decide)
    have derived := (there (by decide : ¬8 < 5)).1
    rw [Bytes.zeros_length] at derived
    rw [derived]
    decide +kernel
  · have missing := (derives_counted_digests .sha256 [1] (some [2, 3]) 5 (Bytes.zeros 40)
      (by decide)).2.1 (by decide : 2 < 5)
    rwa [Bytes.zeros_length] at missing

end SymmetricKey.Derivation
