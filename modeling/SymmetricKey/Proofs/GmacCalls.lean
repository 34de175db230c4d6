import SymmetricKey.Authentication.Gmac
import SymmetricKey.Proofs.CallRuns
import SymmetricKey.Proofs.GcmStandard

/-!
The calls of GMAC, outcome by outcome. Between two calls a context stands for a
vector, for the string that its hash has taken in and for a length; the string
is the data only as long as no tag was asked for and refused.
-/

namespace SymmetricKey.Gmac

open Gcm.Standard (hashPoint firstCounter)
open Ghash (StandsFor filled lengthBlock)

variable {C : Type}

def serve [BlockCipher C] (context : Gmac C) : MacCall Bytes → MacAnswer × Gmac C
  | .reset iv =>
      match context.reset iv with
      | .error cause => (.refused cause, context)
      | .ok started => (.done, started)
  | .absorb data => (.done, context.absorb data)
  | .finish size =>
      let (outcome, after) := context.finish size
      (.ofTag outcome, after)

/-- The string behind which the block of lengths has been hashed. -/
def closed (string : Bytes) (length : Nat) : Bytes :=
  filled string ++ lengthBlock (UInt64.ofNat length) 0

/-- The hash of a string under the mask of a vector, cut to `size` bytes. -/
def maskedHash (function : Block 16 → Block 16) (iv string : Bytes) (size : Nat) : Bytes :=
  (Bytes.xor (Block.onBytes function (firstCounter function iv))
    (Ghash.hash (hashPoint function) string)).take size

theorem masked_hash_closed (function : Block 16 → Block 16) (iv data : Bytes) (size : Nat) :
    maskedHash function iv (closed data data.length) size =
      Gcm.Standard.cipherTag function iv data [] size := by
  have lengths := Ghash.length_block_exact data.length 0
  have none : filled [] = [] := rfl
  rw [maskedHash, closed, Gcm.Standard.cipherTag, none, List.append_nil, List.length_nil, ← lengths]
  rfl

def Keyed (function : Block 16 → Block 16) (context : Gmac C) : Prop :=
  context.key = GhashKey.ofBlock (Block.onBytes function (Bytes.zeros 16))

/-- The next tag is under this vector, and this much has been hashed for it. -/
structure Holds (function : Block 16 → Block 16) (context : Gmac C) (iv hashed : Bytes)
    (length : Nat) : Prop where
  keyed : Keyed function context
  given : iv ≠ []
  started : context.start = some (firstCounter function iv)
  standing : StandsFor (hashPoint function) context.hash hashed
  counted : context.length = UInt64.ofNat length

theorem reset_holds [BlockCipher C] (function : Block 16 → Block 16) (context : Gmac C)
    (keyed : Keyed function context) (iv : Bytes) (given : iv ≠ []) :
    (context.serve (.reset iv)).1 = .done ∧
      (context.serve (.reset iv)).2.cipher = context.cipher ∧
      Holds function (context.serve (.reset iv)).2 iv [] 0 := by
  have filled : ¬iv.isEmpty = true := by simpa using given
  have answer : context.serve (.reset iv) = (.done, { context with
      hash := Ghash.empty, start := some (Ghash.startBlock context.key iv), length := 0 }) := by
    rw [serve, reset, if_neg filled]
  rw [answer]
  refine ⟨rfl, rfl, keyed, given, ?_, Ghash.whole_stands_for (hashPoint function) [] 0 rfl, rfl⟩
  rw [keyed, Gcm.start_block_standard]

theorem absorb_holds (function : Block 16 → Block 16) (context : Gmac C) (iv hashed : Bytes)
    (length : Nat) (holds : Holds function context iv hashed length) (data : Bytes) :
    Holds function (context.absorb data) iv (hashed ++ data) (length + data.length) := by
  obtain ⟨keyed, given, started, standing, counted⟩ := holds
  refine ⟨keyed, given, started, ?_, ?_⟩
  · rw [absorb, keyed, Gcm.key_exact]
    exact Ghash.absorb_stands_for _ context.hash hashed data standing
  · rw [absorb, counted, UInt64.ofNat_add]

variable [BlockCipher C]

theorem finish_outside (context : Gmac C) (size : Nat) (outside : ¬(4 ≤ size ∧ size ≤ 16)) :
    context.finish size = (.error .invalidParameter, context) := by
  have wrong : checkTagSize size Gcm.minTagSize Gcm.maxTagSize = .error .invalidParameter :=
    check_tag_size_outside _ _ _ (by simp only [Gcm.minTagSize, Gcm.maxTagSize]; omega)
  rw [finish, wrong]

theorem finish_unstarted (context : Gmac C) (size : Nat) (unstarted : context.start = none) :
    context.finish size = (.error .invalidParameter, context) := by
  by_cases inside : 4 ≤ size ∧ size ≤ 16
  · have right : checkTagSize size Gcm.minTagSize Gcm.maxTagSize = .ok () :=
      check_tag_size_inside _ _ _ inside.1 inside.2
    rw [finish, right, unstarted]
  · exact finish_outside context size inside

section Started
variable (function : Block 16 → Block 16) (context : Gmac C) (iv hashed : Bytes) (length : Nat)
  (holds : Holds function context iv hashed length) (size : Nat) (inside : 4 ≤ size ∧ size ≤ 16)
include holds inside

theorem finish_answered (after : C)
    (called : BlockCipher.encryptBlock context.cipher (firstCounter function iv) 16 =
      (.ok (function (Block.ofFront 16 (firstCounter function iv))), after)) :
    context.finish size = (.ok (maskedHash function iv (closed hashed length) size),
      { context with cipher := after, hash := Ghash.empty, start := none, length := 0 }) := by
  have right : checkTagSize size Gcm.minTagSize Gcm.maxTagSize = .ok () :=
    check_tag_size_inside _ _ _ inside.1 inside.2
  have value := Ghash.close_exact (hashPoint function) context.hash hashed
    (UInt64.ofNat length) 0 holds.standing
  rw [← Gcm.key_exact, ← holds.keyed, ← holds.counted] at value
  rw [finish, right, holds.started]
  simp only [Gcm.blockSize, called, value]
  rw [maskedHash, closed, Bytes.xor_comm, holds.counted]
  rfl

theorem finish_unanswered (cause : Error) (after : C)
    (called : BlockCipher.encryptBlock context.cipher (firstCounter function iv) 16 =
      (.error cause, after)) :
    ∃ next, context.finish size = (.error cause, next) ∧ next.cipher = after ∧
      Holds function next iv (closed hashed length) length := by
  -- A refused mask comes too late: the block of lengths is in the hash already.
  have right : checkTagSize size Gcm.minTagSize Gcm.maxTagSize = .ok () :=
    check_tag_size_inside _ _ _ inside.1 inside.2
  have standing := Ghash.close_stands_for (hashPoint function) context.hash hashed
    (UInt64.ofNat length) 0 holds.standing
  rw [← Gcm.key_exact, ← holds.keyed, ← holds.counted] at standing
  refine ⟨{ context with
    cipher := after, hash := context.hash.close context.key context.length 0 }, ?_, rfl,
    holds.keyed, holds.given, holds.started, ?_, holds.counted⟩
  · rw [finish, right, holds.started]
    simp only [Gcm.blockSize, called]
  · rw [closed, ← holds.counted]
    exact standing

end Started

theorem of_cipher_keyed (function : Block 16 → Block 16) (cipher : C) (fresh : Gmac C)
    (honest : AnswersBy function cipher) (made : ofCipher cipher = .ok fresh) :
    AnswersBy function fresh.cipher ∧ Keyed function fresh ∧ fresh.start = none := by
  obtain ⟨after, kept, outcome⟩ :=
    honest.call function cipher (Bytes.zeros Gcm.blockSize) List.length_replicate
  rcases outcome with answer | ⟨cause, refused⟩
  · have asked : BlockCipher.encryptBlock cipher (Bytes.zeros Gcm.blockSize) Gcm.blockSize =
        (.ok (function (Block.ofFront 16 (Bytes.zeros 16))), after) := answer
    rw [ofCipher, asked] at made
    cases made
    exact ⟨kept, rfl, rfl⟩
  · have asked : BlockCipher.encryptBlock cipher (Bytes.zeros Gcm.blockSize) Gcm.blockSize =
        (.error cause, after) := refused
    rw [ofCipher, asked] at made
    cases made

end SymmetricKey.Gmac
