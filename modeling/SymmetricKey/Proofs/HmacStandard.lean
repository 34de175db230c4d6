import SymmetricKey.Authentication.Hmac
import SymmetricKey.Proofs.ChainMacs
import SymmetricKey.Proofs.HashedMessages

/-!
HMAC as RFC 2104 has it: two digests of whole strings, each behind the key with
its pattern. A context never hashes the key again. Among any copies it answers
every run of calls as one that keeps nothing but the message.
-/

namespace SymmetricKey

namespace Hash

theorem digest_length (hash : Hash) (message : Bytes) : (hash.digest message).length = 32 := rfl

end Hash

namespace Hmac

open ChainMac (ideal)

/-- The key, or the digest of one that is longer than a block, filled up with zeros. -/
def standardKey (hash : Hash) (key : Bytes) : Bytes :=
  if key.length ≤ hash.blockSize then List.rightpad hash.blockSize 0 key
  else List.rightpad hash.blockSize 0 (hash.digest key)

def innerKey (hash : Hash) (key : Bytes) : Bytes :=
  Bytes.xor (standardKey hash key) (List.replicate hash.blockSize 0x36)

def outerKey (hash : Hash) (key : Bytes) : Bytes :=
  Bytes.xor (standardKey hash key) (List.replicate hash.blockSize 0x5C)

def standardTag (hash : Hash) (key message : Bytes) : Bytes :=
  hash.digest (outerKey hash key ++ hash.digest (innerKey hash key ++ message))

-- A published tag, under a key of twenty equal bytes.
example : standardTag .sha256 (List.replicate 20 0x0B) [72, 105, 32, 84, 104, 101, 114, 101] =
    [0xb0, 0x34, 0x4c, 0x61, 0xd8, 0xdb, 0x38, 0x53, 0x5c, 0xa8, 0xaf, 0xce, 0xaf, 0x0b, 0xf1, 0x2b,
      0x88, 0x1d, 0xc2, 0x00, 0xc9, 0x83, 0x3d, 0xa7, 0x26, 0xe9, 0x37, 0x6c, 0x2e, 0x32, 0xcf,
      0xf7] := by
  decide +kernel

theorem block_key_exact (hash : Hash) (key : Bytes) : blockKey hash key = standardKey hash key := by
  by_cases short : key.length ≤ hash.blockSize
  · have taken : ¬hash.blockSize < key.length := by omega
    rw [blockKey, standardKey, if_neg taken, if_pos short]
    rfl
  · have long : hash.blockSize < key.length := by omega
    rw [blockKey, standardKey, if_pos long, if_neg short]
    rfl

theorem standard_key_length (hash : Hash) (key : Bytes) :
    (standardKey hash key).length = hash.blockSize := by
  have fits : (hash.digest key).length ≤ hash.blockSize := by
    rw [Hash.digest_length, Hash.blockSize]
    decide
  rw [standardKey]
  split
  · rw [List.length_rightpad]
    omega
  · rw [List.length_rightpad]
    omega

theorem keyed_behind (hash : Hash) (key : Bytes) (pattern : UInt8) :
    keyed hash key pattern = Hasher.behind hash hash.start
      (Bytes.xor (standardKey hash key) (List.replicate hash.blockSize pattern)) := by
  rw [keyed, block_key_exact, Hasher.empty_behind, Hasher.absorb_behind, List.nil_append,
    Bytes.map_xor, standard_key_length]

def serve : Hmac → MacCall Unit → MacAnswer × Hmac :=
  MacCall.served reset (fun context data => (none, context.absorb data)) finish

def awaiting (hash : Hash) (key message : Bytes) : Hmac :=
  { hash
    inner := Hasher.behind hash hash.start (innerKey hash key)
    outer := Hasher.behind hash hash.start (outerKey hash key)
    running := Hasher.behind hash hash.start (innerKey hash key ++ message) }

theorem of_key_awaiting (hash : Hash) (key : Bytes) : ofKey hash key = awaiting hash key [] := by
  rw [awaiting, List.append_nil, innerKey, outerKey, ← keyed_behind, ← keyed_behind]
  rfl

theorem reset_awaiting (hash : Hash) (key message : Bytes) :
    (awaiting hash key message).reset = awaiting hash key [] := by
  rw [awaiting, awaiting, List.append_nil]
  rfl

theorem absorb_awaiting (hash : Hash) (key message data : Bytes) :
    (awaiting hash key message).absorb data = awaiting hash key (message ++ data) := by
  rw [awaiting, absorb, Hasher.absorb_behind, List.append_assoc]
  rfl

theorem tag_awaiting (hash : Hash) (key message : Bytes) :
    (awaiting hash key message).tag = standardTag hash key message := by
  rw [awaiting, tag, Hasher.absorb_behind, Hasher.digest_behind, ← Hash.digest_exact,
    Hasher.digest_behind, ← Hash.digest_exact]
  rfl

theorem finish_awaiting (hash : Hash) (key message : Bytes) (length : Nat) :
    (awaiting hash key message).finish length =
      if 1 ≤ length ∧ length ≤ hash.digestSize then
        (.ok ((standardTag hash key message).take length), awaiting hash key [])
      else (.error .invalidParameter, awaiting hash key message) := by
  have width : (awaiting hash key message).size = hash.digestSize := rfl
  by_cases inside : 1 ≤ length ∧ length ≤ hash.digestSize
  · rw [finish, width, check_tag_size_inside _ _ _ inside.1 inside.2, if_pos inside, tag_awaiting,
      reset_awaiting]
  · rw [finish, width, check_tag_size_outside _ _ _ (by omega), if_neg inside]

theorem serve_awaiting (hash : Hash) (key message : Bytes) (call : MacCall Unit) :
    serve (awaiting hash key message) call =
      ((ideal hash.digestSize (standardTag hash key) message call).1,
        awaiting hash key (ideal hash.digestSize (standardTag hash key) message call).2) := by
  cases call with
  | reset start => rw [serve, MacCall.served, reset_awaiting, ideal]
  | absorb data =>
      rw [serve, MacCall.served, absorb_awaiting]
      rfl
  | finish length =>
      rw [serve, MacCall.served, finish_awaiting, ideal]
      by_cases inside : 1 ≤ length ∧ length ≤ hash.digestSize
      · rw [if_pos inside, if_pos inside]
        rfl
      · rw [if_neg inside, if_neg inside]
        rfl

/-- A tag is made of the message since the start, the last reset or the last tag, whichever copies
the context went through. A length out of range is refused and leaves the message as it was. -/
theorem copies_answer_as_standard (hash : Hash) (key : Bytes)
    (steps : List (CopyStep (MacCall Unit))) :
    (CallRun.run (CallRun.amongCopies serve) (fun _ => ofKey hash key) steps).1 =
      (CallRun.run (CallRun.amongCopies (ideal hash.digestSize (standardTag hash key)))
        (fun _ => []) steps).1 := by
  apply CallRun.run_among_copies_alike serve (ideal hash.digestSize (standardTag hash key))
    (fun context message => context = awaiting hash key message) ?step
      _ _ (of_key_awaiting hash key)
  case step =>
    rintro context message call rfl
    rw [serve_awaiting]
    exact ⟨rfl, rfl⟩

end Hmac

end SymmetricKey
