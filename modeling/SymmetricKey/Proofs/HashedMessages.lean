import SymmetricKey.Digest
import SymmetricKey.Proofs.ByteStrings
import SymmetricKey.Proofs.CallRuns
import SymmetricKey.Proofs.Numerals

/-!
The digest of a message as the compression of its closed form, block by block.
However a message is cut, a hasher holds what is held after the message in one
piece. So a digest depends on the message alone, and a look at the chaining
value on the way costs nothing.
-/

namespace SymmetricKey

/-- A call of a hasher. Calls of the algorithm's own state come without room, which has its one
size there. -/
inductive HashCall where
  | restart
  | absorb (data : Bytes)
  | finish
  | finishInto (room : Nat)
  | chaining
  | chainingInto (room : Nat)

namespace Hash

/-- Behind the message come the marker, the fewest zeros that make whole blocks of it all, and the
count of its bits in eight bytes, which wraps round. -/
def closed (message : Bytes) : Bytes :=
  message ++ 0x80 :: Bytes.zeros ((64 - (message.length + 9) % 64) % 64) ++
    BigEndian.numeral 8 (8 * message.length % 2 ^ 64)

theorem closed_length (message : Bytes) :
    (closed message).length = (message.length + 9 + 63) / 64 * 64 := by
  simp only [closed, Bytes.zeros, List.length_append, List.length_cons, List.length_replicate,
    BigEndian.numeral_length]
  omega

def iterated (hash : Hash) (origin : Octet) (bytes : Bytes) : Octet :=
  (Bytes.wholeBlocks 64 bytes).foldl hash.compress origin

theorem iterated_append (hash : Hash) (origin : Octet) (front bytes : Bytes) (count : Nat)
    (aligned : front.length = count * 64) :
    hash.iterated origin (front ++ bytes) = hash.iterated (hash.iterated origin front) bytes := by
  rw [iterated, Bytes.whole_blocks_append 64 front bytes (by decide) count aligned,
    List.foldl_append, iterated, iterated]

theorem closing_exact (pending : Bytes) (length : UInt64) (short : pending.length < 64) :
    closing pending length = Bytes.wholeBlocks 64
      (pending ++ 0x80 :: Bytes.zeros ((64 - (pending.length + 9) % 64) % 64) ++
        BigEndian.bytes64 (length * 8)) := by
  -- The bits have a block of their own just where the fewest zeros run on into another block.
  have width : (BigEndian.bytes64 (length * 8)).length = 8 := by
    rw [BigEndian.bytes64_exact, BigEndian.numeral_length]
  by_cases late : 56 ≤ pending.length
  · have zeros : (64 - (pending.length + 9) % 64) % 64 = 63 - pending.length + 56 := by omega
    have marked : (pending ++ 0x80 :: Bytes.zeros (63 - pending.length)).length = 64 := by
      simp only [Bytes.zeros, List.length_append, List.length_cons, List.length_replicate]
      omega
    have counted : (Bytes.zeros 56 ++ BigEndian.bytes64 (length * 8)).length = 64 := by
      rw [List.length_append, width, Bytes.zeros, List.length_replicate]
    have parted := Bytes.whole_blocks_cons 64 _ (Bytes.zeros 56 ++ BigEndian.bytes64 (length * 8))
      (by decide) marked
    rw [Bytes.whole_blocks_single 64 _ (by decide) counted] at parted
    rw [closing, if_pos late, zeros, ← parted, Bytes.zeros, Bytes.zeros, Bytes.zeros,
      ← List.replicate_append_replicate]
    simp only [List.append_assoc, List.cons_append]
  · have zeros : (64 - (pending.length + 9) % 64) % 64 = 55 - pending.length := by omega
    have marked : (pending ++ 0x80 :: Bytes.zeros (63 - pending.length)).take 56 =
        pending ++ 0x80 :: Bytes.zeros (55 - pending.length) := by
      have room : 56 - pending.length = 55 - pending.length + 1 := by omega
      have fewer : min (55 - pending.length) (63 - pending.length) = 55 - pending.length := by omega
      rw [List.take_append, List.take_of_length_le (by omega), room, List.take_succ_cons,
        Bytes.zeros, List.take_replicate, fewer, Bytes.zeros]
    have counted : (pending ++ 0x80 :: Bytes.zeros (55 - pending.length) ++
        BigEndian.bytes64 (length * 8)).length = 64 := by
      simp only [Bytes.zeros, List.length_append, List.length_cons, List.length_replicate, width]
      omega
    rw [closing, if_neg late, zeros, marked, Bytes.whole_blocks_single 64 _ (by decide) counted]

-- What closes a message depends on its whole blocks only through their number.
theorem closed_blocks (front pending : Bytes) (count : Nat) (aligned : front.length = count * 64)
    (short : pending.length < 64) :
    Bytes.wholeBlocks 64 (closed (front ++ pending)) =
      Bytes.wholeBlocks 64 front ++ closing pending (UInt64.ofNat (front ++ pending).length) := by
  have zeros : (64 - ((front ++ pending).length + 9) % 64) % 64 =
      (64 - (pending.length + 9) % 64) % 64 := by
    rw [List.length_append]
    omega
  have wrapped : BigEndian.numeral 8 (8 * (front ++ pending).length % 2 ^ 64) =
      BigEndian.numeral 8 (8 * (front ++ pending).length) := BigEndian.numeral_mod 8 _
  rw [closing_exact pending _ short,
    ← Bytes.whole_blocks_append 64 front _ (by decide) count aligned, BigEndian.bytes64_bits,
    closed, zeros, wrapped]
  simp only [List.append_assoc]

end Hash

namespace Hasher

open Hash (closed)

def behind (hash : Hash) (origin : Octet) (message : Bytes) : Hasher :=
  { hash
    chaining := hash.iterated origin message
    pending := message.drop (message.length / 64 * 64)
    length := UInt64.ofNat message.length }

theorem empty_behind (hash : Hash) : empty hash = behind hash hash.start [] := by
  rw [behind, Hash.iterated, Bytes.whole_blocks_short 64 [] (by decide)]
  rfl

theorem behind_split (hash : Hash) (origin : Octet) (message : Bytes) :
    ∃ front, front.length = message.length / 64 * 64 ∧
      front ++ (behind hash origin message).pending = message ∧
      (behind hash origin message).pending.length < 64 ∧
      (behind hash origin message).chaining = hash.iterated origin front := by
  refine ⟨message.take (message.length / 64 * 64), Bytes.complete_length 64 message,
    List.take_append_drop _ _, Bytes.rest_length 64 message (by decide), ?_⟩
  rw [behind, Hash.iterated, Hash.iterated, Bytes.whole_blocks_take 64 message (by decide)]

theorem absorb_hash (hasher : Hasher) (data : Bytes) : (hasher.absorb data).hash = hasher.hash := by
  rw [absorb]
  split
  · rfl
  · split <;> rfl

theorem absorb_blocks_exact (hasher : Hasher) (data : Bytes) :
    hasher.absorbBlocks data =
      { hasher with
        chaining := hasher.hash.compressAll hasher.chaining (Bytes.wholeBlocks 64 data)
        pending := data.drop (data.length / 64 * 64) } := by
  rw [absorbBlocks, Bytes.complete_blocks_exact 64 data (by decide)]

theorem absorb_blocks_completed (hasher : Hasher) (block others : Bytes)
    (full : block.length = 64) :
    { hasher with chaining := hasher.hash.compress hasher.chaining block }.absorbBlocks others =
      { hasher with
        chaining := hasher.hash.compressAll hasher.chaining (Bytes.wholeBlocks 64 (block ++ others))
        pending := (block ++ others).drop ((block ++ others).length / 64 * 64) } := by
  have reach : (block ++ others).length / 64 * 64 = block.length + others.length / 64 * 64 := by
    rw [List.length_append]
    omega
  rw [absorb_blocks_exact, Bytes.whole_blocks_cons 64 block others (by decide) full, reach,
    List.drop_length_add_append]
  rfl

theorem absorb_whole (hasher : Hasher) (short : hasher.pending.length < 64) (data : Bytes) :
    let bytes := hasher.pending ++ data
    hasher.absorb data =
      { hasher with
        chaining := hasher.hash.compressAll hasher.chaining (Bytes.wholeBlocks 64 bytes)
        pending := bytes.drop (bytes.length / 64 * 64)
        length := hasher.length + UInt64.ofNat data.length } := by
  -- Whether a block was begun, is completed or is not, the same blocks are cut.
  intro bytes
  by_cases none : hasher.pending = []
  · have all : bytes = data := by rw [← List.nil_append data, ← none]
    have empty : hasher.pending.isEmpty = true := List.isEmpty_iff.mpr none
    rw [all, absorb, if_pos empty, absorb_blocks_exact]
  · have begun : ¬hasher.pending.isEmpty = true := fun empty => none (List.isEmpty_iff.mp empty)
    by_cases few : data.length < 64 - hasher.pending.length
    · have within : bytes.length < 64 := by
        rw [List.length_append]
        omega
      have nothing : bytes.length / 64 * 64 = 0 := by omega
      rw [absorb, if_neg begun, if_pos few, Bytes.whole_blocks_short 64 bytes within, nothing]
      rfl
    · have full : (hasher.pending ++ data.take (64 - hasher.pending.length)).length = 64 := by
        rw [List.length_append, List.length_take]
        omega
      have parted : bytes = hasher.pending ++ data.take (64 - hasher.pending.length) ++
          data.drop (64 - hasher.pending.length) := by
        rw [List.append_assoc, List.take_append_drop]
      rw [absorb, if_neg begun, if_neg few, parted]
      exact absorb_blocks_completed
        { hasher with length := hasher.length + UInt64.ofNat data.length }
        _ _ full

theorem absorb_behind (hash : Hash) (origin : Octet) (message data : Bytes) :
    (behind hash origin message).absorb data = behind hash origin (message ++ data) := by
  obtain ⟨front, aligned, whole, short, chained⟩ := behind_split hash origin message
  have string : message ++ data = front ++ ((behind hash origin message).pending ++ data) := by
    rw [← List.append_assoc, whole]
  rw [absorb_whole _ short]
  generalize (behind hash origin message).pending ++ data = bytes at string
  have chaining :
      hash.compressAll (behind hash origin message).chaining (Bytes.wholeBlocks 64 bytes) =
      hash.iterated origin (message ++ data) := by
    rw [chained, string, Hash.iterated_append hash origin front bytes _ aligned]
    rfl
  have rest : bytes.drop (bytes.length / 64 * 64) =
      (message ++ data).drop ((message ++ data).length / 64 * 64) := by
    have reach : (message ++ data).length / 64 * 64 = front.length + bytes.length / 64 * 64 := by
      rw [string, List.length_append, aligned]
      omega
    rw [reach, string, List.drop_length_add_append]
  have counted : (behind hash origin message).length + UInt64.ofNat data.length =
      UInt64.ofNat (message ++ data).length := by
    rw [List.length_append, UInt64.ofNat_add, behind]
  change _ = Hasher.mk _ _ _ _
  rw [← chaining, ← rest, ← counted]
  rfl

theorem digest_behind (hash : Hash) (origin : Octet) (message : Bytes) :
    (behind hash origin message).digest = (hash.iterated origin (closed message)).toBigEndian := by
  obtain ⟨front, aligned, whole, short, chained⟩ := behind_split hash origin message
  have counted : (behind hash origin message).length =
      UInt64.ofNat (front ++ (behind hash origin message).pending).length := by
    rw [whole]
    rfl
  have closing := Hash.closed_blocks front _ _ aligned short
  rw [← counted, whole] at closing
  rw [digest, chained, Hash.iterated, Hash.iterated, closing, List.foldl_append]
  rfl

abbrev Answer := Option (Except Error Bytes)

def serve (hasher : Hasher) : HashCall → Answer × Hasher
  | .restart => (none, hasher.restart)
  | .absorb data => (none, hasher.absorb data)
  | .finish =>
      let (bytes, after) := hasher.finish
      (some (.ok bytes), after)
  | .finishInto room =>
      let (outcome, after) := hasher.finishInto room
      (some outcome, after)
  | .chaining => (some (.ok hasher.chainingBytes), hasher)
  | .chainingInto room => (some (hasher.chainingInto room), hasher)

/-- The message under way, which its first digest ends. -/
def track (message : Option Bytes) : HashCall × Answer → Option Bytes
  | (.restart, _) => some []
  | (.absorb data, _) => message.map (· ++ data)
  | (.finish, _) => none
  | (.finishInto _, some (.ok _)) => none
  | _ => message

def underWay (history : List (HashCall × Answer)) : Option Bytes := history.foldl track (some [])

/-- While no message is under way only the algorithm is known of the hasher. -/
structure Follows (hash : Hash) (message : Option Bytes) (hasher : Hasher) : Prop where
  algorithm : hasher.hash = hash
  standing : ∀ known, message = some known → hasher = behind hash hash.start known

theorem empty_follows (hash : Hash) : Follows hash (some []) (empty hash) :=
  ⟨rfl, fun known tracked => by
    cases tracked
    exact empty_behind hash⟩

theorem cleared_follows (hash : Hash) (hasher : Hasher) (same : hasher.hash = hash) :
    Follows hash none hasher.cleared :=
  ⟨same, fun _ tracked => by cases tracked⟩

theorem finish_into_fitting (hasher : Hasher) :
    hasher.finishInto 32 = (.ok hasher.digest, hasher.cleared) := if_pos rfl

theorem finish_into_other (hasher : Hasher) (room : Nat) (other : room ≠ 32) :
    hasher.finishInto room = (.error .invalidLength, hasher) := if_neg other

theorem serve_follows (hash : Hash) (message : Option Bytes) (hasher : Hasher)
    (follows : Follows hash message hasher) (call : HashCall) :
    Follows hash (track message (call, (serve hasher call).1)) (serve hasher call).2 := by
  cases call with
  | restart =>
      have anew : hasher.restart = empty hash := by rw [restart, follows.algorithm]
      rw [serve, anew]
      exact empty_follows hash
  | absorb data =>
      refine ⟨(absorb_hash hasher data).trans follows.algorithm, fun known tracked => ?_⟩
      obtain ⟨earlier, under, rfl⟩ := Option.map_eq_some_iff.mp tracked
      rw [serve, follows.standing earlier under, absorb_behind]
  | finish => exact cleared_follows hash hasher follows.algorithm
  | finishInto room =>
      by_cases fits : room = 32
      · rw [serve, fits, finish_into_fitting]
        exact cleared_follows hash hasher follows.algorithm
      · rw [serve, finish_into_other hasher room fits]
        exact follows
  | chaining => exact follows
  | chainingInto room => exact follows

theorem run_follows (hash : Hash) (calls : List HashCall) :
    Follows hash (underWay (CallRun.run serve (empty hash) calls).1)
      (CallRun.run serve (empty hash) calls).2 := by
  apply CallRun.run_keeps serve (fun history hasher => Follows hash (underWay history) hasher)
    ?step (empty hash) (empty_follows hash) calls
  case step =>
    intro history hasher call follows
    rw [underWay, List.foldl_append]
    exact serve_follows hash _ hasher follows call

/-- Behind every run of calls: the first digest of a message is that of its closed form, and the
chaining value before is that of its complete blocks. A digest leaves nothing but zeros, a restart
the start; a look at the chaining value leaves all as it was, and so does room of a wrong size. -/
theorem digests_closed_message (hash : Hash) (calls : List HashCall)
    (history : List (HashCall × Answer)) (hasher : Hasher)
    (served : CallRun.run serve (empty hash) calls = (history, hasher)) :
    (∀ message, underWay history = some message →
      (serve hasher .finish).1 =
          some (.ok (hash.iterated hash.start (closed message)).toBigEndian) ∧
        (serve hasher (.finishInto 32)).1 =
          some (.ok (hash.iterated hash.start (closed message)).toBigEndian) ∧
        (serve hasher .chaining).1 = some (.ok (hash.iterated hash.start message).toBigEndian) ∧
        (serve hasher (.chainingInto 32)).1 =
          some (.ok (hash.iterated hash.start message).toBigEndian)) ∧
      (serve hasher .finish).2 = ⟨hash, Octet.zero, [], 0⟩ ∧
      (serve hasher (.finishInto 32)).2 = ⟨hash, Octet.zero, [], 0⟩ ∧
      (serve hasher .restart).2 = empty hash ∧
      (serve hasher .chaining).2 = hasher ∧
      (serve hasher (.chainingInto 32)).2 = hasher ∧
      ∀ room, room ≠ 32 →
        serve hasher (.finishInto room) = (some (.error .invalidLength), hasher) ∧
          serve hasher (.chainingInto room) = (some (.error .invalidLength), hasher) := by
  have follows : Follows hash (underWay history) hasher := by
    have run := run_follows hash calls
    rwa [served] at run
  obtain ⟨same, standing⟩ := follows
  -- Ending a message clears the chaining value but keeps the algorithm.
  have cleared : hasher.cleared = ⟨hash, Octet.zero, [], 0⟩ := by
    rw [Hasher.cleared, same]
    rfl
  refine ⟨fun message under => ?_, cleared, cleared, ?_, rfl, rfl, fun room other => ?_⟩
  · have digest : hasher.digest = (hash.iterated hash.start (closed message)).toBigEndian := by
      rw [standing message under, digest_behind]
    have chaining : hasher.chainingBytes = (hash.iterated hash.start message).toBigEndian := by
      rw [standing message under]
      rfl
    rw [← digest, ← chaining]
    exact ⟨rfl, rfl, rfl, rfl⟩
  · change hasher.restart = empty hash
    rw [restart, same]
  · have refused : hasher.chainingInto room = .error .invalidLength := if_neg other
    exact ⟨by rw [serve, finish_into_other hasher room other], by rw [serve, refused]⟩

/-- A known digest, of three bytes in two pieces with a refusal and an early look between them. -/
theorem pieces_digested :
    ∃ history hasher,
      CallRun.run serve (empty .sha256)
          [.absorb [97], .finishInto 20, .chaining, .absorb [98, 99]] =
        (history, hasher) ∧
      underWay history = some [97, 98, 99] ∧
      (serve hasher (.finishInto 32)).1 = some (.ok
        [0xba, 0x78, 0x16, 0xbf, 0x8f, 0x01, 0xcf, 0xea, 0x41, 0x41, 0x40, 0xde, 0x5d, 0xae, 0x22,
          0x23, 0xb0, 0x03, 0x61, 0xa3, 0x96, 0x17, 0x7a, 0x9c, 0xb4, 0x10, 0xff, 0x61, 0xf2, 0x00,
          0x15, 0xad]) ∧
      serve hasher (.finishInto 33) = (some (.error .invalidLength), hasher) := by
  obtain ⟨digests, _, _, _, _, _, refused⟩ := digests_closed_message .sha256
    [.absorb [97], .finishInto 20, .chaining, .absorb [98, 99]] _ _ rfl
  obtain ⟨_, digest, _⟩ := digests [97, 98, 99] rfl
  refine ⟨_, _, rfl, rfl, ?_, (refused 33 (by decide)).1⟩
  rw [digest]
  decide +kernel

end Hasher

namespace Hash

theorem digest_exact (hash : Hash) (message : Bytes) :
    hash.digest message = (hash.iterated hash.start (closed message)).toBigEndian := by
  rw [digest, Hasher.empty_behind, Hasher.absorb_behind, List.nil_append, Hasher.digest_behind]

end Hash

end SymmetricKey
