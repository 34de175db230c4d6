import SymmetricKey.Proofs.Pbkdf2Standard
import SymmetricKey.Proofs.ScryptMixing

/-!
scrypt as RFC 7914 has it: the password and the salt are stretched to lanes, each
is mixed by itself, and the mixed lanes salt the derived key. Mixing all lanes in
one memory gives the same, since no lane reads what another one left there.
-/

namespace SymmetricKey.Derivation

namespace Scrypt

theorem power_of_two (number : UInt64) (accepted : isPowerOfTwo number = true) :
    ∃ bits, number.toNat = 2 ^ bits := by
  obtain ⟨some, single⟩ := Bool.and_eq_true_iff.mp accepted
  have nonzero : number.toNat ≠ 0 := fun zero =>
    bne_iff_ne.mp some (UInt64.toNat_inj.mp zero)
  have least : (1 : UInt64) ≤ number :=
    UInt64.le_iff_toNat_le.mpr (Nat.one_le_iff_ne_zero.mpr nonzero)
  have bits := congrArg UInt64.toNat (eq_of_beq single)
  rw [UInt64.toNat_and, UInt64.toNat_sub_of_le _ _ least] at bits
  exact (Nat.and_sub_one_eq_zero_iff_isPowerOfTwo nonzero).mp bits

theorem check_parameters_accepted (cost : UInt64) (width lanes : UInt32)
    (accepted : checkParameters cost width lanes = .ok ()) :
    (∃ bits, cost.toNat = 2 ^ bits) ∧ 0 < width.toNat ∧ 0 < lanes.toNat ∧
      width.toNat * lanes.toNat < 2 ^ 30 := by
  rw [checkParameters] at accepted
  split at accepted
  · cases accepted
  · rename_i bounds
    split at accepted
    · cases accepted
    · rename_i few
      simp only [not_or, Bool.not_eq_true', Bool.not_eq_false] at bounds
      obtain ⟨_, single, widthSome, lanesSome⟩ := bounds
      have positive : ∀ number : UInt32, number ≠ 0 → 0 < number.toNat := fun number some =>
        Nat.pos_of_ne_zero fun zero => some (UInt32.toNat_inj.mp zero)
      exact ⟨power_of_two cost single, positive width widthSome, positive lanes lanesSome,
        Nat.lt_of_not_le few⟩

-- All but the first two words are a multiple of `2^64`.
theorem block_number (block : SalsaBlock) :
    ∃ rest, LittleEndian.number block.toBytes =
      (block.get 0).toNat + 2 ^ 32 * (block.get 1).toNat + 2 ^ 64 * rest := by
  have words : block.toBytes = LittleEndian.bytes32 (block.get 0) ++
      (LittleEndian.bytes32 (block.get 1) ++
        ((List.finRange 16).drop 2).flatMap fun index =>
          LittleEndian.bytes32 (block.get index)) := by
    rw [SalsaBlock.toBytes, SalsaBlock.list_words, List.flatMap_map]
    rfl
  have value := congrArg LittleEndian.number words
  rw [LittleEndian.number_word, LittleEndian.number_word, Nat.mul_add, ← Nat.add_assoc,
    ← Nat.mul_assoc] at value
  exact ⟨_, value⟩

theorem place_exact (cost : UInt64) (bits : Nat) (power : cost.toNat = 2 ^ bits) (width : Nat)
    (positive : 0 < width) (lane : Lane) (whole : lane.length = 2 * width) :
    (placeOf cost lane).toNat = integerify width lane.toBytes % cost.toNat := by
  have some : (1 : UInt64) ≤ cost := by
    rw [UInt64.le_iff_toNat_le, power]
    exact Nat.one_le_two_pow
  have narrow : bits ≤ 64 := by
    have bounded := cost.toNat_lt
    rw [power] at bounded
    exact (Nat.pow_lt_pow_iff_right (by decide)).mp bounded |>.le
  have one : (1 : UInt64).toNat = 1 := rfl
  obtain ⟨rest, number⟩ := block_number (lane.getLastD zeroBlock)
  have multiple : 2 ^ 64 * rest = 2 ^ bits * (2 ^ (64 - bits) * rest) := by
    rw [← Nat.mul_assoc, ← Nat.pow_add, Nat.add_sub_cancel' narrow]
  rw [placeOf, UInt64.toNat_and, UInt64.toNat_sub_of_le _ _ some, LittleEndian.pair_exact, power,
    one, Nat.and_two_pow_sub_one_eq_mod, integerify, last_block_text width positive lane whole,
    number, multiple, Nat.add_mul_mod_self_left]

/-- The memory while a lane is mixed that began as `start`. Its first `count` values are kept, out
of as many as the cost. -/
structure Holds (width cost : Nat) (start : Lane) (count : Nat) (lane : Lane) (memory : Memory) :
    Prop where
  same : memory.lane = lane
  whole : lane.length = 2 * width
  room : memory.room.length = 2 * width
  size : memory.kept.size = cost
  values : ∀ place, place < count → memory.kept[place]? = some ((stirred width)^[place] start)

section Memory
variable {width cost : Nat} {start lane : Lane} {count : Nat} {memory : Memory}

theorem Holds.stir (holds : Holds width cost start count lane memory) :
    Holds width cost start count (stirred width lane) memory.stir := by
  obtain ⟨rfl, whole, room, size, values⟩ := holds
  rw [stir_exact width memory whole room]
  exact ⟨rfl, stirred_length width _, stirred_length width _, size, values⟩

theorem Holds.keep (holds : Holds width cost start count ((stirred width)^[count] start) memory)
    (further : count < cost) :
    Holds width cost start (count + 1) ((stirred width)^[count + 1] start) (memory.keep count) := by
  rw [Function.iterate_succ_apply']
  apply Holds.stir
  obtain ⟨same, whole, room, size, values⟩ := holds
  refine ⟨same, whole, room, by rw [Array.size_setIfInBounds, size], fun place inside => ?_⟩
  rw [Array.getElem?_setIfInBounds]
  by_cases here : count = place
  · rw [if_pos here, if_pos (by omega), same, here]
  · rw [if_neg here, values place (by omega)]

/-- Whatever had been kept before is overwritten. -/
theorem Holds.fill (holds : Holds width cost start 0 start memory) (most : count ≤ cost) :
    Holds width cost start count ((stirred width)^[count] start)
      ((List.range count).foldl Memory.keep memory) := by
  induction count with
  | zero => exact holds
  | succ count ih =>
      rw [List.range_succ, List.foldl_append]
      exact (ih (by omega)).keep (by omega)

/-- The lane is added to the value that it points at. -/
def lookedUp (width cost : Nat) (start lane : Lane) : Lane :=
  stirred width (lane.xor ((stirred width)^[integerify width lane.toBytes % cost] start))

theorem Holds.lookUp {cost : UInt64} (bits : Nat) (power : cost.toNat = 2 ^ bits)
    (positive : 0 < width) (wide : start.length = 2 * width)
    (holds : Holds width cost.toNat start cost.toNat lane memory) :
    Holds width cost.toNat start cost.toNat (lookedUp width cost.toNat start lane)
      (lookUp cost memory) := by
  apply Holds.stir
  obtain ⟨rfl, whole, room, size, values⟩ := holds
  have some : 0 < cost.toNat := by
    rw [power]
    exact Nat.two_pow_pos bits
  have found := values (integerify width memory.lane.toBytes % cost.toNat) (Nat.mod_lt _ some)
  have kept : memory.kept.getD (placeOf cost memory.lane).toNat [] =
      (stirred width)^[integerify width memory.lane.toBytes % cost.toNat] start := by
    rw [place_exact cost bits power width positive memory.lane whole, Array.getD_eq_getD_getElem?,
      found, Option.getD_some]
  refine ⟨congrArg memory.lane.xor kept, ?_, room, size, values⟩
  rw [Lane.xor_length, whole, stirred_iterate_length width start wide, Nat.min_self]

theorem Holds.mix {cost : UInt64} (bits : Nat) (power : cost.toNat = 2 ^ bits)
    (positive : 0 < width) (wide : start.length = 2 * width)
    (holds : Holds width cost.toNat start cost.toNat lane memory) (steps : Nat) :
    Holds width cost.toNat start cost.toNat ((lookedUp width cost.toNat start)^[steps] lane)
      (Nat.repeat (Scrypt.lookUp cost) steps memory) := by
  induction steps with
  | zero => exact holds
  | succ steps ih =>
      rw [Function.iterate_succ_apply', Nat.repeat]
      exact ih.lookUp bits power positive wide

theorem looked_up_text (positive : 0 < width) (wide : start.length = 2 * width)
    (whole : lane.length = 2 * width) :
    (lookedUp width cost start lane).toBytes =
      blockMix width (Bytes.xor lane.toBytes
        ((blockMix width)^[integerify width lane.toBytes % cost] start.toBytes)) := by
  rw [lookedUp, stirred_text width positive, Lane.xor_text,
    stirred_iterate_text width positive start wide]
  rw [Lane.xor_length, whole, stirred_iterate_length width start wide, Nat.min_self]

variable (cost) in
theorem mixed_text (positive : 0 < width) (wide : start.length = 2 * width)
    (whole : lane.length = 2 * width) (steps : Nat) :
    ((lookedUp width cost start)^[steps] lane).toBytes =
      (fun next => blockMix width (Bytes.xor next
        ((blockMix width)^[integerify width next % cost] start.toBytes)))^[steps] lane.toBytes := by
  induction steps generalizing lane with
  | zero => rfl
  | succ steps ih =>
      have next : (lookedUp width cost start lane).length = 2 * width := stirred_length width _
      rw [Function.iterate_succ_apply, Function.iterate_succ_apply, ih next,
        looked_up_text positive wide whole]

end Memory

theorem mix_lane_exact (cost : UInt64) (bits : Nat) (power : cost.toNat = 2 ^ bits) (width : Nat)
    (positive : 0 < width) (memory : Memory) (size : memory.kept.size = cost.toNat)
    (room : memory.room.length = 2 * width) (bytes : Bytes) (whole : bytes.length = 128 * width) :
    (mixLane cost memory bytes).1 = roMix width cost.toNat bytes ∧
      (mixLane cost memory bytes).2.kept.size = cost.toNat ∧
      (mixLane cost memory bytes).2.room.length = 2 * width := by
  -- A lane comes out mixed whatever the memory holds, and leaves memory of the same size.
  obtain ⟨text, wide⟩ := Lane.of_bytes_text bytes (2 * width) (by omega)
  have loaded : Holds width cost.toNat (Lane.ofBytes bytes) 0 (Lane.ofBytes bytes)
      { memory with lane := Lane.ofBytes bytes } :=
    ⟨rfl, wide, room, size, fun place none => absurd none (Nat.not_lt_zero place)⟩
  have filled := loaded.fill (le_refl _)
  have mixed := filled.mix bits power positive wide cost.toNat
  have result := mixed_text cost.toNat positive wide filled.whole cost.toNat
  rw [stirred_iterate_text width positive _ wide, text] at result
  rw [mixLane, size]
  refine ⟨?_, mixed.size, mixed.room⟩
  simp only [mixed.same, result, roMix]

theorem mix_lanes_exact (cost : UInt64) (bits : Nat) (power : cost.toNat = 2 ^ bits) (width : Nat)
    (positive : 0 < width) (lanes : List Bytes)
    (whole : ∀ bytes ∈ lanes, bytes.length = 128 * width) (memory : Memory)
    (size : memory.kept.size = cost.toNat) (room : memory.room.length = 2 * width) :
    mixLanes cost memory lanes = lanes.map (roMix width cost.toNat) := by
  induction lanes generalizing memory with
  | nil => rfl
  | cons bytes lanes ih =>
      obtain ⟨first, sized, roomy⟩ := mix_lane_exact cost bits power width positive memory size room
        bytes (whole bytes List.mem_cons_self)
      have step : mixLanes cost memory (bytes :: lanes) =
          (mixLane cost memory bytes).1 :: mixLanes cost (mixLane cost memory bytes).2 lanes := rfl
      rw [step, List.map_cons, first,
        ih (fun bytes member => whole bytes (List.mem_cons_of_mem _ member)) _ sized roomy]

def laneOf (width : Nat) (stretched : Bytes) (index : Nat) : Bytes :=
  (stretched.drop (128 * width * index)).take (128 * width)

theorem lanes_exact (width lanes : Nat) (positive : 0 < width) (stretched : Bytes)
    (whole : stretched.length = 128 * width * lanes) :
    Bytes.segments (128 * width) stretched = (List.range lanes).map (laneOf width stretched) := by
  have some : 0 < 128 * width := by omega
  rw [Bytes.segments_whole _ _ some lanes (by rw [whole, Nat.mul_comm]), Bytes.wholeBlocks, whole,
    Nat.mul_div_cancel_left _ some]
  rfl

end Scrypt

open Scrypt

/-- What the lanes are mixed to, one behind the other. -/
def mixedText (password salt : Bytes) (cost width lanes : Nat) : Bytes :=
  let stretched := standardPbkdf2 .sha256 password salt 1 (128 * width * lanes)
  (List.range lanes).flatMap fun index => roMix width cost (laneOf width stretched index)

def standardScrypt (password salt : Bytes) (cost width lanes size : Nat) : Bytes :=
  standardPbkdf2 .sha256 password (mixedText password salt cost width lanes) 1 size

theorem standard_pbkdf2_length (hash : Hash) (password salt : Bytes) (iterations size : Nat) :
    (standardPbkdf2 hash password salt iterations size).length = size :=
  front_length hash _ (fun number => round_sum_length hash password salt number iterations) size

theorem scrypt_from_lanes (allocator : Allocator) (password salt : Bytes) (cost : UInt64)
    (width lanes : UInt32) (size : Nat) (accepted : checkParameters cost width lanes = .ok ())
    (reserved : reserveAll allocator cost width lanes = .ok ()) :
    (scryptWith allocator password salt cost width lanes size).run.value =
      pbkdf2 .sha256 password (mixedText password salt cost.toNat width.toNat lanes.toNat) 1
        size := by
  obtain ⟨⟨bits, power⟩, positive, _, few⟩ := check_parameters_accepted cost width lanes accepted
  have once : 1 ≤ (1 : UInt32).toNat := by decide
  have stretched := pbkdf2_exact .sha256 password salt 1 once (128 * width.toNat * lanes.toNat)
    (by rw [Hash.digestSize, Nat.mul_assoc]; omega)
  have length := standard_pbkdf2_length .sha256 password salt 1 (128 * width.toNat * lanes.toNat)
  have pieces := lanes_exact width.toNat lanes.toNat positive _ length
  have mixed := mix_lanes_exact cost bits power width.toNat positive
    (Bytes.segments (128 * width.toNat) (standardPbkdf2 .sha256 password salt 1
      (128 * width.toNat * lanes.toNat)))
    (Bytes.segments_aligned _ _ (by omega) lanes.toNat (by rw [length, Nat.mul_comm]))
    (Memory.cleared cost.toNat (2 * width.toNat)) Array.size_replicate List.length_replicate
  rw [pieces, List.map_map] at mixed
  have checked : (Attempt.ofExcept (checkParameters cost width lanes)).run.value = .ok () :=
    accepted
  have recorded : (Attempt.record .debug (reservationText cost width lanes)).run.value = .ok () :=
    rfl
  have room : (Attempt.ofExcept (reserveAll allocator cost width lanes)).run.value = .ok () :=
    reserved
  have begun : (Attempt.ofExcept (pbkdf2 .sha256 password salt 1
      (128 * width.toNat * lanes.toNat))).run.value =
    .ok (standardPbkdf2 .sha256 password salt 1 (128 * width.toNat * lanes.toNat)) := stretched
  rw [scryptWith, Attempt.bind_value _ _ () checked, Attempt.bind_value _ _ () recorded,
    Attempt.bind_value _ _ () room, Attempt.bind_value _ _ _ begun, pieces]
  simp only [mixed]
  rfl

theorem scrypt_exact (allocator : Allocator) (password salt : Bytes) (cost : UInt64)
    (width lanes : UInt32) (size : Nat) (accepted : checkParameters cost width lanes = .ok ())
    (reserved : reserveAll allocator cost width lanes = .ok ())
    (sized : size ≤ (2 ^ 32 - 1) * 32) :
    (scryptWith allocator password salt cost width lanes size).run.value =
      .ok (standardScrypt password salt cost.toNat width.toNat lanes.toNat size) := by
  rw [scrypt_from_lanes allocator password salt cost width lanes size accepted reserved]
  exact pbkdf2_exact .sha256 password _ 1 (by decide) size sized

/-- Accepted parameters, for which the memory can be had, derive the key by the definition on whole
strings. How a lane is mixed depends on nothing that is left in the memory. -/
theorem derives_from_mixed_lanes (allocator : Allocator) (password salt : Bytes) (cost : UInt64)
    (width lanes : UInt32) (size : Nat) (accepted : checkParameters cost width lanes = .ok ())
    (reserved : reserveAll allocator cost width lanes = .ok ())
    (sized : size ≤ (2 ^ 32 - 1) * 32) :
    (scryptWith allocator password salt cost width lanes size).run.value =
        .ok (standardScrypt password salt cost.toNat width.toNat lanes.toNat size) ∧
      ∀ memory : Memory, memory.kept.size = cost.toNat → memory.room.length = 2 * width.toNat →
        ∀ bytes : Bytes, bytes.length = 128 * width.toNat →
          (mixLane cost memory bytes).1 = roMix width.toNat cost.toNat bytes := by
  obtain ⟨⟨bits, power⟩, positive, _⟩ := check_parameters_accepted cost width lanes accepted
  refine ⟨scrypt_exact allocator password salt cost width lanes size accepted reserved sized, ?_⟩
  intro memory kept room bytes whole
  exact (mix_lane_exact cost bits power width.toNat positive memory kept room bytes whole).1

/-- The smallest cost and width, in as little memory as these take, and a lane in memory that
another one has used. -/
theorem smallest_lane_mixed :
    let tight : Allocator := fun _ bytes => bytes ≤ 256
    checkParameters 2 1 1 = .ok () ∧ reserveAll tight 2 1 1 = .ok () ∧
      standardScrypt [] [] 2 1 1 16 =
        [0xfa, 0x76, 0xe0, 0x20, 0xd5, 0x4d, 0x9e, 0x8a, 0xa2, 0x40, 0x23, 0xc6, 0xba, 0xec, 0xdd,
          0x46] ∧
      (mixLane 2 { kept := #[[], [zeroBlock]], lane := [], room := [zeroBlock, zeroBlock] }
        (Bytes.zeros 128)).1 = roMix 1 2 (Bytes.zeros 128) := by
  intro tight
  have accepted : checkParameters 2 1 1 = .ok () := by decide
  have reserved : reserveAll tight 2 1 1 = .ok () := by decide
  obtain ⟨derived, independent⟩ :=
    derives_from_mixed_lanes tight [] [] 2 1 1 16 accepted reserved (by decide)
  have computed : (scryptWith tight [] [] 2 1 1 16).run.value = .ok [0xfa, 0x76, 0xe0, 0x20, 0xd5,
      0x4d, 0x9e, 0x8a, 0xa2, 0x40, 0x23, 0xc6, 0xba, 0xec, 0xdd, 0x46] := by decide +kernel
  rw [computed] at derived
  exact ⟨accepted, reserved, (Except.ok.inj derived).symm,
    independent _ rfl rfl _ (Bytes.zeros_length 128)⟩

end SymmetricKey.Derivation
