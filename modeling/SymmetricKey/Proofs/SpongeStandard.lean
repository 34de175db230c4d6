import SymmetricKey.Proofs.SpongeBytes
import Mathlib.Logic.Function.Iterate

/-!
The sponge as FIPS 202 has it, on strings of bytes: blocks of `rate` bytes are
added to the front of the state, which is permuted behind each of them, and each
further permutation gives out `rate` bytes. A sponge that takes its string in any
pieces, byte by byte or block by block, gives out the same.
-/

namespace SymmetricKey.Sponge

open Lanes (ofBytes widened)

/-- The permutation, of the state as a string. -/
def permuted (state : Bytes) : Bytes := (ofBytes state).permute.toBytes

def absorbed (state block : Bytes) : Bytes := permuted (Bytes.xor state (widened block))

def stateBehind (rate : Nat) (state string : Bytes) : Bytes :=
  (Bytes.wholeBlocks rate string).foldl absorbed state

/-- What completes a block: the domain byte, zeros, and a marker in the top bit. Where a single byte
is missing it is both the first and the last. -/
def ending (domain : UInt8) (missing : Nat) : Bytes :=
  Bytes.xor (domain :: Bytes.zeros (missing - 1)) (Bytes.zeros (missing - 1) ++ [0x80])

def padded (rate : Nat) (domain : UInt8) (string : Bytes) : Bytes :=
  string ++ ending domain (rate - string.length % rate)

/-- The fronts of one state after the other. -/
def fronts (rate : Nat) (state : Bytes) (count : Nat) : Bytes :=
  (List.range count).flatMap fun index => (permuted^[index] state).take rate

def standard (rate : Nat) (domain : UInt8) (string : Bytes) (length : Nat) : Bytes :=
  (fronts rate (stateBehind rate (Bytes.zeros 200) (padded rate domain string))
    ((length + rate - 1) / rate)).take length

theorem ending_length (domain : UInt8) (missing : Nat) (some : 0 < missing) :
    (ending domain missing).length = missing := by
  simp only [ending, Bytes.xor_length, Bytes.zeros_length, List.length_cons, List.length_append,
    List.length_nil]
  omega

theorem ending_longer (domain : UInt8) (between : Nat) :
    ending domain (between + 2) = domain :: Bytes.zeros between ++ [0x80] := by
  have last : Bytes.zeros (between + 1) = Bytes.zeros between ++ [0] :=
    (Bytes.zeros_append between 1).symm
  calc ending domain (between + 2)
      = Bytes.xor (domain :: Bytes.zeros (between + 1)) (0 :: (Bytes.zeros between ++ [0x80])) :=
        rfl
    _ = (domain ^^^ 0) :: Bytes.xor (Bytes.zeros between ++ [0])
        (Bytes.zeros between ++ [0x80]) := by
        rw [last]
        rfl
    _ = domain :: Bytes.zeros between ++ [0x80] := by
        rw [Bytes.xor_append _ _ _ _ rfl, Bytes.zeros_sum, UInt8.xor_zero]
        rfl

/-- The bits of a string, the lowest of each byte first. -/
def bits (bytes : Bytes) : List Bool :=
  bytes.flatMap fun byte => (List.range 8).map byte.toNat.testBit

theorem zeros_bits (count : Nat) : bits (Bytes.zeros count) = List.replicate (8 * count) false := by
  induction count with
  | zero => rfl
  | succ count ih =>
      have more : 8 * (count + 1) = 8 + 8 * count := by omega
      rw [more, ← List.replicate_append_replicate, ← ih]
      rfl

theorem ending_bits (missing : Nat) (some : 0 < missing) :
    bits (ending 4 missing) =
      [false, false] ++ (true :: List.replicate (8 * missing - 4) false ++ [true]) := by
  -- The domain byte 4 is two bits of zero and the first bit of the padding, whose last bit is
  -- the marker.
  match missing, some with
  | 1, _ => rfl
  | between + 2, _ =>
      have split : List.replicate (8 * (between + 2) - 4) false =
          List.replicate 5 false ++ bits (Bytes.zeros between) ++ List.replicate 7 false := by
        rw [zeros_bits, List.replicate_append_replicate, List.replicate_append_replicate]
        congr 1
        omega
      rw [ending_longer, split, bits, List.flatMap_append, List.flatMap_cons, ← bits]
      simp only [List.append_assoc, List.cons_append]
      rfl

/-- The sponge in a state with some bytes of the next block. -/
def started (rate : Nat) (state rest : Bytes) : Sponge :=
  { lanes := ofBytes (Bytes.xor state (widened rest)), rate, position := rest.length }

@[simp] theorem started_rate (rate : Nat) (state rest : Bytes) :
    (started rate state rest).rate = rate := rfl

@[simp] theorem started_position (rate : Nat) (state rest : Bytes) :
    (started rate state rest).position = rest.length := rfl

/-- The sponge that has taken in the string from the given state on. -/
def behind (rate : Nat) (state string : Bytes) : Sponge :=
  started rate (stateBehind rate state string) (string.drop (string.length / rate * rate))

theorem permuted_length (state : Bytes) : (permuted state).length = 200 := Lanes.to_bytes_length _

theorem absorbed_length (state block : Bytes) : (absorbed state block).length = 200 := by
  rw [absorbed, permuted_length]

theorem permute_of_bytes (state : Bytes) : (ofBytes state).permute = ofBytes (permuted state) :=
  (Lanes.of_bytes_to_bytes _).symm

theorem of_bytes_whole (state : Bytes) (whole : state.length = 200) :
    (ofBytes state).toBytes = state := by
  rw [Lanes.to_bytes_of_bytes state 25 whole (by omega), widened, whole]
  exact List.append_nil state

theorem lanes_exact (lanes : Lanes) (state : Bytes) (same : lanes.toBytes = state) :
    lanes = ofBytes state := by
  rw [← same, Lanes.of_bytes_to_bytes]

theorem absorbed_zeros (state block : Bytes) (count : Nat) (fits : block.length + count ≤ 200) :
    absorbed state (block ++ Bytes.zeros count) = absorbed state block := by
  rw [absorbed, Lanes.widened_zeros block count fits, absorbed]

section State
variable (rate : Nat) (state : Bytes) (whole : state.length = 200)
include whole

theorem sum_length (rest : Bytes) (fits : rest.length ≤ 200) :
    (Bytes.xor state (widened rest)).length = 200 := by
  rw [Bytes.xor_length, whole, Lanes.widened_length rest fits, Nat.min_self]

theorem started_empty :
    started rate state [] = { lanes := ofBytes state, rate, position := 0 } := by
  have blank : widened [] = Bytes.zeros state.length := by rw [whole]; rfl
  rw [started, blank, Bytes.xor_zeros]
  rfl

theorem absorb_block_exact (block : Bytes) (count : Nat) (aligned : block.length = count * 8)
    (fits : block.length ≤ 200) :
    absorbBlock (ofBytes state) block = ofBytes (absorbed state block) := by
  have sum : addBlock (ofBytes state) block = ofBytes (Bytes.xor state (widened block)) := by
    apply lanes_exact
    rw [add_block_bytes _ block count aligned fits, of_bytes_whole state whole]
  rw [absorbBlock, sum, permute_of_bytes, absorbed]

theorem add_byte_exact (place : Nat) (room : place < 200) (byte : UInt8) :
    addByte (ofBytes state) place byte =
      ofBytes (Bytes.xor state (widened (Bytes.zeros place ++ [byte]))) := by
  apply lanes_exact
  rw [add_byte_bytes _ _ room, of_bytes_whole state whole]

theorem add_byte_started (rest : Bytes) (room : rest.length < 200) (byte : UInt8) :
    addByte (started rate state rest).lanes (started rate state rest).position byte =
      (started rate state (rest ++ [byte])).lanes := by
  rw [started_position, started, started,
    add_byte_exact _ (sum_length state whole rest (by omega)) _ room, Bytes.xor_assoc,
    Lanes.widened_append rest [byte] room]

theorem absorb_byte_started (rest : Bytes) (short : rest.length + 1 < rate) (fits : rate ≤ 200)
    (byte : UInt8) :
    (started rate state rest).absorbByte byte = started rate state (rest ++ [byte]) := by
  have more : ¬rest.length + 1 = rate := by omega
  have place : (rest ++ [byte]).length = rest.length + 1 := List.length_append
  rw [absorbByte, add_byte_started rate state whole rest (by omega) byte, started_position,
    started_rate]
  rw [if_neg more, ← place]
  rfl

theorem absorb_byte_filled (rest : Bytes) (last : rest.length + 1 = rate) (fits : rate ≤ 200)
    (byte : UInt8) :
    (started rate state rest).absorbByte byte =
      started rate (absorbed state (rest ++ [byte])) [] := by
  rw [started_empty rate (absorbed state (rest ++ [byte])) (permuted_length _), absorbByte,
    add_byte_started rate state whole rest (by omega) byte, started_position, started_rate,
    if_pos last]
  simp only [started, permute_of_bytes, absorbed]

omit whole in
theorem fill_started (rest : Bytes) (some : rest.length ≠ 0) :
    (started rate state rest).fillBlock = started rate (absorbed state rest) [] := by
  rw [started_empty rate _ (absorbed_length state rest), fillBlock, started_position, if_neg some]
  simp only [started, permute_of_bytes, absorbed]

omit whole in
theorem widened_ending (domain : UInt8) (rest : Bytes) (short : rest.length < rate)
    (fits : rate ≤ 200) :
    widened (rest ++ ending domain (rate - rest.length)) =
      Bytes.xor (widened (rest ++ [domain])) (widened (Bytes.zeros (rate - 1) ++ [0x80])) := by
  -- The two bytes that close a block add up to what completes it.
  obtain ⟨between, rfl⟩ : ∃ between, rate = rest.length + (between + 1) :=
    ⟨rate - rest.length - 1, by omega⟩
  have parts : Bytes.zeros rest.length ++ ending domain (between + 1) =
      Bytes.xor (Bytes.zeros rest.length ++ [domain] ++ Bytes.zeros between)
        (Bytes.zeros (rest.length + between) ++ [0x80]) := by
    rw [← Bytes.zeros_append, List.append_assoc, List.append_assoc, Bytes.xor_append _ _ _ _ rfl,
      Bytes.zeros_sum]
    rfl
  have same : (Bytes.zeros rest.length ++ [domain] ++ Bytes.zeros between).length =
      (Bytes.zeros (rest.length + between) ++ [0x80]).length := by
    simp only [List.length_append, Bytes.zeros_length, List.length_singleton]
    omega
  have marked : (Bytes.zeros rest.length ++ [domain]).length + between ≤ 200 := by
    simp only [List.length_append, Bytes.zeros_length, List.length_singleton]
    omega
  have front : rest.length + (between + 1) - rest.length = between + 1 := by omega
  have last : rest.length + (between + 1) - 1 = rest.length + between := by omega
  have total : rest.length + (ending domain (between + 1)).length ≤ 200 := by
    rw [ending_length domain _ (by omega)]
    omega
  rw [front, last, Lanes.widened_append rest _ total, parts, Lanes.widened_sum _ _ same,
    Lanes.widened_zeros _ _ marked, ← Bytes.xor_assoc,
    ← Lanes.widened_append rest [domain] (by rw [List.length_singleton]; omega)]

theorem close_started (domain : UInt8) (rest : Bytes) (short : rest.length < rate)
    (fits : rate ≤ 200) :
    (started rate state rest).close domain =
      started rate (absorbed state (rest ++ ending domain (rate - rest.length))) [] := by
  have one : (rest ++ [domain]).length ≤ 200 := by
    rw [List.length_append, List.length_singleton]
    omega
  rw [started_empty rate _ (absorbed_length state _), close,
    add_byte_started rate state whole rest (by omega) domain, started_rate, started,
    add_byte_exact _ (sum_length state whole _ one) _ (by omega), Bytes.xor_assoc,
    ← widened_ending rate domain rest short fits, permute_of_bytes, absorbed]

theorem state_behind_length (string : Bytes) : (stateBehind rate state string).length = 200 := by
  rw [stateBehind]
  generalize Bytes.wholeBlocks rate string = blocks
  induction blocks generalizing state with
  | nil => exact whole
  | cons block blocks ih =>
      rw [List.foldl_cons]
      exact ih (absorbed state block) (absorbed_length state block)

end State

section Strings
variable (rate : Nat)

theorem behind_short (state rest : Bytes) (short : rest.length < rate) :
    behind rate state rest = started rate state rest := by
  rw [behind, stateBehind, Bytes.whole_blocks_short rate rest short, Nat.div_eq_of_lt short,
    Nat.zero_mul, List.drop_zero, List.foldl_nil]

variable (positive : 0 < rate)
include positive

theorem state_behind_front (state front string : Bytes) (count : Nat)
    (aligned : front.length = count * rate) :
    stateBehind rate state (front ++ string) =
      stateBehind rate (stateBehind rate state front) string := by
  rw [stateBehind, Bytes.whole_blocks_append rate front string positive count aligned,
    List.foldl_append, ← stateBehind, ← stateBehind]

theorem state_behind_single (state block : Bytes) (full : block.length = rate) :
    stateBehind rate state block = absorbed state block := by
  rw [stateBehind, Bytes.whole_blocks_single rate block positive full, List.foldl_cons,
    List.foldl_nil]

theorem behind_front (state front string : Bytes) (count : Nat)
    (aligned : front.length = count * rate) :
    behind rate state (front ++ string) = behind rate (stateBehind rate state front) string := by
  have reach : (front ++ string).length / rate * rate =
      front.length + string.length / rate * rate := by
    rw [List.length_append, aligned, Nat.mul_comm count, Nat.mul_add_div positive, Nat.add_mul,
      Nat.mul_comm rate]
  rw [behind, state_behind_front rate positive state front string count aligned, reach,
    List.drop_length_add_append, ← behind]

theorem behind_block (state block string : Bytes) (full : block.length = rate) :
    behind rate state (block ++ string) = behind rate (absorbed state block) string := by
  rw [behind_front rate positive state block string 1 (by omega),
    state_behind_single rate positive state block full]

-- A string is whole blocks and then the bytes of a block that has been begun.
theorem behind_split (state string : Bytes) (whole : state.length = 200) :
    ∃ front rest, front.length = string.length / rate * rate ∧ front ++ rest = string ∧
      rest.length = string.length % rate ∧ rest.length < rate ∧
      (stateBehind rate state front).length = 200 ∧
      behind rate state string = started rate (stateBehind rate state front) rest := by
  have aligned := Bytes.complete_length rate string
  have short := Bytes.rest_length rate string positive
  have cut :=
    behind_front rate positive state _ (string.drop (string.length / rate * rate)) _ aligned
  rw [List.take_append_drop, behind_short rate _ _ short] at cut
  refine ⟨_, _, aligned, List.take_append_drop _ _, ?_, short,
    state_behind_length rate state whole _, cut⟩
  rw [List.length_drop, Nat.mul_comm, ← Nat.mod_eq_sub_mul_div]

variable (fits : rate ≤ 200)
include fits

theorem absorb_bytes_exact (data state rest : Bytes) (whole : state.length = 200)
    (short : rest.length < rate) :
    (started rate state rest).absorbBytes data = behind rate state (rest ++ data) := by
  induction data generalizing state rest with
  | nil =>
      rw [List.append_nil, behind_short rate state rest short]
      rfl
  | cons byte data ih =>
      have next : rest ++ byte :: data = rest ++ [byte] ++ data := by simp
      have longer : (rest ++ [byte]).length = rest.length + 1 := List.length_append
      rw [absorbBytes, List.foldl_cons, ← absorbBytes, next]
      by_cases last : rest.length + 1 = rate
      · rw [absorb_byte_filled rate state whole rest last fits byte,
          ih _ [] (absorbed_length _ _) positive, List.nil_append,
          behind_block rate positive state _ data (by omega)]
      · rw [absorb_byte_started rate state whole rest (by omega) fits byte,
          ih state _ whole (by omega)]

theorem absorb_blocks_exact (words : Nat) (wordwise : rate = words * 8) (front : Bytes)
    (count : Nat) (aligned : front.length = count * rate) (state : Bytes)
    (whole : state.length = 200) :
    (Bytes.wholeBlocks rate front).foldl absorbBlock (ofBytes state) =
      ofBytes (stateBehind rate state front) := by
  suffices every : ∀ state : Bytes, state.length = 200 →
      (Bytes.wholeBlocks rate front).foldl absorbBlock (ofBytes state) =
        ofBytes (stateBehind rate state front) from every state whole
  apply Bytes.blocks_induction rate (fun front => ∀ state : Bytes, state.length = 200 →
      (Bytes.wholeBlocks rate front).foldl absorbBlock (ofBytes state) =
        ofBytes (stateBehind rate state front)) ?none ?further front count aligned
  case none =>
    intro state _
    rw [stateBehind, Bytes.whole_blocks_short rate [] positive, List.foldl_nil, List.foldl_nil]
  case further =>
    intro block rest full ih state whole
    rw [state_behind_front rate positive state block rest 1 (by omega),
      state_behind_single rate positive state block full,
      Bytes.whole_blocks_cons rate block rest positive full, List.foldl_cons,
      absorb_block_exact state whole block words (by omega) (by omega),
      ih _ (absorbed_length state block)]

theorem absorb_fresh (words : Nat) (wordwise : rate = words * 8) (state data : Bytes)
    (whole : state.length = 200) :
    (started rate state []).absorb data = behind rate state data := by
  have cut := Bytes.complete_length rate data
  have after := state_behind_length rate state whole (data.take (data.length / rate * rate))
  have blocks := absorb_blocks_exact rate positive fits words wordwise _ _ cut state whole
  have later := behind_front rate positive state _ (data.drop (data.length / rate * rate)) _ cut
  rw [Bytes.whole_blocks_take rate data positive] at blocks
  rw [List.take_append_drop] at later
  have answered : (started rate state []).absorb data =
      (started rate (stateBehind rate state (data.take (data.length / rate * rate))) []).absorbBytes
        (data.drop (data.length / rate * rate)) := by
    rw [started_empty rate _ after, started_empty rate state whole, absorb, if_pos rfl,
      Bytes.complete_blocks_exact rate data positive]
    simp only [blocks]
  rw [answered, absorb_bytes_exact rate positive fits _ _ [] after positive, List.nil_append, later]

theorem absorb_exact (words : Nat) (wordwise : rate = words * 8) (state string data : Bytes)
    (whole : state.length = 200) :
    (behind rate state string).absorb data = behind rate state (string ++ data) := by
  -- At the start of a block or within one, the same bytes go to the same places.
  obtain ⟨front, rest, aligned, joined, remainder, short, after, split⟩ :=
    behind_split rate positive state string whole
  rw [split, ← joined, List.append_assoc, behind_front rate positive state front _ _ aligned]
  by_cases fresh : rest.length = 0
  · have none : rest = [] := List.length_eq_zero_iff.mp fresh
    rw [none, absorb_fresh rate positive fits words wordwise _ data after, List.nil_append]
  · rw [absorb, started_position, if_neg fresh,
      absorb_bytes_exact rate positive fits data _ rest after short]

theorem fill_block_exact (state string : Bytes) (whole : state.length = 200) :
    (behind rate state string).fillBlock =
      behind rate state (string ++ Bytes.zeros ((rate - string.length % rate) % rate)) := by
  obtain ⟨front, rest, aligned, joined, remainder, short, after, split⟩ :=
    behind_split rate positive state string whole
  rw [split, ← remainder]
  by_cases fresh : rest.length = 0
  · rw [fillBlock, started_position, if_pos fresh, fresh, Nat.sub_zero, Nat.mod_self, ← split]
    exact congrArg (behind rate state) (List.append_nil string).symm
  · have missing : (rate - rest.length) % rate = rate - rest.length := Nat.mod_eq_of_lt (by omega)
    have filled : (rest ++ Bytes.zeros (rate - rest.length)).length = rate := by
      rw [List.length_append, Bytes.zeros_length]
      omega
    have block := behind_block rate positive (stateBehind rate state front) _ [] filled
    rw [List.append_nil, absorbed_zeros _ _ _ (by omega), behind_short rate _ [] positive] at block
    rw [fill_started rate _ rest fresh, missing, ← joined, List.append_assoc,
      behind_front rate positive state front _ _ aligned, block]

theorem close_exact (domain : UInt8) (state string : Bytes) (whole : state.length = 200) :
    (behind rate state string).close domain =
      started rate (stateBehind rate state (padded rate domain string)) [] := by
  obtain ⟨front, rest, aligned, joined, remainder, short, after, split⟩ :=
    behind_split rate positive state string whole
  have full : (rest ++ ending domain (rate - rest.length)).length = rate := by
    rw [List.length_append, ending_length domain _ (by omega)]
    omega
  rw [split, close_started rate _ after domain rest short fits, padded, ← remainder, ← joined,
    List.append_assoc, state_behind_front rate positive state front _ _ aligned,
    state_behind_single rate positive _ _ full]

omit positive fits in
theorem fronts_succ (state : Bytes) (count : Nat) :
    fronts rate state (count + 1) = state.take rate ++ fronts rate (permuted state) count := by
  simp only [fronts, List.range_succ_eq_map, List.flatMap_cons, List.flatMap_map,
    Function.iterate_zero, id_eq, Function.iterate_succ_apply, Nat.succ_eq_add_one]

omit positive in
theorem byte_given (state : Bytes) (whole : state.length = 200) (position count : Nat)
    (inside : position < rate) :
    (fronts rate state (count + 1))[position]? = some (byteAt (ofBytes state) position) := by
  have byte := byte_at_exact (ofBytes state) position (by omega)
  rw [of_bytes_whole state whole] at byte
  rw [fronts_succ, List.getElem?_append_left (by rw [List.length_take, whole]; omega),
    List.getElem?_take_of_lt inside, byte]

omit positive fits in
theorem take_byte (string : Bytes) (position length : Nat) (byte : UInt8)
    (found : string[position]? = some byte) :
    (string.drop position).take (length + 1) =
      byte :: (string.drop (position + 1)).take length := by
  obtain ⟨inside, rfl⟩ := List.getElem?_eq_some_iff.mp found
  rw [List.drop_eq_getElem_cons inside, List.take_succ_cons]

theorem squeeze_exact (length : Nat) (state : Bytes) (whole : state.length = 200)
    (position count : Nat) (inside : position ≤ rate) (reached : position + length ≤ count * rate) :
    (squeeze length { lanes := ofBytes state, rate, position }).1 =
      ((fronts rate state count).drop position).take length := by
  -- The state is permuted only once a byte is asked for that it does not have.
  induction length generalizing state position count with
  | zero => rfl
  | succ length ih =>
      obtain ⟨fewer, rfl⟩ : ∃ fewer, count = fewer + 1 := by
        cases count with
        | zero => omega
        | succ fewer => exact ⟨fewer, rfl⟩
      rw [Nat.succ_mul] at reached
      by_cases used : position = rate
      · obtain ⟨further, rfl⟩ : ∃ further, fewer = further + 1 := by
          cases fewer with
          | zero => omega
          | succ further => exact ⟨further, rfl⟩
        have front : (state.take rate).length = rate := by
          rw [List.length_take, whole]
          omega
        have next := take_byte _ 0 length _
          (byte_given rate fits (permuted state) (permuted_length state) 0 further positive)
        rw [List.drop_zero] at next
        rw [fronts_succ, used, List.drop_left' front, next,
          ← ih (permuted state) (permuted_length state) (0 + 1) (further + 1) (by omega) (by omega)]
        rw [squeeze, squeezeByte]
        simp only [if_pos, permute_of_bytes]
      · have here : position < rate := by omega
        rw [take_byte _ _ _ _ (byte_given rate fits state whole position fewer here),
          ← ih state whole (position + 1) (fewer + 1) (by omega) (by rw [Nat.succ_mul]; omega)]
        rw [squeeze, squeezeByte]
        simp only [if_neg used]

theorem finish_exact (domain : UInt8) (string : Bytes) (length : Nat) :
    (behind rate (Bytes.zeros 200) string).finish domain length =
      standard rate domain string length := by
  have blank : (Bytes.zeros 200).length = 200 := Bytes.zeros_length 200
  have after := state_behind_length rate _ blank (padded rate domain string)
  have covered : 0 + length ≤ (length + rate - 1) / rate * rate := by
    rw [Nat.zero_add]
    exact Bytes.begun_blocks_cover length rate positive
  rw [finish, close_exact rate positive fits domain _ string blank, started_empty rate _ after,
    squeeze_exact rate positive fits length _ after 0 _ (Nat.zero_le rate) covered, List.drop_zero,
    standard]

end Strings

theorem standard_short (rate : Nat) (domain : UInt8) (string : Bytes) (length : Nat)
    (some : 0 < length) (fits : length ≤ rate) : standard rate domain string length =
      (stateBehind rate (Bytes.zeros 200) (padded rate domain string)).take length := by
  have once : (length + rate - 1) / rate = 1 := by
    rw [Nat.div_eq_iff (by omega)]
    omega
  rw [standard, once, fronts, List.range_one, List.flatMap_singleton, Function.iterate_zero, id,
    List.take_take, Nat.min_eq_left fits]

end SymmetricKey.Sponge
