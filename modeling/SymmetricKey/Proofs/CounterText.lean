import SymmetricKey.Proofs.CounterMode

/-!
Counter mode byte by byte. Byte `index` of the output depends on its own byte of
the input and on one byte of one encrypted counter block, so that a second call
from the same counter undoes the first, and a text may be cut wherever a block
ends, as long as the counter goes along.
-/

namespace SymmetricKey.Ctr

/-- The counting bytes hold the first number plus the index, modulo a power of two. -/
theorem counter_at_number (bits : Nat) (counter : Bytes) (index : Nat) (bytewise : bits % 8 = 0) :
    BigEndian.number ((counterAt (bits / 8) counter index).drop (counter.length - bits / 8)) =
      (BigEndian.number (counter.drop (counter.length - bits / 8)) + index) % 2 ^ bits := by
  rw [counter_at_drop, BigEndian.number_numeral, counter_round bits bytewise]

section Text
variable {size : Nat} (function : Block size → Block size)

theorem keystream_byte (width : Nat) (counter : Bytes) (positive : 0 < size)
    (inside : width ≤ counter.length) (count index : Nat) (reached : index < count * size) :
    (keystream function width counter count)[index]? =
      some ((function (Block.ofFront size (counterAt width counter (index / size)))).get
        ⟨index % size, Nat.mod_lt index positive⟩) := by
  induction count generalizing counter index with
  | zero => omega
  | succ count ih =>
      have first : (Block.onBytes function counter).length = size :=
        Block.on_bytes_length function _
      rw [keystream_succ function width counter count inside]
      by_cases here : index < size
      · have zero : index / size = 0 := Nat.div_eq_of_lt here
        have place : index % size = index := Nat.mod_eq_of_lt here
        rw [List.getElem?_append_left (by omega), zero, counter_at_zero width counter inside]
        simp [Block.onBytes, here, place, Vector.get]
      · have room : width ≤ (increment width counter).length := by
          rw [increment_length width counter inside]
          exact inside
        obtain ⟨further, rfl⟩ : ∃ further, index = further + size := ⟨index - size, by omega⟩
        have tail :=
          ih (increment width counter) room further (by rw [Nat.succ_mul] at reached; omega)
        rw [List.getElem?_append_right (by omega), first, Nat.add_sub_cancel, tail,
          counter_at_increment width counter _ inside]
        simp only [Nat.add_div_right _ positive, Nat.add_mod_right]

/-- What one call over a whole input leaves to its caller. -/
structure Covered (width : Nat) (counter input buffer : Bytes) (positive : 0 < size)
    {C : Type} (call : Progress C) : Prop where
  finished : call.refusal = none
  text : ∀ index (inside : index < input.length), (call.output buffer)[index]? =
    some (input[index] ^^^
      (function (Block.ofFront size (counterAt width counter (index / size)))).get
        ⟨index % size, Nat.mod_lt index positive⟩)
  room : (call.output buffer).length = buffer.length
  beyond : (call.output buffer).drop input.length = buffer.drop input.length
  next : call.register = counterAt width counter ((input.length + size - 1) / size)

variable {C : Type} [BlockCipher C] (bits : Nat) (cipher : C) (steady : Enciphers function cipher)
  (counter : Bytes) (exact : counter.length = size) (positive : 0 < size)
  (bounded : size ≤ maxModeBlock) (bytewise : bits % 8 = 0) (inside : bits / 8 ≤ size)
include steady exact positive bounded bytewise inside

theorem encrypt_leaves (input buffer : Bytes) (fits : input.length ≤ buffer.length) :
    let key := keystream function (bits / 8) counter ((input.length + size - 1) / size)
    let call := encrypt cipher bits counter input buffer.length
    (input.length ≤ key.length ∧ (input.xor key).length = input.length) ∧
      call.refusal = none ∧ Enciphers function call.cipher ∧
      call.register = counterAt (bits / 8) counter ((input.length + size - 1) / size) ∧
      call.output buffer = input.xor key ++ buffer.drop input.length := by
  intro key call
  have covered : input.length ≤ key.length := by
    rw [keystream_length]
    exact Bytes.begun_blocks_cover input.length size positive
  have width : (input.xor key).length = input.length := by
    rw [Bytes.xor_length]
    exact Nat.min_eq_left covered
  obtain ⟨after, kept, answer⟩ := encrypt_exact function bits cipher steady counter input
    buffer.length exact positive bounded bytewise inside fits
  have produced : call.produced = input.xor key := congrArg Progress.produced answer
  have moved : call.cipher = after := congrArg Progress.cipher answer
  refine ⟨⟨covered, width⟩, congrArg Progress.refusal answer, ?_,
    congrArg Progress.register answer, ?_⟩
  · rw [moved]
    exact kept
  · rw [Progress.output, produced, Bytes.overlay_fitting buffer _ (by omega), width]

theorem encrypt_covered (input buffer : Bytes) (fits : input.length ≤ buffer.length) :
    Covered function (bits / 8) counter input buffer positive
      (encrypt cipher bits counter input buffer.length) := by
  obtain ⟨⟨covered, width⟩, finished, _, next, output⟩ := encrypt_leaves function bits cipher steady
    counter exact positive bounded bytewise inside input buffer fits
  constructor
  case finished => exact finished
  case text =>
    intro index here
    rw [keystream_length] at covered
    have byte := keystream_byte function (bits / 8) counter positive (by omega)
      ((input.length + size - 1) / size) index (by omega)
    rw [output, List.getElem?_append_left (by omega), Bytes.xor, List.getElem?_zipWith, byte,
      List.getElem?_eq_getElem here]
  case room => exact Bytes.overlay_length buffer _
  case beyond => rw [output, List.drop_left' width]
  case next => exact next

-- The same key is added once more, by the cipher as the first call has left it.
theorem encrypt_twice (input buffer again : Bytes) (fits : input.length ≤ buffer.length)
    (fitsAgain : input.length ≤ again.length) :
    let first := encrypt cipher bits counter input buffer.length
    let second := encrypt first.cipher bits counter ((first.output buffer).take input.length)
      again.length
    second.refusal = none ∧ second.output again = input ++ again.drop input.length := by
  intro first second
  obtain ⟨⟨covered, width⟩, _, kept, _, output⟩ :=
    encrypt_leaves function bits cipher steady counter
    exact positive bounded bytewise inside input buffer fits
  have text : (first.output buffer).take input.length = input.xor
      (keystream function (bits / 8) counter ((input.length + size - 1) / size)) := by
    rw [output, List.take_left' width]
  obtain ⟨_, finished, _, _, restored⟩ :=
    encrypt_leaves function bits first.cipher kept counter exact
      positive bounded bytewise inside ((first.output buffer).take input.length) again
      (by rw [text, width]; exact fitsAgain)
  refine ⟨finished, ?_⟩
  rw [restored, text, width, Bytes.xor_cancel input _ covered]

theorem encrypt_pieces (pieces : List Bytes)
    (aligned : ∀ piece ∈ pieces.dropLast, size ∣ piece.length) (room : Nat)
    (fits : pieces.flatten.length ≤ room) :
    Progress.inPieces (encrypt · bits) cipher counter pieces room =
      encrypt cipher bits counter pieces.flatten room := by
  have through : ∀ cipher counter piece room, Enciphers function cipher ∧ counter.length = size →
      piece.length ≤ room → encrypt (C := C) cipher bits counter piece room =
        (step (bits / 8)).run cipher counter (Bytes.segments size piece) := by
    rintro cipher counter piece room ⟨steady, exact⟩ fits
    exact encrypt_through bits cipher (steady.block_size function cipher) counter piece room exact
      positive bounded bytewise inside fits
  rw [through cipher counter _ room ⟨steady, exact⟩ fits]
  apply Progress.in_pieces_exact _ (step (bits / 8)) size positive
    (fun cipher counter => Enciphers function cipher ∧ counter.length = size) through ?kept cipher
    counter ⟨steady, exact⟩ pieces aligned room fits
  case kept =>
    rintro cipher counter piece ⟨steady, exact⟩
    obtain ⟨after, kept, run⟩ :=
      run_exact function (bits / 8) cipher steady counter piece exact inside positive
    rw [run]
    constructor
    · exact kept
    · rw [counter_at_length (bits / 8) counter _ (by omega), exact]

end Text

/-- Over any function on blocks, each byte of the output is its byte of the input with its byte of
an encrypted counter block added, and the counter moves on by the blocks that were begun. Both
directions are one call: any of them undoes any other, and either may be cut into calls between
blocks. -/
theorem encrypts_by_counter_blocks {C : Type} [BlockCipher C] {size : Nat}
    (function : Block size → Block size) (cipher : C) (steady : Enciphers function cipher)
    (positive : 0 < size) (bounded : size ≤ maxModeBlock) (bits : Nat) (bytewise : bits % 8 = 0)
    (inside : bits / 8 ≤ size) (counter : Bytes) (exact : counter.length = size) :
    (∀ index,
      let block := counterAt (bits / 8) counter index
      block.length = size ∧ block.take (size - bits / 8) = counter.take (size - bits / 8) ∧
        BigEndian.number (block.drop (size - bits / 8)) =
          (BigEndian.number (counter.drop (size - bits / 8)) + index) % 2 ^ bits) ∧
    ∀ call : C → Nat → Bytes → Bytes → Nat → Progress C, call = encrypt ∨ call = decrypt →
      (∀ input buffer, input.length ≤ buffer.length →
        Covered function (bits / 8) counter input buffer positive
          (call cipher bits counter input buffer.length)) ∧
      (∀ back : C → Nat → Bytes → Bytes → Nat → Progress C, back = encrypt ∨ back = decrypt →
        ∀ input buffer again, input.length ≤ buffer.length → input.length ≤ again.length →
          let first := call cipher bits counter input buffer.length
          let second := back first.cipher bits counter ((first.output buffer).take input.length)
            again.length
          second.refusal = none ∧ second.output again = input ++ again.drop input.length) ∧
      (∀ pieces, (∀ piece ∈ pieces.dropLast, size ∣ piece.length) → ∀ room,
        pieces.flatten.length ≤ room →
          Progress.inPieces (call · bits) cipher counter pieces room =
            call cipher bits counter pieces.flatten room) := by
  constructor
  · intro index block
    have low := counter_at_number bits counter index bytewise
    rw [exact] at low
    refine ⟨?_, ?_, low⟩
    · rw [counter_at_length _ _ _ (by omega), exact]
    · rw [← exact]
      exact counter_at_take (bits / 8) counter index
  · intro call forwards
    have same : call = encrypt := forwards.elim id id
    subst same
    refine ⟨?_, ?_, ?_⟩
    · exact encrypt_covered function bits cipher steady counter exact positive bounded
        bytewise inside
    · intro back backwards
      have same : back = encrypt := backwards.elim id id
      subst same
      exact encrypt_twice function bits cipher steady counter exact positive bounded bytewise inside
    · exact encrypt_pieces function bits cipher steady counter exact positive bounded
        bytewise inside

/-- Seven bytes over three blocks, whose counting byte is about to go round, at once and in two
calls, the second of which is given more than one block. -/
theorem three_blocks_in_two_calls :
    let cipher : BlockFunction 3 := ⟨Vector.reverse⟩
    let whole := encrypt cipher 8 [7, 9, 0xFF] [1, 2, 3, 4, 5, 6, 7] 8
    whole.output (Bytes.zeros 8) = [0xFE, 0x0B, 4, 4, 0x0C, 1, 6, 0] ∧
      whole.register = [7, 9, 2] ∧
      Progress.inPieces (encrypt · 8) cipher [7, 9, 0xFF] [[1, 2, 3], [4, 5, 6, 7]] 8 = whole := by
  intro cipher whole
  obtain ⟨_, law⟩ := encrypts_by_counter_blocks cipher.apply cipher cipher.enciphers (by decide)
    (by decide) 8 (by decide) (by decide) [7, 9, 0xFF] rfl
  obtain ⟨covered, _, pieces⟩ := law encrypt (Or.inl rfl)
  refine ⟨?_, ?_, ?_⟩
  · decide +kernel
  · exact (covered [1, 2, 3, 4, 5, 6, 7] (Bytes.zeros 8) (by decide)).next.trans (by decide +kernel)
  · exact pieces [[1, 2, 3], [4, 5, 6, 7]] (by decide) 8 (by decide)

end SymmetricKey.Ctr
