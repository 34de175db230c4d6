import SymmetricKey.Catalogue.BuiltIn
import SymmetricKey.Proofs.SalsaStandard
import SymmetricKey.Proofs.StreamPositions
import Mathlib.Algebra.BigOperators.Ring.List

/-!
The streams of the three generators, byte by byte. Salsa20 numbers its blocks
over two words, Trivium gathers eight bits to a byte, and ZUC gives its words
from the top down.
-/

namespace SymmetricKey

open StreamCall

namespace SalsaBlock

/-- The number of a block, modulo `2^64`, has its lower half in word 8 and its upper half in word
9. -/
def numbered (block : SalsaBlock) (index : Nat) : SalsaBlock :=
  put (put block 8 (UInt32.ofNat index)) 9 (UInt32.ofNat (index / 2 ^ 32))

theorem get_inj (left right : SalsaBlock) (same : ∀ index, left.get index = right.get index) :
    left = right := by
  apply Vector.ext
  intro index inside
  exact same ⟨index, inside⟩

theorem number_numbered (block : SalsaBlock) (index : Nat) :
    (numbered block index).number = UInt64.ofNat index := by
  apply UInt64.toNat_inj.mp
  rw [number, numbered, get_put, if_pos rfl, get_put, if_neg (by decide), get_put, if_pos rfl,
    UInt64.or_comm, LittleEndian.pair_exact, UInt32.toNat_ofNat', UInt32.toNat_ofNat',
    UInt64.toNat_ofNat']
  omega

theorem set_number_numbered (block : SalsaBlock) (index further : Nat) :
    (numbered block index).setNumber (UInt64.ofNat further) = numbered block further := by
  have low : (UInt64.ofNat further).toUInt32 = UInt32.ofNat further := by
    apply UInt32.toNat_inj.mp
    rw [UInt64.toNat_toUInt32, UInt64.toNat_ofNat', UInt32.toNat_ofNat']
    omega
  have high : (UInt64.ofNat further >>> 32).toUInt32 = UInt32.ofNat (further / 2 ^ 32) := by
    apply UInt32.toNat_inj.mp
    rw [UInt64.toNat_toUInt32, UInt64.toNat_shiftRight, UInt64.toNat_ofNat', UInt32.toNat_ofNat']
    simp only [UInt64.reduceToNat, Nat.reduceMod, Nat.shiftRight_eq_div_pow]
    omega
  apply get_inj
  intro place
  simp only [setNumber, numbered, low, high, get_put]
  split_ifs <;> rfl

theorem next_number (block : SalsaBlock) (index : Nat) :
    (numbered block index).setNumber ((numbered block index).number + 1) =
      numbered block (index + 1) := by
  have next : UInt64.ofNat index + 1 = UInt64.ofNat (index + 1) := by
    rw [UInt64.ofNat_add]
    rfl
  rw [number_numbered, next, set_number_numbered]

theorem numbered_zero (block : SalsaBlock) (low : block.get 8 = 0) (high : block.get 9 = 0) :
    numbered block 0 = block := by
  apply get_inj
  intro place
  rw [numbered, get_put, get_put]
  split_ifs with isHigh isLow
  · rw [isHigh, high]
    rfl
  · rw [isLow, low]
    rfl
  · rfl

theorem get_of_words (words : List UInt32) (index : Fin 16) :
    (ofWords words).get index = words.getD index.val 0 := Vector.getElem_ofFn _

def byteAt (block : SalsaBlock) (index : Nat) : UInt8 :=
  UInt8.ofNat ((block.get (Fin.ofNat 16 (index / 4))).toNat / 256 ^ (index % 4))

theorem to_bytes_byte (block : SalsaBlock) (index : Nat) (inside : index < 64) :
    block.toBytes[index]? = some (block.byteAt index) := by
  have row : index / 4 < 16 := by omega
  have column : index % 4 < 4 := Nat.mod_lt _ (by decide)
  have found : block.toList[index / 4]? = some (block.get (Fin.ofNat 16 (index / 4))) := by
    have same : (Fin.ofNat 16 (index / 4)) = ⟨index / 4, row⟩ := Fin.ext (Nat.mod_eq_of_lt row)
    rw [same, list_words, List.getElem?_map, List.getElem?_eq_getElem (by simpa using row),
      List.getElem_finRange]
    rfl
  rw [toBytes, Bytes.flat_byte _ 4 (by decide) (fun _ => rfl), found, Option.bind_some,
    LittleEndian.bytes32_exact, LittleEndian.numeral_digit 4 _ _ column, byteAt]

end SalsaBlock

namespace Salsa20

/-- The stream from a fresh block on: the cores of the block under one number after the other. -/
def keyByte (block : SalsaBlock) (position : Nat) : UInt8 :=
  ((block.numbered (position / partSize)).core rounds).byteAt (position % partSize)

theorem start_unnumbered (constants : List UInt32) (keyFront keyBack nonce : Bytes)
    (front : keyFront.length = 16) (short : nonce.length = 8) :
    (startBlock constants keyFront keyBack nonce).get 8 = 0 ∧
      (startBlock constants keyFront keyBack nonce).get 9 = 0 := by
  have four : ∃ a b c d, LittleEndian.words keyFront = [a, b, c, d] := by
    have count := LittleEndian.words_length keyFront 4 front
    match LittleEndian.words keyFront, count with
    | [a, b, c, d], _ => exact ⟨a, b, c, d, rfl⟩
  have two : ∃ a b, LittleEndian.words nonce = [a, b] := by
    have count := LittleEndian.words_length nonce 2 short
    match LittleEndian.words nonce, count with
    | [a, b], _ => exact ⟨a, b, rfl⟩
  obtain ⟨a, b, c, d, four⟩ := four
  obtain ⟨e, f, two⟩ := two
  rw [startBlock, four, two, SalsaBlock.get_of_words, SalsaBlock.get_of_words]
  exact ⟨rfl, rfl⟩

theorem of_key_fresh (key nonce : Bytes) (generator : Salsa20)
    (accepted : ofKey key nonce = .ok generator) :
    generator = ofBlock (generator.block.numbered 0) := by
  have fresh (constants : List UInt32) (keyFront keyBack : Bytes) (front : keyFront.length = 16)
      (short : nonce.length = 8)
      (same : ofBlock (startBlock constants keyFront keyBack nonce) = generator) :
      generator = ofBlock (generator.block.numbered 0) := by
    obtain ⟨low, high⟩ := start_unnumbered constants keyFront keyBack nonce front short
    rw [← same]
    exact congrArg ofBlock (SalsaBlock.numbered_zero _ low high).symm
  rw [ofKey] at accepted
  split_ifs at accepted with wrong long half
  · exact fresh _ _ _ half (by simpa using long) (Except.ok.inj accepted)
  · have front : (key.take 16).length = 16 := by
      rw [List.length_take]
      omega
    exact fresh _ _ _ front (by simpa using long) (Except.ok.inj accepted)

theorem of_block_addressed (block : SalsaBlock) :
    Addressed (ofBlock (block.numbered 0)) (keyByte block) := by
  apply addressed_in_parts (keyByte block) partSize Salsa20.mk block.numbered
    (fun index => ((block.numbered index).core rounds).toBytes) (by decide) ?taken ?filled ?whole
    ?parts
  case taken => exact fun _ _ _ => rfl
  case filled =>
    intro index
    rw [← SalsaBlock.next_number]
    rfl
  case whole => exact fun _ => SalsaBlock.to_bytes_length _
  case parts =>
    intro index place inside
    have part : (index * partSize + place) / partSize = index := by
      rw [partSize] at inside ⊢
      omega
    have rest : (index * partSize + place) % partSize = place := by
      rw [partSize] at inside ⊢
      omega
    rw [SalsaBlock.to_bytes_byte _ _ inside, keyByte, part, rest]
  · rfl

theorem of_key_addressed (key nonce : Bytes) (generator : Salsa20)
    (accepted : ofKey key nonce = .ok generator) :
    Addressed generator (keyByte generator.block) := by
  have fresh := of_key_fresh key nonce generator accepted
  have addressed := of_block_addressed generator.block
  rwa [← fresh] at addressed

end Salsa20

namespace Trivium

def bitAt (state : Trivium) (index : Nat) : Bool :=
  (clock ((fun state => (clock state).2)^[index] state)).1

-- Eight bits in a row, the first with the lowest weight.
def keyByte (state : Trivium) (position : Nat) : UInt8 :=
  UInt8.ofNat ((List.range 8).map fun bit => 2 ^ bit * (state.bitAt (8 * position + bit)).toNat).sum

theorem bits_exact (count : Nat) (state : Trivium) :
    bits count state =
      ((List.range count).map state.bitAt, (fun state => (clock state).2)^[count] state) := by
  induction count generalizing state with
  | zero => rfl
  | succ count ih =>
      change ((clock state).1 :: (bits count (clock state).2).1, (bits count (clock state).2).2) = _
      rw [ih, List.range_succ_eq_map, List.map_cons, List.map_map]
      rfl

theorem bit_below (byte : UInt8) (bit : Bool) :
    (byte <<< 1) ||| (if bit then 1 else 0) = UInt8.ofNat (bit.toNat + 2 * byte.toNat) := by
  have low : bit.toNat < 2 ^ 1 := bit.toNat_lt
  have digit : (if bit then 1 else 0 : UInt8).toNat = bit.toNat := by cases bit <;> rfl
  apply UInt8.toNat_inj.mp
  have kept : byte.toNat <<< 1 % 2 ^ 8 = (byte.toNat % 2 ^ 7) <<< 1 := by
    rw [Nat.shiftLeft_eq, Nat.shiftLeft_eq]
    omega
  rw [UInt8.toNat_or, digit, UInt8.toNat_shiftLeft, UInt8.toNat_ofNat', UInt8.toNat_one,
    Nat.one_mod, kept, ← Nat.shiftLeft_add_eq_or_of_lt low, Nat.shiftLeft_eq]
  omega

theorem byte_of_bits_exact (count : Nat) (bit : Nat → Bool) :
    byteOfBits ((List.range count).map bit) =
      UInt8.ofNat ((List.range count).map fun index => 2 ^ index * (bit index).toNat).sum := by
  induction count generalizing bit with
  | zero => rfl
  | succ count ih =>
      have doubled :
          ((List.range count).map fun index => 2 ^ (index + 1) * (bit (index + 1)).toNat).sum =
          2 * ((List.range count).map fun index => 2 ^ index * (bit (index + 1)).toNat).sum := by
        rw [← List.sum_map_mul_left]
        simp only [pow_succ', Nat.mul_assoc]
      have rest := ih fun index => bit (index + 1)
      rw [List.range_succ_eq_map, List.map_cons, List.map_map, List.map_cons, List.map_map,
        List.sum_cons]
      change byteOfBits (bit 0 :: (List.range count).map fun index => bit (index + 1)) =
        UInt8.ofNat (2 ^ 0 * (bit 0).toNat +
          ((List.range count).map fun index => 2 ^ (index + 1) * (bit (index + 1)).toNat).sum)
      rw [byteOfBits, List.foldr_cons, ← byteOfBits, rest, bit_below, doubled]
      apply UInt8.toNat_inj.mp
      simp only [UInt8.toNat_ofNat']
      omega

theorem next_exact (state : Trivium) (position : Nat) :
    next ((fun state => (clock state).2)^[8 * position] state) =
      (state.keyByte position, (fun state => (clock state).2)^[8 * (position + 1)] state) := by
  have bit : ((fun state => (clock state).2)^[8 * position] state).bitAt =
      fun index => state.bitAt (8 * position + index) := by
    funext index
    rw [bitAt, ← Function.iterate_add_apply, Nat.add_comm, bitAt]
  have output : bits 8 ((fun state => (clock state).2)^[8 * position] state) =
      ((List.range 8).map fun index => state.bitAt (8 * position + index),
        (fun state => (clock state).2)^[8 * (position + 1)] state) := by
    rw [bits_exact, bit, ← Function.iterate_add_apply, Nat.mul_succ, Nat.add_comm 8]
  rw [next, output, keyByte, ← byte_of_bits_exact]

theorem addressed (state : Trivium) : Addressed state (keyByte state) := by
  apply StreamCall.addressed (keyByte state)
    (fun position generator => generator = (fun state => (clock state).2)^[8 * position] state)
    ?step state rfl
  case step =>
    intro position generator here
    have next := next_exact state position
    rw [here]
    exact ⟨congrArg Prod.fst next, congrArg Prod.snd next⟩

end Trivium

namespace Zuc

def wordAt (state : Zuc) (index : Nat) : UInt32 :=
  (nextWord ((fun state => (nextWord state).2)^[index] state)).1

def keyByte (state : Zuc) (position : Nat) : UInt8 :=
  UInt8.ofNat ((state.wordAt (position / 4)).toNat / 256 ^ (3 - position % 4))

theorem addressed (state : Zuc) (fresh : state.unused = []) : Addressed state (keyByte state) := by
  apply addressed_in_parts (keyByte state) 4 (fun state unused => { state with unused })
    (fun index => (fun state => (nextWord state).2)^[index] state)
    (fun index => BigEndian.bytes32 (state.wordAt index)) (by decide) ?taken ?filled ?whole ?parts
  case taken => exact fun _ _ _ => rfl
  case filled =>
    intro index
    rw [Function.iterate_succ_apply']
    rfl
  case whole => exact fun _ => rfl
  case parts =>
    intro index place inside
    have word : (index * 4 + place) / 4 = index := by omega
    have rest : (index * 4 + place) % 4 = place := by omega
    rw [BigEndian.bytes32_exact, BigEndian.numeral_digit 4 _ _ inside, keyByte, word, rest]
  · change state = { state with unused := [] }
    rw [← fresh]

theorem next_word_unused (state : Zuc) : (nextWord state).2.unused = state.unused := rfl

theorem warm_up_unused (state : Zuc) : (warmUp state).unused = state.unused := rfl

theorem of_key_fresh (key iv : Bytes) (generator : Zuc) (accepted : ofKey key iv = .ok generator) :
    generator.unused = [] := by
  have warm (count : Nat) : (Nat.repeat warmUp count (loaded key iv)).unused = [] := by
    induction count with
    | zero => rfl
    | succ count ih => rw [Nat.repeat, warm_up_unused, ih]
  rw [ofKey] at accepted
  split_ifs at accepted
  rw [← Except.ok.inj accepted, next_word_unused, warm]

theorem of_key_addressed (key iv : Bytes) (generator : Zuc)
    (accepted : ofKey key iv = .ok generator) :
    Addressed generator (keyByte generator) :=
  generator.addressed (of_key_fresh key iv generator accepted)

end Zuc

namespace StreamCipher

def keyByte : StreamCipher → Nat → UInt8
  | salsa20 generator => Salsa20.keyByte generator.block
  | trivium generator => generator.keyByte
  | zuc generator => generator.keyByte

theorem wrapped_addressed {G : Type} [Keystream G] (wrap : G → StreamCipher)
    (step : ∀ generator, Keystream.next (wrap generator) =
      ((Keystream.next generator).1, wrap (Keystream.next generator).2))
    (made : Except Error G)
    (addressed : ∀ generator, made = .ok generator → Addressed generator (wrap generator).keyByte)
    (cipher : StreamCipher) (set : made.map wrap = .ok cipher) :
    Addressed cipher cipher.keyByte := by
  cases made with
  | error cause => cases set
  | ok generator =>
      cases set
      exact addressed_wrapped wrap step generator _ (addressed generator rfl)

theorem set_up_addressed (algorithm : StreamAlgorithm) (known : algorithm ∈ StreamAlgorithm.builtIn)
    (key iv : Bytes) (cipher : StreamCipher) (set : algorithm.setUp key iv = .ok cipher) :
    Addressed cipher cipher.keyByte := by
  simp only [StreamAlgorithm.builtIn, List.mem_cons, List.not_mem_nil, or_false] at known
  rcases known with rfl | rfl | rfl
  · exact wrapped_addressed salsa20 (fun _ => rfl) _ (Salsa20.of_key_addressed key iv) cipher set
  · exact wrapped_addressed trivium (fun _ => rfl) _ (fun state _ => state.addressed) cipher set
  · exact wrapped_addressed zuc (fun _ => rfl) _ (Zuc.of_key_addressed key iv) cipher set

end StreamCipher

namespace StreamAlgorithm

theorem with_key_made (algorithm : StreamAlgorithm) (key iv : Bytes) (cipher : StreamCipher)
    (made : (algorithm.withKey key iv).run.value = .ok cipher) :
    algorithm.setUp key iv = .ok cipher := by
  rw [withKey] at made
  split_ifs at made with wrongKey otherVector wrongVector
  · obtain ⟨_, refused, _⟩ := Attempt.bind_made _ _ _ made
    cases refused
  · obtain ⟨_, refused, _⟩ := Attempt.bind_made _ _ _ made
    cases refused
  · obtain ⟨_, refused, _⟩ := Attempt.bind_made _ _ _ made
    cases refused
  · obtain ⟨_, _, set⟩ := Attempt.bind_made _ _ _ made
    exact set

/-- Each generator, made alone or through its entry of the catalogue, is addressed by position. -/
theorem key_streams_addressed (key iv : Bytes) :
    (∀ generator, Salsa20.ofKey key iv = .ok generator →
      Addressed generator (Salsa20.keyByte generator.block)) ∧
    (∀ generator, Trivium.ofKey key iv = .ok generator → Addressed generator generator.keyByte) ∧
    (∀ generator, Zuc.ofKey key iv = .ok generator → Addressed generator generator.keyByte) ∧
    ∀ algorithm ∈ builtIn, ∀ cipher, (algorithm.withKey key iv).run.value = .ok cipher →
      Addressed cipher cipher.keyByte := by
  refine ⟨Salsa20.of_key_addressed key iv, fun state _ => state.addressed,
    Zuc.of_key_addressed key iv, ?_⟩
  intro algorithm known cipher made
  exact StreamCipher.set_up_addressed algorithm known key iv cipher
    (algorithm.with_key_made key iv cipher made)

theorem zero_keys_addressed :
    (∃ generator, Salsa20.ofKey (Bytes.zeros 32) (Bytes.zeros 8) = .ok generator ∧
      Addressed generator (Salsa20.keyByte generator.block)) ∧
    (∃ generator, Trivium.ofKey (Bytes.zeros 10) [1] = .ok generator ∧
      Addressed generator generator.keyByte) ∧
    (∃ generator, Zuc.ofKey (Bytes.zeros 16) (Bytes.zeros 16) = .ok generator ∧
      Addressed generator generator.keyByte) ∧
    ∃ cipher, (salsa20.withKey (Bytes.zeros 16) (Bytes.zeros 8)).run.value = .ok cipher ∧
      Addressed cipher cipher.keyByte := by
  obtain ⟨salsa, _⟩ := key_streams_addressed (Bytes.zeros 32) (Bytes.zeros 8)
  obtain ⟨_, trivium, _⟩ := key_streams_addressed (Bytes.zeros 10) [1]
  obtain ⟨_, _, zuc, _⟩ := key_streams_addressed (Bytes.zeros 16) (Bytes.zeros 16)
  obtain ⟨_, _, _, catalogued⟩ := key_streams_addressed (Bytes.zeros 16) (Bytes.zeros 8)
  exact ⟨⟨_, rfl, salsa _ rfl⟩, ⟨_, rfl, trivium _ rfl⟩, ⟨_, rfl, zuc _ rfl⟩,
    ⟨_, rfl, catalogued salsa20 List.mem_cons_self _ rfl⟩⟩

end StreamAlgorithm

end SymmetricKey
