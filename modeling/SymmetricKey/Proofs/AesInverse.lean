import SymmetricKey.BlockCipher.Aes
import SymmetricKey.Proofs.InverseSteps

/-!
AES takes back what it did, whatever its round keys are. All steps of a round
but the table are sums, so the matrix of a column has to be looked at one byte
of the column at a time.
-/

namespace SymmetricKey

-- An incomplete last word is not read.
theorem BigEndian.words_length : (bytes : Bytes) → (words bytes).length = bytes.length / 4
  | _ :: _ :: _ :: _ :: rest => by
      rw [words, List.length_cons, words_length rest]
      simp only [List.length_cons]
      omega
  | [] | [_] | [_, _] | [_, _, _] => by simp [words]

namespace Field.Byte

theorem xor_mask (left right mask : UInt8) :
    (left ^^^ right) &&& mask = (left &&& mask) ^^^ (right &&& mask) := by
  apply UInt8.toBitVec_inj.mp
  ext place
  simp [Bool.and_xor_distrib_right]

theorem xor_left_comm (first second third : UInt8) :
    first ^^^ (second ^^^ third) = second ^^^ (first ^^^ third) := by
  ac_rfl

theorem top_bit (byte : UInt8) : byte &&& 0x80 = 0 ∨ byte &&& 0x80 = 0x80 := by
  revert byte
  decide +kernel

variable (modulus : UInt8)

theorem double_xor (left right : UInt8) :
    double modulus (left ^^^ right) = double modulus left ^^^ double modulus right := by
  have carried : (if (left ^^^ right) &&& 0x80 = 0 then 0 else modulus) =
      (if left &&& 0x80 = 0 then 0 else modulus) ^^^
      (if right &&& 0x80 = 0 then 0 else modulus) := by
    rw [xor_mask]
    rcases top_bit left with clear | set <;> rcases top_bit right with clear' | set' <;> simp [*]
  rw [double, double, double, UInt8.shiftLeft_xor, carried]
  ac_rfl

theorem select_xor (count : Nat) (left right factor : UInt8) :
    select modulus count (left ^^^ right) factor =
      select modulus count left factor ^^^ select modulus count right factor := by
  induction count generalizing left right factor with
  | zero => simp [select]
  | succ count ih =>
      rw [select, select, select, double_xor, ih]
      split
      · simp
      · ac_rfl

theorem mul_xor (left right factor : UInt8) :
    mul modulus (left ^^^ right) factor = mul modulus left factor ^^^ mul modulus right factor :=
  select_xor modulus 8 left right factor

/-- A byte on its four ways through two matrices, to one byte of its column. -/
def twice (a b c d e f g h byte : UInt8) : UInt8 :=
  mul modulus (mul modulus byte a) e ^^^ mul modulus (mul modulus byte b) f ^^^
    mul modulus (mul modulus byte c) g ^^^ mul modulus (mul modulus byte d) h

end Field.Byte

namespace Aes

open Field.Byte

section Columns
variable (state : Block 16) (position : Fin 16)

theorem below_first : below state position 0 = state.get position := by
  rw [below]
  congr 1
  apply Fin.ext
  simp only [Nat.add_zero]
  omega

theorem below_round (step : Nat) : below state position (step + 4) = below state position step := by
  rw [below, below]
  congr 2
  omega

theorem below_of_fn (byte : Fin 16 → UInt8) (step : Nat)
    (inside : 4 * (position.val / 4) + (position.val + step) % 4 < 16) :
    below (Vector.ofFn byte) position step = byte ⟨_, inside⟩ := Block.get_of_fn _ _

theorem below_below (step further : Nat)
    (inside : 4 * (position.val / 4) + (position.val + step) % 4 < 16) :
    below state ⟨_, inside⟩ further = below state position (step + further) := by
  rw [below, below]
  congr 2
  simp only
  omega

theorem mix_columns_below (a b c d : UInt8) (step : Nat) :
    below (mixColumns a b c d state) position step =
      mul modulus (below state position step) a ^^^
        mul modulus (below state position (step + 1)) b ^^^
        mul modulus (below state position (step + 2)) c ^^^
        mul modulus (below state position (step + 3)) d := by
  have inside : 4 * (position.val / 4) + (position.val + step) % 4 < 16 := by omega
  rw [mixColumns, below_of_fn _ _ _ inside, below_below, below_below, below_below, below_below,
    Nat.add_zero]

theorem mix_columns_twice (a b c d e f g h : UInt8) :
    (mixColumns e f g h (mixColumns a b c d state)).get position =
      twice modulus a d c b e f g h (below state position 0) ^^^
        twice modulus b a d c e f g h (below state position 1) ^^^
        twice modulus c b a d e f g h (below state position 2) ^^^
        twice modulus d c b a e f g h (below state position 3) := by
  -- Two circulant matrices one after the other, sorted by the byte that is multiplied.
  rw [← below_first, mix_columns_below, mix_columns_below, mix_columns_below, mix_columns_below,
    mix_columns_below]
  simp only [Nat.zero_add, Nat.reduceAdd, mul_xor, twice, below_round state position 0,
    below_round state position 1, below_round state position 2]
  ac_rfl

end Columns

/-- Each byte comes back to its place and leaves nothing at the others. -/
def Inverted (a b c d e f g h : UInt8) : Prop :=
  ∀ byte, twice modulus a d c b e f g h byte = byte ∧ twice modulus b a d c e f g h byte = 0 ∧
    twice modulus c b a d e f g h byte = 0 ∧ twice modulus d c b a e f g h byte = 0

theorem mix_columns_inverted (a b c d e f g h : UInt8) (inverted : Inverted a b c d e f g h)
    (state : Block 16) : mixColumns e f g h (mixColumns a b c d state) = state := by
  apply Block.get_inj
  intro position
  obtain ⟨here, _, _, _⟩ := inverted (below state position 0)
  obtain ⟨_, next, _, _⟩ := inverted (below state position 1)
  obtain ⟨_, _, third, _⟩ := inverted (below state position 2)
  obtain ⟨_, _, _, last⟩ := inverted (below state position 3)
  rw [mix_columns_twice, here, next, third, last, below_first]
  simp

-- The matrices are inverse as matrices of polynomials: no product of two entries has to be reduced.
theorem forward_inverted : Inverted 2 3 1 1 14 11 13 9 := by
  intro byte
  refine ⟨?_, ?_, ?_, ?_⟩ <;>
    simp +decide [twice, mul, select, double_xor, xor_assoc, xor_left_comm]

theorem backward_inverted : Inverted 14 11 13 9 2 3 1 1 := by
  intro byte
  refine ⟨?_, ?_, ?_, ?_⟩ <;>
    simp +decide [twice, mul, select, double_xor, xor_assoc, xor_left_comm]

theorem rows_undone (state : Block 16) : unshiftRows (shiftRows state) = state := by
  have turned : ∀ position : Fin 16, position * 13 * 5 = position := by decide
  apply Block.get_inj
  intro position
  rw [unshiftRows, Block.get_of_fn, shiftRows, Block.get_of_fn, turned]

theorem rows_redone (state : Block 16) : shiftRows (unshiftRows state) = state := by
  have turned : ∀ position : Fin 16, position * 5 * 13 = position := by decide
  apply Block.get_inj
  intro position
  rw [shiftRows, Block.get_of_fn, unshiftRows, Block.get_of_fn, turned]

theorem box_full : Substitution.valueSet aesBox.toList = 2 ^ 256 - 1 := by decide +kernel

theorem substitute_undone (state : Block 16) :
    substitute aesInverseBox (substitute aesBox state) = state := by
  apply Block.get_inj
  intro position
  rw [substitute, Block.get_map, substitute, Block.get_map, aesInverseBox,
    Substitution.inverse_apply aesBox box_full]

theorem substitute_redone (state : Block 16) :
    substitute aesBox (substitute aesInverseBox state) = state := by
  apply Block.get_inj
  intro position
  rw [substitute, Block.get_map, substitute, Block.get_map, aesInverseBox,
    Substitution.apply_inverse aesBox box_full]

theorem round_undone (key state : Block 16) : unround key (round key state) = state := by
  rw [unround, round, Block.xor_undone, mix_columns_inverted _ _ _ _ _ _ _ _ forward_inverted,
    rows_undone, substitute_undone]

theorem round_redone (key state : Block 16) : round key (unround key state) = state := by
  rw [round, unround, substitute_redone, rows_redone,
    mix_columns_inverted _ _ _ _ _ _ _ _ backward_inverted, Block.xor_undone]

theorem reversible (cipher : Aes) : BlockPermutation.Reversible cipher where
  undone block := by
    change decrypt cipher (encrypt cipher block) = block
    rw [decrypt, encrypt, Block.xor_undone, rows_undone, substitute_undone,
      rounds_undone round unround round_undone, Block.xor_undone]
  redone block := by
    change encrypt cipher (decrypt cipher block) = block
    rw [encrypt, decrypt, Block.xor_undone, rounds_redone round unround round_redone,
      substitute_redone, rows_redone, Block.xor_undone]

theorem extend_length (size count position : Nat) (window : List UInt32) (some : window ≠ []) :
    (extend size count position window).length = count := by
  induction count generalizing position window with
  | zero => rfl
  | succ count ih =>
      cases window with
      | nil => exact absurd rfl some
      | cons oldest window =>
          rw [extend, List.length_cons, ih]
          exact List.append_ne_nil_of_right_ne_nil window (List.cons_ne_nil _ _)

theorem round_keys_length (key : Bytes) (size : Nat) (some : 0 < size)
    (whole : key.length = size * 4) : (roundKeys key).length = size + 7 := by
  have words : (BigEndian.words key).length = size := by rw [BigEndian.words_length]; omega
  have start : BigEndian.words key ≠ [] := by
    intro none
    rw [none] at words
    exact absurd words (Nat.ne_of_lt some)
  rw [roundKeys, List.length_map, Bytes.segments_length 16 _ (by omega),
    Bytes.flat_length BigEndian.bytes32 4 (fun _ => rfl), List.length_append,
    extend_length _ _ _ _ start, words]
  omega

theorem rounds_of_keys (first : Block 16) (others : List (Block 16)) (some : 0 < others.length) :
    (ofRoundKeys first others).rounds = others.length := by
  rw [rounds, ofRoundKeys, List.length_dropLast]
  omega

/-- Whatever stands in the round keys, the two directions undo each other. A key of each size is
expanded to as many rounds as belong to it. -/
theorem any_round_keys_undone :
    (∀ cipher : Aes, BlockPermutation.Reversible cipher) ∧
      ∀ key : Bytes, key.length = 16 ∨ key.length = 24 ∨ key.length = 32 →
        ∃ cipher, expand key = .ok cipher ∧ cipher.rounds = key.length / 4 + 6 ∧
          ∀ block, decrypt cipher (encrypt cipher block) = block ∧
            encrypt cipher (decrypt cipher block) = block := by
  refine ⟨reversible, ?_⟩
  intro key accepted
  have whole : key.length = key.length / 4 * 4 := by omega
  have count := round_keys_length key (key.length / 4) (by omega) whole
  refine ⟨_, if_pos accepted, ?_, ?_⟩
  · rw [rounds_of_keys, List.length_drop, count]
    · omega
    · rw [List.length_drop, count]
      omega
  · intro block
    exact ⟨(reversible _).undone block, (reversible _).redone block⟩

/-- The first example of the standard, back from what it is enciphered to. -/
theorem standard_example_undone :
    let key := (List.range 16).map UInt8.ofNat
    let block := Block.ofFront 16 ((List.range 16).map fun index => UInt8.ofNat (17 * index))
    let enciphered := Block.ofFront 16
      [0x69, 0xc4, 0xe0, 0xd8, 0x6a, 0x7b, 0x04, 0x30, 0xd8, 0xcd, 0xb7, 0x80, 0x70, 0xb4,
        0xc5, 0x5a]
    ∃ cipher, expand key = .ok cipher ∧ cipher.rounds = 10 ∧ encrypt cipher block = enciphered ∧
      decrypt cipher enciphered = block := by
  intro key block enciphered
  obtain ⟨cipher, expanded, rounds, undone⟩ := any_round_keys_undone.2 key (by decide)
  have computed : (expand key).map (encrypt · block) = .ok enciphered := by decide +kernel
  rw [expanded] at computed
  have forth : encrypt cipher block = enciphered := Except.ok.inj computed
  refine ⟨cipher, expanded, rounds.trans (by decide), forth, ?_⟩
  rw [← forth]
  exact (undone block).1

end Aes

end SymmetricKey
