import SymmetricKey.Proofs.GcmFunction
import SymmetricKey.Proofs.HornerHash
import SymmetricKey.Proofs.QuotientField

/-!
Authenticated encryption in one piece, as NIST SP 800-38D writes it down: over
any function on blocks, without states, tables or buffers. Streaming, tables
and counting in place come to the same text and the same tag.
-/

namespace SymmetricKey.Gcm

open Ghash (element hash filled)

namespace Standard

variable (function : Block 16 → Block 16)

/-- Adds one to the number in the last four bytes, modulo `2^32`. -/
def nextCounter (block : Bytes) : Bytes :=
  block.take 12 ++ BigEndian.numeral 4 (BigEndian.number (block.drop 12) + 1)

/-- The encrypted block of zeros as an element of the field. -/
def hashPoint : BitVec 128 := element (Block.onBytes function (Bytes.zeros 16))

def firstCounter (iv : Bytes) : Bytes :=
  if iv.length = 12 then iv ++ BigEndian.numeral 4 1
  else hash (hashPoint function)
    (filled iv ++ (Bytes.zeros 8 ++ BigEndian.numeral 8 (8 * iv.length)))

/-- The encrypted counters behind the first one, as many as there are blocks in the text. -/
def cipherText (iv plain : Bytes) : Bytes :=
  Bytes.xor plain
    (((List.range ((plain.length + 15) / 16)).flatMap fun index =>
      Block.onBytes function (nextCounter^[index + 1] (firstCounter function iv))).take
        plain.length)

def cipherTag (iv aad text : Bytes) (size : Nat) : Bytes :=
  (Bytes.xor (Block.onBytes function (firstCounter function iv))
    (hash (hashPoint function) (filled aad ++ filled text ++
      (BigEndian.numeral 8 (8 * aad.length) ++ BigEndian.numeral 8 (8 * text.length))))).take size

end Standard

theorem next_counter_exact (start : Bytes) (block : start.length = 16) :
    Standard.nextCounter start = Ctr.counterAt 4 start 1 := by
  rw [Standard.nextCounter, Ctr.counterAt, block]

theorem next_counter_iterate (start : Bytes) (block : start.length = 16) (index : Nat) :
    Standard.nextCounter^[index] start = Ctr.counterAt 4 start index := by
  induction index with
  | zero => exact (Ctr.counter_at_zero 4 start (by omega)).symm
  | succ index ih =>
      have same : (Ctr.counterAt 4 start index).length = 16 := by
        rw [Ctr.counter_at_length 4 start index (by omega), block]
      rw [Function.iterate_succ_apply', ih, next_counter_exact _ same,
        Ctr.counter_at_add 4 start index 1 (by omega)]

theorem key_exact (function : Block 16 → Block 16) :
    GhashKey.ofBlock (Block.onBytes function (Bytes.zeros 16)) =
      Field.Reflected.multiples (Standard.hashPoint function) := by
  rw [GhashKey.ofBlock, BigEndian.number128_exact, Standard.hashPoint, element]

theorem start_block_standard (function : Block 16 → Block 16) (iv : Bytes) :
    Ghash.startBlock (GhashKey.ofBlock (Block.onBytes function (Bytes.zeros 16))) iv =
      Standard.firstCounter function iv := by
  rw [key_exact, Standard.firstCounter]
  by_cases short : iv.length = 12
  · rw [Ghash.startBlock, if_pos short, if_pos short]
    rfl
  · rw [Ghash.start_block_exact _ iv short, if_neg short]

theorem first_counter_length (function : Block 16 → Block 16) (iv : Bytes) :
    (Standard.firstCounter function iv).length = 16 := by
  rw [← start_block_standard]
  exact Ghash.start_block_length _ iv

section Over
variable {C : Type} [BlockCipher C] (function : Block 16 → Block 16) (context : Gcm C)
  (keyed : Over function context)
include keyed

theorem first_counter_exact (iv : Bytes) :
    Ghash.startBlock context.key iv = Standard.firstCounter function iv := by
  rw [keyed.2, start_block_standard]

theorem cipher_text_exact (iv plain : Bytes) :
    concealed function (Ghash.startBlock context.key iv) plain =
      Standard.cipherText function iv plain := by
  have block := Ghash.start_block_length context.key iv
  rw [first_counter_exact function context keyed iv] at block ⊢
  have blocks :
      ∀ index, Ctr.counterAt 4 (Ctr.increment 4 (Standard.firstCounter function iv)) index =
      Standard.nextCounter^[index + 1] (Standard.firstCounter function iv) := by
    intro index
    rw [next_counter_iterate _ block, Ctr.counter_at_increment 4 _ index (by omega)]
  have cut := Bytes.xor_cut plain
    (Ctr.keystream function 4 (Ctr.increment 4 (Standard.firstCounter function iv))
      ((plain.length + 15) / 16)) (by rw [Ctr.keystream_length]; omega)
  have count : (plain.length + 16 - 1) / 16 = (plain.length + 15) / 16 := rfl
  rw [concealed, count, ← cut, Standard.cipherText, Ctr.keystream]
  simp only [blocks]

theorem cipher_tag_exact (iv aad text : Bytes) (size : Nat) :
    tagOf function context.key (Ghash.startBlock context.key iv) aad text size =
      Standard.cipherTag function iv aad text size := by
  rw [tagOf, first_counter_exact function context keyed iv, keyed.2, key_exact,
    Ghash.text_hash_exact, Bytes.xor_comm, Standard.cipherTag]

end Over

/-- Whatever a context was used for, an accepted text gets the ciphertext and the tag of the
definition. The product in its hash is that of polynomials modulo
`x^128 + x^7 + x^2 + x + 1`. -/
theorem encrypts_as_standard {C : Type} [BlockCipher C] (function : Block 16 → Block 16)
    (cipher : C) (steady : Enciphers function cipher) :
    (Function.Injective Field.Reflected.residue ∧ ∀ left right,
      Field.Reflected.residue (Field.Reflected.serialProduct left right) =
        Field.Reflected.residue left * Field.Reflected.residue right) ∧
    ∃ fresh, ofCipher cipher = .ok fresh ∧ ∀ calls iv aad plain buffer tagBuffer,
      iv ≠ [] → 4 ≤ tagBuffer.length → tagBuffer.length ≤ 16 →
      checkText plain.length buffer.length = .ok () →
        let sealed := (fresh.serveAll calls).encryptInto iv aad plain buffer tagBuffer
        let text := Standard.cipherText function iv plain
        sealed.refusal = none ∧ text.length = plain.length ∧
          sealed.output = text ++ buffer.drop plain.length ∧
          sealed.tag = Standard.cipherTag function iv aad text tagBuffer.length := by
  refine ⟨⟨Field.Reflected.residue_injective, Field.Reflected.residue_serial_product⟩, ?_⟩
  obtain ⟨fresh, made, keyed⟩ := of_cipher_over function cipher steady
  refine ⟨fresh, made, ?_⟩
  intro calls iv aad plain buffer tagBuffer vector least most sizes
  have served := serve_all_over function fresh keyed calls
  have accepted : check iv tagBuffer.length plain.length buffer.length = .ok () :=
    (check_ok_iff _ _ _ _).mpr ⟨⟨vector, least, most⟩, sizes⟩
  obtain ⟨last, _, answer⟩ :=
    encrypt_into_exact function _ served iv aad plain buffer tagBuffer accepted
  have text := cipher_text_exact function _ served iv plain
  have length := concealed_length function (Ghash.startBlock (fresh.serveAll calls).key iv) plain
  rw [text, cipher_tag_exact function _ served] at answer
  rw [text] at length
  rw [answer]
  exact ⟨rfl, length, rfl, rfl⟩

def masking : BlockFunction 16 := ⟨fun block => block.map (· ^^^ 0x5A)⟩

theorem short_vector_hashed_as_standard :
    ∃ fresh, ofCipher masking = .ok fresh ∧
      (fresh.encryptInto [1] [2] [3, 4, 5] (Bytes.zeros 5) (Bytes.zeros 4)).output =
        [130, 140, 12, 0, 0] ∧
      (fresh.encryptInto [1] [2] [3, 4, 5] (Bytes.zeros 5) (Bytes.zeros 4)).tag =
        [155, 53, 228, 94] := by
  obtain ⟨_, fresh, made, law⟩ := encrypts_as_standard masking.apply masking masking.enciphers
  obtain ⟨_, _, output, tag⟩ := law [] [1] [2] [3, 4, 5] (Bytes.zeros 5) (Bytes.zeros 4)
    (by decide) (by decide) (by decide) (by decide)
  exact ⟨fresh, made, output.trans (by decide +kernel), tag.trans (by decide +kernel)⟩

end SymmetricKey.Gcm
