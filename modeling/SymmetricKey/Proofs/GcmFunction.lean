import SymmetricKey.Proofs.GcmCalls

/-!
Authenticated encryption over a cipher that is a function on blocks. Every
accepted call then has an answer in closed form, and no run of calls takes a
context out of the reach of these forms: a context remembers nothing but its
key.
-/

namespace SymmetricKey

namespace Ghash

theorem start_block_length (key : GhashKey) (iv : Bytes) : (startBlock key iv).length = 16 := by
  rw [startBlock]
  by_cases short : iv.length = 12
  · simp [short]
  · simp [short, value, BigEndian.bytes128]

end Ghash

namespace Gcm

variable {C : Type} [BlockCipher C]

/-- A context whose cipher enciphers by one function, with the key that belongs to it. -/
def Over (function : Block 16 → Block 16) (context : Gcm C) : Prop :=
  Enciphers function context.cipher ∧
    context.key = GhashKey.ofBlock (Block.onBytes function (Bytes.zeros 16))

theorem of_cipher_over (function : Block 16 → Block 16) (cipher : C)
    (steady : Enciphers function cipher) :
    ∃ fresh, ofCipher cipher = .ok fresh ∧ Over function fresh := by
  have blocks : ¬BlockCipher.blockSize cipher ≠ blockSize := by
    rw [steady.block_size function cipher, blockSize]
    simp
  obtain ⟨after, kept, answer⟩ := steady.call function cipher (Bytes.zeros 16) List.length_replicate
  have asked : BlockCipher.encryptBlock cipher (Bytes.zeros blockSize) blockSize =
      (.ok (function (Block.ofFront 16 (Bytes.zeros 16))), after) := answer
  refine ⟨{ cipher := after, key := GhashKey.ofBlock (Block.onBytes function (Bytes.zeros 16)) },
    ?_, kept, rfl⟩
  rw [ofCipher, if_neg blocks, asked]
  rfl

/-- The text under the counter blocks behind the first one. -/
def concealed (function : Block 16 → Block 16) (start text : Bytes) : Bytes :=
  Bytes.xor text
    (Ctr.keystream function 4 (Ctr.increment 4 start) ((text.length + 16 - 1) / 16))

def tagOf (function : Block 16 → Block 16) (key : GhashKey) (start aad text : Bytes) (size : Nat) :
    Bytes :=
  (Bytes.xor (textHash key aad text) (Block.onBytes function start)).take size

theorem concealed_length (function : Block 16 → Block 16) (start text : Bytes) :
    (concealed function start text).length = text.length := by
  rw [concealed, Bytes.xor_length, Ctr.keystream_length]
  omega

theorem tag_of_length (function : Block 16 → Block 16) (key : GhashKey) (start aad text : Bytes)
    (size : Nat) (most : size ≤ 16) : (tagOf function key start aad text size).length = size := by
  simp [tagOf, textHash, Ghash.value, BigEndian.bytes128, most]

-- Both directions add the same bytes.
theorem concealed_twice (function : Block 16 → Block 16) (start text : Bytes) :
    concealed function start (concealed function start text) = text := by
  have same := concealed_length function start text
  rw [concealed, same, concealed]
  apply Bytes.xor_cancel
  rw [Ctr.keystream_length]
  omega

section Steady
variable (function : Block 16 → Block 16) (context : Gcm C) (keyed : Over function context)
include keyed

theorem crypt_text_exact (start input : Bytes) (block : start.length = 16) :
    ∃ after, Enciphers function after ∧ (context.cryptText start input).produced =
        concealed function start input ∧
      (context.cryptText start input).refusal = none ∧
      (context.cryptText start input).cipher = after := by
  have moved : (Ctr.increment 4 start).length = 16 := by
    rw [Ctr.increment_length 4 start (by omega), block]
  obtain ⟨after, kept, run⟩ := Ctr.encrypt_exact function 32 context.cipher keyed.1
    (Ctr.increment 4 start) input input.length moved (by omega) (by decide) (by decide)
    (by decide) (Nat.le_refl _)
  refine ⟨after, kept, ?_⟩
  rw [cryptText, run]
  exact ⟨rfl, rfl, rfl⟩

theorem tag_exact (start aad text : Bytes) (size : Nat) (block : start.length = 16) :
    ∃ last, Over function last ∧ context.tag start aad text size =
      (.ok (tagOf function context.key start aad text size), last) := by
  obtain ⟨after, kept, answer⟩ := keyed.1.call function context.cipher start block
  refine ⟨{ context with cipher := after }, ⟨kept, keyed.2⟩, ?_⟩
  have asked : BlockCipher.encryptBlock context.cipher start blockSize =
      (.ok (function (Block.ofFront 16 start)), after) := answer
  rw [tag, asked]
  rfl

theorem encrypt_into_exact (iv aad input buffer tagBuffer : Bytes)
    (accepted : check iv tagBuffer.length input.length buffer.length = .ok ()) :
    ∃ last, Over function last ∧ context.encryptInto iv aad input buffer tagBuffer =
      { refusal := none
        output := concealed function (Ghash.startBlock context.key iv) input ++
          buffer.drop input.length
        tag := tagOf function context.key (Ghash.startBlock context.key iv) aad
          (concealed function (Ghash.startBlock context.key iv) input) tagBuffer.length
        context := last } := by
  have fits := (check_text_ok_iff _ _).mp ((check_ok_iff _ _ _ _).mp accepted).2
  have block := Ghash.start_block_length context.key iv
  obtain ⟨after, kept, produced, finished, moved⟩ :=
    crypt_text_exact function context keyed (Ghash.startBlock context.key iv) input block
  have next : Over function (context.afterText iv input) := by
    refine ⟨?_, keyed.2⟩
    rw [afterText, conceal, moved]
    exact kept
  obtain ⟨last, keyedLast, computed⟩ := tag_exact function (context.afterText iv input) next
    (Ghash.startBlock context.key iv) aad (context.conceal iv input).produced tagBuffer.length block
  refine ⟨last, keyedLast, ?_⟩
  rw [encrypt_sealed context iv aad input buffer tagBuffer _ last accepted finished computed,
    conceal, produced, Progress.output, produced,
    Bytes.overlay_fitting buffer _ (by rw [concealed_length]; exact fits.2), concealed_length]
  rfl

theorem decrypt_right_tag (iv aad input buffer tag : Bytes)
    (accepted : check iv tag.length input.length buffer.length = .ok ())
    (right : tagOf function context.key (Ghash.startBlock context.key iv) aad input tag.length =
      tag) :
    ∃ last, Over function last ∧ (context.decrypt iv aad input buffer tag).value =
      { refusal := none
        output := concealed function (Ghash.startBlock context.key iv) input ++
          buffer.drop input.length
        context := last } := by
  have fits := (check_text_ok_iff _ _).mp ((check_ok_iff _ _ _ _).mp accepted).2
  have block := Ghash.start_block_length context.key iv
  obtain ⟨next, keyedNext, computed⟩ := tag_exact function context keyed
    (Ghash.startBlock context.key iv) aad input tag.length block
  obtain ⟨after, kept, produced, finished, moved⟩ :=
    crypt_text_exact function next keyedNext (Ghash.startBlock context.key iv) input block
  rw [right] at computed
  refine ⟨{ next with cipher := after }, ⟨kept, keyedNext.2⟩, ?_⟩
  rw [decrypt_verified context iv aad input buffer tag next accepted computed, finished, moved,
    Progress.output, produced,
    Bytes.overlay_fitting buffer _ (by rw [concealed_length]; exact fits.2), concealed_length]

theorem decrypt_wrong_tag (iv aad input buffer tag : Bytes)
    (accepted : check iv tag.length input.length buffer.length = .ok ())
    (wrong : tagOf function context.key (Ghash.startBlock context.key iv) aad input tag.length ≠
      tag) :
    ∃ last, Over function last ∧ (context.decrypt iv aad input buffer tag).value =
      { refusal := some .authenticationFailed
        output := buffer.overlay (Bytes.zeros input.length)
        context := last } := by
  obtain ⟨next, keyedNext, computed⟩ := tag_exact function context keyed
    (Ghash.startBlock context.key iv) aad input tag.length (Ghash.start_block_length context.key iv)
  exact ⟨next, keyedNext,
    decrypt_mismatch context iv aad input buffer tag _ next accepted computed wrong⟩

end Steady

inductive Call where
  | encipher (iv aad input buffer tagBuffer : Bytes)
  | decipher (iv aad input buffer tag : Bytes)

def serve (context : Gcm C) : Call → Gcm C
  | .encipher iv aad input buffer tagBuffer =>
      (context.encryptInto iv aad input buffer tagBuffer).context
  | .decipher iv aad input buffer tag => (context.decrypt iv aad input buffer tag).value.context

def serveAll (context : Gcm C) (calls : List Call) : Gcm C := calls.foldl serve context

theorem serve_over (function : Block 16 → Block 16) (context : Gcm C)
    (keyed : Over function context) (call : Call) : Over function (context.serve call) := by
  cases call with
  | encipher iv aad input buffer tagBuffer =>
      cases checked : check iv tagBuffer.length input.length buffer.length with
      | error cause =>
          rw [serve, encrypt_refused context iv aad input buffer tagBuffer cause checked]
          exact keyed
      | ok done =>
          obtain ⟨last, keyedLast, answer⟩ :=
            encrypt_into_exact function context keyed iv aad input buffer tagBuffer checked
          rw [serve, answer]
          exact keyedLast
  | decipher iv aad input buffer tag =>
      cases checked : check iv tag.length input.length buffer.length with
      | error cause =>
          rw [serve, decrypt_refused context iv aad input buffer tag cause checked]
          exact keyed
      | ok done =>
          by_cases right : tagOf function context.key (Ghash.startBlock context.key iv) aad input
              tag.length = tag
          · obtain ⟨last, keyedLast, answer⟩ :=
              decrypt_right_tag function context keyed iv aad input buffer tag checked right
            rw [serve, answer]
            exact keyedLast
          · obtain ⟨last, keyedLast, answer⟩ :=
              decrypt_wrong_tag function context keyed iv aad input buffer tag checked right
            rw [serve, answer]
            exact keyedLast

theorem serve_all_over (function : Block 16 → Block 16) (context : Gcm C)
    (keyed : Over function context) (calls : List Call) :
    Over function (context.serveAll calls) := by
  induction calls generalizing context with
  | nil => exact keyed
  | cons call rest ih => exact ih (context.serve call) (serve_over function context keyed call)

end Gcm

end SymmetricKey
