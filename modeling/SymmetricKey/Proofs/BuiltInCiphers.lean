import SymmetricKey.Catalogue.BuiltIn
import SymmetricKey.Proofs.BlockFunctions

/-!
The ciphers of the catalogue. Each takes every key of a length that its entry
lists, has blocks of the listed size, and refuses nothing but a block of
another length.
-/

namespace SymmetricKey

-- No engine of somebody else is among these.
abbrev BuiltInCipher := KeyedCipher Empty

instance : BlockCipher Empty := ⟨Empty.elim, fun _ engine _ _ => engine.elim⟩

theorem Block.of_bytes_made (size : Nat) (bytes : Bytes) (exact : bytes.length = size) :
    ∃ block, ofBytes? size bytes = some block := ⟨_, dif_pos exact⟩

theorem Tea.key_of_bytes_made (key : Bytes) (exact : key.length = 16) :
    ∃ quad, keyOfBytes key = .ok quad := by
  obtain ⟨block, whole⟩ := Block.of_bytes_made 16 key exact
  exact ⟨Quad.ofBigEndian block, by rw [keyOfBytes, whole]⟩

theorem KeySizes.three_listed (length : Nat)
    (listed : (fixed [16, 24, 32]).contains length = true) :
    length = 16 ∨ length = 24 ∨ length = 32 := by
  simpa [contains] using listed

theorem KeySizes.one_listed (size length : Nat) (listed : (fixed [size]).contains length = true) :
    length = size := by
  simpa [contains] using listed

namespace CipherAlgorithm

theorem wrapped_made {C Engine : Type} [BlockCipher Engine] (wrap : C → KeyedCipher Engine)
    (size : Nat) (sized : ∀ cipher, BlockCipher.blockSize (wrap cipher) = size)
    (outcome : Except Error C) (made : ∃ cipher, outcome = .ok cipher) :
    ∃ cipher, outcome.map wrap = .ok cipher ∧ BlockCipher.blockSize cipher = size := by
  obtain ⟨cipher, rfl⟩ := made
  exact ⟨wrap cipher, rfl, sized cipher⟩

theorem expand_made {Engine : Type} [BlockCipher Engine] (algorithm : CipherAlgorithm Engine)
    (known : algorithm ∈ builtIn) (key : Bytes)
    (accepted : algorithm.keySizes.contains key.length = true) :
    ∃ cipher, algorithm.expand key = .ok cipher ∧
      BlockCipher.blockSize cipher = algorithm.blockSize := by
  simp only [builtIn, List.mem_cons, List.not_mem_nil, or_false] at known
  rcases known with rfl | rfl | rfl | rfl | rfl | rfl | rfl | rfl | rfl
  · exact wrapped_made .aes 16 (fun _ => rfl) _ ⟨_, if_pos (KeySizes.three_listed _ accepted)⟩
  · apply wrapped_made .aria 16 (fun _ => rfl)
    rw [Aria.expand]
    rcases KeySizes.three_listed _ accepted with size | size | size <;> rw [size] <;> exact ⟨_, rfl⟩
  · have listed : 5 ≤ key.length ∧ key.length ≤ 16 := by
      simp [cast128, KeySizes.contains] at accepted
      omega
    exact wrapped_made .cast128 8 (fun _ => rfl) _ ⟨_, if_pos listed⟩
  · have listed : 16 ≤ key.length ∧ key.length ≤ 32 ∧ key.length % 4 = 0 := by
      simp [cast256, KeySizes.contains] at accepted
      omega
    exact wrapped_made .cast256 16 (fun _ => rfl) _ ⟨_, if_pos listed⟩
  · exact wrapped_made .serpent 16 (fun _ => rfl) _ ⟨_, if_pos (KeySizes.three_listed _ accepted)⟩
  · exact wrapped_made .twofish 16 (fun _ => rfl) _ ⟨_, if_pos (KeySizes.three_listed _ accepted)⟩
  · obtain ⟨block, whole⟩ := Block.of_bytes_made 16 key (KeySizes.one_listed 16 _ accepted)
    exact wrapped_made .sm4 16 (fun _ => rfl) (Sm4.expand key) ⟨_, by rw [Sm4.expand, whole]⟩
  · obtain ⟨_, read⟩ := Tea.key_of_bytes_made key (KeySizes.one_listed 16 _ accepted)
    exact wrapped_made .tea 8 (fun _ => rfl) (Tea.expand key) ⟨_, congrArg (Except.map _) read⟩
  · obtain ⟨_, read⟩ := Tea.key_of_bytes_made key (KeySizes.one_listed 16 _ accepted)
    exact wrapped_made .xtea 8 (fun _ => rfl) (Xtea.expand key) ⟨_, congrArg (Except.map _) read⟩

end CipherAlgorithm

theorem BlockPermutation.run_exactly_cause {C : Type} [BlockPermutation C] (direction : Direction)
    (cipher : C) (input : Bytes) (room : Nat) (cause : Error)
    (refused : runExactly direction cipher input room = .error cause) : cause = .invalidLength := by
  rw [runExactly] at refused
  split at refused
  · cases refused
    rfl
  · split at refused
    · cases refused
    · cases refused
      rfl

namespace BuiltInCipher

theorem crypt_block_cause (direction : Direction) (cipher : BuiltInCipher) (input : Bytes)
    (room : Nat) (cause : Error)
    (refused : (BlockCipher.cryptBlock direction cipher input room).1 = .error cause) :
    cause = .invalidLength := by
  cases cipher with
  | engine engine => exact engine.elim
  | _ => exact BlockPermutation.run_exactly_cause direction _ input room cause refused

theorem wrapped_enciphers {C : Type} [BlockPermutation C] (wrap : C → BuiltInCipher)
    (sized : ∀ cipher, BlockCipher.blockSize (wrap cipher) = BlockPermutation.size C)
    (answered : ∀ cipher input room, BlockCipher.encryptBlock (wrap cipher) input room =
      (BlockPermutation.runExactly .encrypt cipher input room, wrap cipher)) (cipher : C) :
    Enciphers (BlockPermutation.encrypt cipher) (wrap cipher) := by
  refine ⟨(· = wrap cipher), rfl, ?_⟩
  rintro state rfl
  refine ⟨sized cipher, fun block => ⟨wrap cipher, rfl, ?_⟩⟩
  obtain ⟨_, _, plain⟩ := BlockPermutation.answers .encrypt cipher cipher rfl block
  rw [answered]
  exact congrArg (·, wrap cipher) (congrArg Prod.fst plain)

theorem enciphers (cipher : BuiltInCipher) :
    ∃ (size : Nat) (function : Block size → Block size), Enciphers function cipher := by
  cases cipher with
  | engine engine => exact engine.elim
  | aes cipher => exact ⟨_, _, wrapped_enciphers .aes (fun _ => rfl) (fun _ _ _ => rfl) cipher⟩
  | aria cipher => exact ⟨_, _, wrapped_enciphers .aria (fun _ => rfl) (fun _ _ _ => rfl) cipher⟩
  | cast128 cipher =>
      exact ⟨_, _, wrapped_enciphers .cast128 (fun _ => rfl) (fun _ _ _ => rfl) cipher⟩
  | cast256 cipher =>
      exact ⟨_, _, wrapped_enciphers .cast256 (fun _ => rfl) (fun _ _ _ => rfl) cipher⟩
  | serpent cipher =>
      exact ⟨_, _, wrapped_enciphers .serpent (fun _ => rfl) (fun _ _ _ => rfl) cipher⟩
  | twofish cipher =>
      exact ⟨_, _, wrapped_enciphers .twofish (fun _ => rfl) (fun _ _ _ => rfl) cipher⟩
  | sm4 cipher => exact ⟨_, _, wrapped_enciphers .sm4 (fun _ => rfl) (fun _ _ _ => rfl) cipher⟩
  | tea cipher => exact ⟨_, _, wrapped_enciphers .tea (fun _ => rfl) (fun _ _ _ => rfl) cipher⟩
  | xtea cipher => exact ⟨_, _, wrapped_enciphers .xtea (fun _ => rfl) (fun _ _ _ => rfl) cipher⟩

theorem enciphers_wide (cipher : BuiltInCipher) (wide : BlockCipher.blockSize cipher = 16) :
    ∃ function : Block 16 → Block 16, Enciphers function cipher := by
  obtain ⟨size, function, steady⟩ := enciphers cipher
  obtain rfl : size = 16 := (steady.block_size function cipher).symm.trans wide
  exact ⟨function, steady⟩

end BuiltInCipher

end SymmetricKey
