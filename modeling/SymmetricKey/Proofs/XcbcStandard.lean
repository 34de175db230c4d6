import SymmetricKey.Proofs.ChainMacs

/-!
XCBC-MAC as RFC 3566 has it. Three blocks enciphered under the user's key give
the key of the chain and both masks. Over ciphers that never refuse, a context
made from the key answers every run of calls as one that keeps nothing but the
message and makes its tag at the end.
-/

namespace SymmetricKey

namespace CipherAlgorithm

variable {Engine : Type} (algorithm : CipherAlgorithm Engine)

/-- The algorithm takes the key, and its cipher under that key is one function and never refuses. -/
def Computes [BlockCipher Engine] {size : Nat} (key : Bytes) (function : Block size → Block size) :
    Prop :=
  ∃ cipher, algorithm.expand key = .ok cipher ∧ Enciphers function cipher

theorem with_key_value (key : Bytes) (supported : algorithm.keySizes.contains key.length = true) :
    (algorithm.withKey key).run.value = algorithm.expand key := by
  rw [withKey, if_pos supported]
  exact Attempt.bind_value _ _ () rfl

end CipherAlgorithm

namespace Xcbc

open CbcChain (tagOf)

section Derivation
variable {C : Type} [BlockCipher C] (function : Block 16 → Block 16) (cipher : C)
  (steady : Enciphers function cipher)
include steady

theorem subkey_steady (byte : UInt8) :
    ∃ next, Enciphers function next ∧
      subkey cipher byte = (.ok (Block.onBytes function (List.replicate 16 byte)), next) := by
  obtain ⟨next, kept, answered⟩ :=
    steady.call function cipher (List.replicate 16 byte) List.length_replicate
  have asked : BlockCipher.encryptBlock cipher (List.replicate size byte) size =
      (.ok (function (Block.ofFront 16 (List.replicate 16 byte))), next) := answered
  refine ⟨next, kept, ?_⟩
  rw [subkey, asked]
  rfl

theorem subkeys_steady :
    subkeys cipher = .ok (Block.onBytes function (List.replicate 16 1),
      Block.onBytes function (List.replicate 16 2),
      Block.onBytes function (List.replicate 16 3)) := by
  obtain ⟨second, steadySecond, first⟩ := subkey_steady function cipher steady 1
  obtain ⟨third, steadyThird, masked⟩ := subkey_steady function second steadySecond 2
  obtain ⟨_, _, last⟩ := subkey_steady function third steadyThird 3
  rw [subkeys, first]
  simp only [bind, Except.bind, masked, last]
  rfl

end Derivation

theorem of_key_value {Engine : Type} [BlockCipher Engine] (algorithm : CipherAlgorithm Engine)
    (key : Bytes) (wide : algorithm.blockSize = 16) (sixteen : key.length = 16)
    (user cipher : KeyedCipher Engine) (chainKey full partly : Bytes)
    (keyed : (algorithm.withKey key).run.value = .ok user)
    (derived : subkeys user = .ok (chainKey, full, partly))
    (chained : (algorithm.withKey chainKey).run.value = .ok cipher) :
    (ofKey algorithm key).run.value =
      .ok { cipher, fullMask := full, partMask := partly, chain := CbcChain.empty 16 } := by
  have blocks : ¬algorithm.blockSize ≠ size := not_not_intro wide
  have bytes : ¬key.length ≠ size := not_not_intro sixteen
  rw [ofKey, if_neg blocks]
  simp only [if_neg bytes]
  refine (Attempt.bind_value _ _ user keyed).trans ?_
  rw [derived]
  exact Attempt.bind_value _ _ cipher chained

/-- The tag of a message is that of the chain under the first derived key, the last block masked by
the second one where it is complete and by the third one where it had to be filled up. A length out
of range is refused and leaves the message as it was. -/
theorem answers_as_standard {Engine : Type} [BlockCipher Engine]
    (algorithm : CipherAlgorithm Engine) (wide : algorithm.blockSize = 16)
    (supported : algorithm.keySizes.contains 16 = true) (key : Bytes) (sixteen : key.length = 16)
    (user derived : Block 16 → Block 16) (keyed : algorithm.Computes key user)
    (chained : algorithm.Computes (Block.onBytes user (List.replicate 16 1)) derived) :
    ∃ fresh, (ofKey algorithm key).run.value = .ok fresh ∧ ∀ calls,
      (CallRun.run serve fresh calls).1 =
        (CallRun.run (ChainMac.ideal 16 (tagOf derived (Block.onBytes user (List.replicate 16 2))
          (Block.onBytes user (List.replicate 16 3)))) [] calls).1 := by
  obtain ⟨master, expanded, steadyMaster⟩ := keyed
  obtain ⟨cipher, expandedChain, steady⟩ := chained
  have width := Block.on_bytes_length user
  have first := algorithm.with_key_value key (by rw [sixteen]; exact supported)
  have second := algorithm.with_key_value (Block.onBytes user (List.replicate 16 1))
    (by rw [width]; exact supported)
  refine ⟨_, of_key_value algorithm key wide sixteen master cipher _ _ _ (first.trans expanded)
    (subkeys_steady user master steadyMaster) (second.trans expandedChain), ?_⟩
  intro calls
  apply ChainMac.run_ideal view serve derived _ _ (by decide) (width _) (width _)
    (fun context message here => context.serve_view here.awaits.shaped.blocks.symm)
  constructor
  case steady => exact steady
  case awaits =>
    constructor
    case honest => exact steady.answers_by derived cipher
    case fullMask => rfl
    case partMask => rfl
    case shaped => exact CbcChain.empty_shaped 16
    case standing =>
      rintro known ⟨⟩
      exact CbcChain.empty_stands_for derived

-- The key is added to the block, and the sum is read backwards.
def mirrored (key : Bytes) : BlockFunction 16 :=
  ⟨fun block => (Vector.zipWith (· + ·) block (Block.ofFront 16 key)).reverse⟩

def mirroredAlgorithm : CipherAlgorithm (BlockFunction 16) :=
  { name := "MIRRORED", oid := [], blockSize := 16, keySizes := .range 0 64 1,
    flags := CipherFlags.none, expand := fun key => .ok (.engine (mirrored key)) }

/-- A message of one block and a shorter one behind it, with a refused length in between. -/
theorem block_and_byte_tagged :
    ∃ fresh, (ofKey mirroredAlgorithm (List.replicate 16 7)).run.value = .ok fresh ∧
      (CallRun.run serve fresh [.absorb [1], .absorb (List.replicate 15 2), .finish 0, .finish 3,
        .absorb [5], .finish 2]).1.map (·.2) =
        [.done, .done, .refused .invalidParameter, .tag [19, 19, 19], .done, .tag [18, 18]] := by
  have computes : ∀ key, mirroredAlgorithm.Computes key (mirrored key).apply := fun key =>
    ⟨_, rfl, (mirrored key).enciphers.engine _ _⟩
  obtain ⟨fresh, made, answers⟩ := answers_as_standard mirroredAlgorithm rfl rfl
    (List.replicate 16 7) rfl _ _ (computes _) (computes _)
  refine ⟨fresh, made, ?_⟩
  rw [answers]
  decide +kernel

end Xcbc

end SymmetricKey
