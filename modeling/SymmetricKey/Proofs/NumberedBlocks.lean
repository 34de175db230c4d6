import SymmetricKey.Derivation.Blocks
import SymmetricKey.Proofs.WordStrings

/-!
Derived keys as the front of a sequence of numbered blocks. Within an accepted
size no number comes twice, and a shorter key is the front of a longer one.
-/

namespace SymmetricKey.Derivation

def blockCount (hash : Hash) (size : Nat) : Nat := (size + hash.digestSize - 1) / hash.digestSize

/-- The front of the blocks from number one on. -/
def frontOf (hash : Hash) (block : Nat → Bytes) (size : Nat) : Bytes :=
  ((List.range (blockCount hash size)).flatMap fun index => block (index + 1)).take size

theorem digest_size_positive (hash : Hash) : 0 < hash.digestSize := by
  rw [Hash.digestSize]
  decide

theorem check_size_inside (hash : Hash) (size : Nat)
    (accepted : size ≤ (2 ^ 32 - 1) * hash.digestSize) : checkSize hash size = .ok () := by
  have bound : (1 <<< 32) - 1 = 2 ^ 32 - 1 := rfl
  rw [checkSize, bound, if_neg (by omega)]

theorem number_exact (hash : Hash) (size index : Nat)
    (accepted : size ≤ (2 ^ 32 - 1) * hash.digestSize) (begun : index * hash.digestSize < size) :
    (UInt32.ofNat index + 1).toNat = index + 1 := by
  have inside : index < 2 ^ 32 - 1 :=
    Nat.lt_of_mul_lt_mul_right (Nat.lt_of_lt_of_le begun accepted)
  simp only [UInt32.toNat_add, UInt32.toNat_ofNat', UInt32.reduceToNat]
  omega

theorem block_begun (hash : Hash) (size index : Nat) (inside : index < blockCount hash size) :
    index * hash.digestSize < size := by
  have positive := digest_size_positive hash
  have reached : (index + 1) * hash.digestSize ≤ size + hash.digestSize - 1 :=
    (Nat.le_div_iff_mul_le positive).mp inside
  rw [Nat.succ_mul] at reached
  omega

theorem numbered_exact (hash : Hash) (block : UInt32 → Except Error Bytes) (value : Nat → Bytes)
    (answers : ∀ number, block number = .ok (value number.toNat)) (size : Nat)
    (accepted : size ≤ (2 ^ 32 - 1) * hash.digestSize) :
    numbered hash block size = .ok (frontOf hash value size) := by
  have asked : block = fun number => pure (value number.toNat) := funext answers
  have blocks : (List.range (blockCount hash size)).map
      (fun index => value (UInt32.ofNat index + 1).toNat) =
        (List.range (blockCount hash size)).map fun index => value (index + 1) := by
    apply List.map_congr_left
    intro index member
    rw [number_exact hash size index accepted
      (block_begun hash size index (List.mem_range.mp member))]
  rw [numbered, asked, List.mapM_pure, ← blockCount, blocks, frontOf, List.flatMap]
  rfl

section Fronts
variable (hash : Hash) (block : Nat → Bytes)
  (whole : ∀ number, (block number).length = hash.digestSize)
include whole

theorem blocks_length (count : Nat) :
    ((List.range count).flatMap fun index => block (index + 1)).length =
      count * hash.digestSize := by
  rw [Bytes.flat_length _ hash.digestSize fun index => whole (index + 1), List.length_range]

theorem front_length (size : Nat) : (frontOf hash block size).length = size := by
  have covered := Bytes.begun_blocks_cover size hash.digestSize (digest_size_positive hash)
  rw [frontOf, List.length_take, blocks_length hash block whole]
  exact Nat.min_eq_left covered

theorem front_shorter (size shorter : Nat) (less : shorter ≤ size) :
    frontOf hash block shorter = (frontOf hash block size).take shorter := by
  have fewer : blockCount hash shorter ≤ blockCount hash size := Nat.div_le_div_right (by omega)
  obtain ⟨more, counts⟩ := Nat.exists_eq_add_of_le fewer
  have covered := Bytes.begun_blocks_cover shorter hash.digestSize (digest_size_positive hash)
  rw [frontOf, frontOf, List.take_take, Nat.min_eq_left less, counts, List.range_add,
    List.flatMap_append, List.take_append_of_le_length]
  rw [blocks_length hash block whole]
  exact covered

end Fronts

end SymmetricKey.Derivation
