import SymmetricKey.Error
import SymmetricKey.Block

/-!
What modes and MACs may assume of a block cipher: a block size, and the two
directions of a permutation that may be refused. A cipher may change by being
used, so each call also returns the cipher for the next call, after a refusal
too. A refused call returns no bytes: what a cipher may have written into its
output before it failed has no place here, only in the ranges of a machine's
buffers that a foreign cipher is given.
-/

namespace SymmetricKey

inductive Direction where
  | encrypt
  | decrypt
deriving DecidableEq, Repr

class BlockCipher (C : Type) where
  blockSize : C → Nat
  /-- The answer has as many bytes as the caller has room for. -/
  cryptBlock : Direction → C → Bytes → (room : Nat) → Except Error (Block room) × C

namespace BlockCipher

def encryptBlock {C : Type} [BlockCipher C] (cipher : C) (input : Bytes) (room : Nat) :
    Except Error (Block room) × C :=
  cryptBlock .encrypt cipher input room

def decryptBlock {C : Type} [BlockCipher C] (cipher : C) (input : Bytes) (room : Nat) :
    Except Error (Block room) × C :=
  cryptBlock .decrypt cipher input room

end BlockCipher

/-- A keyed permutation of the blocks of one size, given by its two directions. -/
class BlockPermutation (C : Type) where
  size : Nat
  encrypt : C → Block size → Block size
  decrypt : C → Block size → Block size

namespace BlockPermutation

def run {C : Type} [BlockPermutation C] (direction : Direction) (cipher : C) :
    Block (size C) → Block (size C) :=
  match direction with
  | .encrypt => encrypt cipher
  | .decrypt => decrypt cipher

def runExactly {C : Type} [BlockPermutation C] (direction : Direction) (cipher : C)
    (input : Bytes) (room : Nat) : Except Error (Block room) :=
  -- Input and room both have to be exactly one block.
  match Block.ofBytes? (size C) input with
  | none => .error .invalidLength
  | some block =>
      if exact : size C = room then .ok ((run direction cipher block).cast exact)
      else .error .invalidLength

end BlockPermutation

instance {C : Type} [BlockPermutation C] : BlockCipher C where
  blockSize _ := BlockPermutation.size C
  cryptBlock direction cipher input room :=
    (BlockPermutation.runExactly direction cipher input room, cipher)

end SymmetricKey
