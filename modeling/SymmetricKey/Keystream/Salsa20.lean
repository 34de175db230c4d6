import SymmetricKey.Keystream
import SymmetricKey.Endian
import SymmetricKey.Description

/-!
Salsa20. The core stirs sixteen words in double rounds and adds what it began
with. The keystream is the core of a block that holds the key, the nonce and a
block number, for one block number after the other.
-/

namespace SymmetricKey

abbrev SalsaBlock := Vector UInt32 16

namespace SalsaBlock

def ofWords (words : List UInt32) : SalsaBlock :=
  Vector.ofFn fun index => words.getD index.val 0

def ofBytes (bytes : Bytes) : SalsaBlock := ofWords (LittleEndian.words bytes)

def toBytes (block : SalsaBlock) : Bytes := block.toList.flatMap LittleEndian.bytes32

def put (block : SalsaBlock) (target : Fin 16) (word : UInt32) : SalsaBlock :=
  block.set target.val word target.isLt

/-- Adds the rotated sum of two words to a third one. -/
def stir (target left right : Fin 16) (amount : UInt32) (block : SalsaBlock) : SalsaBlock :=
  put block target
    (block.get target ^^^ rotateLeft32 (block.get left + block.get right) amount)

def quarterRound (a b c d : Fin 16) (block : SalsaBlock) : SalsaBlock :=
  let block := stir b a d 7 block
  let block := stir c b a 9 block
  let block := stir d c b 13 block
  stir a d c 18 block

def columnRound (block : SalsaBlock) : SalsaBlock :=
  let block := quarterRound 0 4 8 12 block
  let block := quarterRound 5 9 13 1 block
  let block := quarterRound 10 14 2 6 block
  quarterRound 15 3 7 11 block

def rowRound (block : SalsaBlock) : SalsaBlock :=
  let block := quarterRound 0 1 2 3 block
  let block := quarterRound 5 6 7 4 block
  let block := quarterRound 10 11 8 9 block
  quarterRound 15 12 13 14 block

def doubleRound (block : SalsaBlock) : SalsaBlock := rowRound (columnRound block)

def core (rounds : Nat) (block : SalsaBlock) : SalsaBlock :=
  -- Rounds come in pairs; an odd last one is left out.
  Vector.zipWith (· + ·) (Nat.repeat doubleRound (rounds / 2) block) block

def number (block : SalsaBlock) : UInt64 :=
  ((block.get 9).toUInt64 <<< 32) ||| (block.get 8).toUInt64

def setNumber (block : SalsaBlock) (number : UInt64) : SalsaBlock :=
  put (put block 8 number.toUInt32) 9 (number >>> 32).toUInt32

end SalsaBlock

/-- The block for the next part of the keystream, and what is left of the current part. -/
structure Salsa20 where
  block : SalsaBlock
  unused : Bytes
deriving DecidableEq, Repr

namespace Salsa20

def partSize : Nat := 64

def rounds : Nat := 20

def ofBlock (block : SalsaBlock) : Salsa20 := { block, unused := [] }

def next (generator : Salsa20) : UInt8 × Salsa20 :=
  match generator.unused with
  | byte :: unused => (byte, { generator with unused })
  | [] =>
      let part := (generator.block.core rounds).toBytes
      (part.headD 0,
        { block := generator.block.setNumber (generator.block.number + 1), unused := part.tail })

instance : Keystream Salsa20 := ⟨next⟩

def startBlock (constants : List UInt32) (keyFront keyBack nonce : Bytes) : SalsaBlock :=
  -- Four constant words, on the diagonal, tell the two key sizes apart.
  let constant (index : Nat) := constants.getD index 0
  SalsaBlock.ofWords
    (constant 0 :: LittleEndian.words keyFront ++
      constant 1 :: LittleEndian.words nonce ++ [0, 0] ++
      constant 2 :: LittleEndian.words keyBack ++ [constant 3])

/-- The words of "expand 32-byte k". -/
def longKeyConstants : List UInt32 := [0x61707865, 0x3320646E, 0x79622D32, 0x6B206574]

/-- The words of "expand 16-byte k". -/
def shortKeyConstants : List UInt32 := [0x61707865, 0x3120646E, 0x79622D36, 0x6B206574]

/-- A short key is used twice. -/
def ofKey (key nonce : Bytes) : Except Error Salsa20 :=
  if key.length ≠ 16 ∧ key.length ≠ 32 then .error .invalidKeyLength
  else if nonce.length ≠ 8 then .error .invalidParameter
  else if key.length = 16 then .ok (ofBlock (startBlock shortKeyConstants key key nonce))
  else .ok (ofBlock (startBlock longKeyConstants (key.take 16) (key.drop 16) nonce))

def describe (_generator : Salsa20) : String := Description.partly "Salsa20" []

end Salsa20

end SymmetricKey
