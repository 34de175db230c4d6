import SymmetricKey.BlockCipher.Aria
import SymmetricKey.BlockCipher.Cast128
import SymmetricKey.BlockCipher.Cast256
import SymmetricKey.BlockCipher.Serpent
import SymmetricKey.BlockCipher.Twofish
import SymmetricKey.BlockCipher.Sm4
import SymmetricKey.BlockCipher.Tea

/-!
A block cipher with its key: one of the nine built-in ciphers, or an engine
that somebody else supplies and that this library knows only as a cipher.
-/

namespace SymmetricKey

inductive KeyedCipher (Engine : Type) where
  | aes (cipher : Aes)
  | aria (cipher : Aria)
  | cast128 (cipher : Cast128)
  | cast256 (cipher : Cast256)
  | serpent (cipher : Serpent)
  | twofish (cipher : Twofish)
  | sm4 (cipher : Sm4)
  | tea (cipher : Tea)
  | xtea (cipher : Xtea)
  | engine (cipher : Engine)

namespace KeyedCipher

variable {Engine : Type}

def name : KeyedCipher Engine → String
  | aes _ => "AES"
  | aria _ => "ARIA"
  | cast128 _ => "CAST-128"
  | cast256 _ => "CAST-256"
  | serpent _ => "Serpent"
  | twofish _ => "Twofish"
  | sm4 _ => "SM4"
  | tea _ => "TEA"
  | xtea _ => "XTEA"
  | engine _ => "custom"

/-- Tells the algorithm and nothing about the key. -/
def describe (cipher : KeyedCipher Engine) : String :=
  Description.wrapped "CipherContext" cipher.name

variable [BlockCipher Engine]

def blockSize : KeyedCipher Engine → Nat
  | aes cipher => BlockCipher.blockSize cipher
  | aria cipher => BlockCipher.blockSize cipher
  | cast128 cipher => BlockCipher.blockSize cipher
  | cast256 cipher => BlockCipher.blockSize cipher
  | serpent cipher => BlockCipher.blockSize cipher
  | twofish cipher => BlockCipher.blockSize cipher
  | sm4 cipher => BlockCipher.blockSize cipher
  | tea cipher => BlockCipher.blockSize cipher
  | xtea cipher => BlockCipher.blockSize cipher
  | engine cipher => BlockCipher.blockSize cipher

def cryptBlock (direction : Direction) (keyed : KeyedCipher Engine) (input : Bytes) (room : Nat) :
    Except Error (Block room) × KeyedCipher Engine :=
  -- A built-in cipher does not change by being used.
  match keyed with
  | aes cipher => (BlockPermutation.runExactly direction cipher input room, keyed)
  | aria cipher => (BlockPermutation.runExactly direction cipher input room, keyed)
  | cast128 cipher => (BlockPermutation.runExactly direction cipher input room, keyed)
  | cast256 cipher => (BlockPermutation.runExactly direction cipher input room, keyed)
  | serpent cipher => (BlockPermutation.runExactly direction cipher input room, keyed)
  | twofish cipher => (BlockPermutation.runExactly direction cipher input room, keyed)
  | sm4 cipher => (BlockPermutation.runExactly direction cipher input room, keyed)
  | tea cipher => (BlockPermutation.runExactly direction cipher input room, keyed)
  | xtea cipher => (BlockPermutation.runExactly direction cipher input room, keyed)
  | engine cipher =>
      let (answer, next) := BlockCipher.cryptBlock direction cipher input room
      (answer, engine next)

instance : BlockCipher (KeyedCipher Engine) := ⟨blockSize, cryptBlock⟩

end KeyedCipher

end SymmetricKey
