import SymmetricKey.Log
import SymmetricKey.Catalogue.KeySizes
import SymmetricKey.Catalogue.Flags
import SymmetricKey.BlockCipher.Keyed
import SymmetricKey.Keystream.Keyed

/-!
Entries of the catalogue. An entry describes an algorithm and turns a key into
a cipher; the length of the key is checked first. Log records name the
algorithm and the length of the key only.
-/

namespace SymmetricKey

inductive CipherKind where
  | block
  | stream
deriving DecidableEq, Repr

def CipherKind.name : CipherKind → String
  | block => "Block"
  | stream => "Stream"

def keyBits (key : Bytes) : String := toString (key.length * 8) ++ "-bit key"

structure CipherAlgorithm (Engine : Type) where
  name : String
  /-- The registered object identifier, or no bytes where there is none. -/
  oid : Bytes
  blockSize : Nat
  keySizes : KeySizes
  flags : CipherFlags
  expand : Bytes → Except Error (KeyedCipher Engine)

namespace CipherAlgorithm

variable {Engine : Type}

def kind (_algorithm : CipherAlgorithm Engine) : CipherKind := .block

def isWideBlock (algorithm : CipherAlgorithm Engine) : Bool := algorithm.flags.wideBlock

def withKey (algorithm : CipherAlgorithm Engine) (key : Bytes) : Attempt (KeyedCipher Engine) := do
  if algorithm.keySizes.contains key.length then
    Attempt.record .debug (algorithm.name ++ " context initialized (" ++ keyBits key ++ ")")
    Attempt.ofExcept (algorithm.expand key)
  else throw .invalidKeyLength

def describe (algorithm : CipherAlgorithm Engine) : String :=
  Description.full "CipherAlgo"
    [("name", Description.quoted algorithm.name), ("block_size", toString algorithm.blockSize),
      ("key_sizes", algorithm.keySizes.describe), ("flags", algorithm.flags.describe)]

end CipherAlgorithm

structure StreamAlgorithm where
  name : String
  keySizes : KeySizes
  ivSizes : KeySizes
  setUp : Bytes → Bytes → Except Error StreamCipher

namespace StreamAlgorithm

def kind (_algorithm : StreamAlgorithm) : CipherKind := .stream

def withKey (algorithm : StreamAlgorithm) (key iv : Bytes) : Attempt StreamCipher := do
  -- The key is looked at before the initialization vector.
  if !algorithm.keySizes.contains key.length then throw .invalidKeyLength
  if !algorithm.ivSizes.contains iv.length then throw .invalidParameter
  Attempt.record .debug (algorithm.name ++ " keystream initialized (" ++ keyBits key ++ ")")
  Attempt.ofExcept (algorithm.setUp key iv)

def describe (algorithm : StreamAlgorithm) : String :=
  Description.full "StreamAlgo"
    [("name", Description.quoted algorithm.name), ("kind", algorithm.kind.name),
      ("key_sizes", algorithm.keySizes.describe), ("iv_sizes", algorithm.ivSizes.describe)]

end StreamAlgorithm

end SymmetricKey
