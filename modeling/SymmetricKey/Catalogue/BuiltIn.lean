import SymmetricKey.Catalogue.Algorithm
import SymmetricKey.Identifiers
import SymmetricKey.Catalogue.Name
import SymmetricKey.Digest

/-!
The built-in algorithms in the order in which they are listed, and the search
for one of them by name or by object identifier. No algorithm is found by an
empty identifier, although some entries have no identifier.
-/

namespace SymmetricKey

namespace CipherAlgorithm

variable {Engine : Type}

def wide : CipherFlags := { CipherFlags.none with wideBlock := true }

def aes : CipherAlgorithm Engine where
  name := "AES"
  oid := []
  blockSize := 16
  keySizes := .fixed [16, 24, 32]
  flags := wide
  expand key := (Aes.expand key).map .aes

def aria : CipherAlgorithm Engine where
  name := "ARIA"
  oid := []
  blockSize := 16
  keySizes := .fixed [16, 24, 32]
  flags := wide
  expand key := (Aria.expand key).map .aria

def cast128 : CipherAlgorithm Engine where
  name := "CAST-128"
  oid := Identifiers.cast128
  blockSize := 8
  keySizes := .range 5 16 1
  flags := { CipherFlags.none with variableKey := true }
  expand key := (Cast128.expand key).map .cast128

def cast256 : CipherAlgorithm Engine where
  name := "CAST-256"
  oid := []
  blockSize := 16
  keySizes := .range 16 32 4
  flags := { wide with variableKey := true }
  expand key := (Cast256.expand key).map .cast256

def serpent : CipherAlgorithm Engine where
  name := "Serpent"
  oid := []
  blockSize := 16
  keySizes := .fixed [16, 24, 32]
  flags := wide
  expand key := (Serpent.expand key).map .serpent

def twofish : CipherAlgorithm Engine where
  name := "Twofish"
  oid := []
  blockSize := 16
  keySizes := .fixed [16, 24, 32]
  flags := wide
  expand key := (Twofish.expand key).map .twofish

def sm4 : CipherAlgorithm Engine where
  name := "SM4"
  oid := Identifiers.sm4Ecb
  blockSize := 16
  keySizes := .fixed [16]
  flags := wide
  expand key := (Sm4.expand key).map .sm4

def tea : CipherAlgorithm Engine where
  name := "TEA"
  oid := []
  blockSize := 8
  keySizes := .fixed [16]
  flags := CipherFlags.none
  expand key := (Tea.expand key).map .tea

def xtea : CipherAlgorithm Engine where
  name := "XTEA"
  oid := []
  blockSize := 8
  keySizes := .fixed [16]
  flags := CipherFlags.none
  expand key := (Xtea.expand key).map .xtea

def builtIn : List (CipherAlgorithm Engine) :=
  [aes, aria, cast128, cast256, serpent, twofish, sm4, tea, xtea]

def find? (name : String) : Option (CipherAlgorithm Engine) :=
  builtIn.find? fun algorithm => Name.same algorithm.name name

def findByOid? (oid : Bytes) : Option (CipherAlgorithm Engine) :=
  if oid.isEmpty then none else builtIn.find? fun algorithm => algorithm.oid == oid

/-- No built-in cipher has longer blocks. -/
def maxBlockSize : Nat := 16

end CipherAlgorithm

namespace StreamAlgorithm

def salsa20 : StreamAlgorithm where
  name := "Salsa20"
  keySizes := .fixed [16, 32]
  ivSizes := .fixed [8]
  setUp key iv := (Salsa20.ofKey key iv).map .salsa20

def trivium : StreamAlgorithm where
  name := "Trivium"
  keySizes := .fixed [Trivium.keySize]
  ivSizes := .range 0 Trivium.maxIvSize 1
  setUp key iv := (Trivium.ofKey key iv).map .trivium

def zuc : StreamAlgorithm where
  name := "ZUC-128"
  keySizes := .fixed [16]
  ivSizes := .fixed [16]
  setUp key iv := (Zuc.ofKey key iv).map .zuc

def builtIn : List StreamAlgorithm := [salsa20, trivium, zuc]

def find? (name : String) : Option StreamAlgorithm :=
  builtIn.find? fun algorithm => Name.same algorithm.name name

end StreamAlgorithm

namespace Hash

def find? (name : String) : Option Hash := all.find? fun hash => Name.same hash.name name

def findByOid? (oid : Bytes) : Option Hash :=
  if oid.isEmpty then none else all.find? fun hash => hash.oid == oid

end Hash

end SymmetricKey
