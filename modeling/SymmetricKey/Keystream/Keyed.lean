import SymmetricKey.Keystream.Salsa20
import SymmetricKey.Keystream.Trivium
import SymmetricKey.Keystream.Zuc

/-!
A stream cipher with its key and initialization vector.
-/

namespace SymmetricKey

inductive StreamCipher where
  | salsa20 (generator : Salsa20)
  | trivium (generator : Trivium)
  | zuc (generator : Zuc)

namespace StreamCipher

def next : StreamCipher → UInt8 × StreamCipher
  | salsa20 generator =>
      let (byte, after) := generator.next
      (byte, salsa20 after)
  | trivium generator =>
      let (byte, after) := generator.next
      (byte, trivium after)
  | zuc generator =>
      let (byte, after) := generator.next
      (byte, zuc after)

instance : Keystream StreamCipher := ⟨next⟩

def describe : StreamCipher → String
  | salsa20 generator => Description.wrapped "Salsa20" generator.describe
  | trivium generator => Description.wrapped "Trivium" generator.describe
  | zuc generator => Description.wrapped "Zuc" generator.describe

end StreamCipher

end SymmetricKey
