import SymmetricKey.Error
import SymmetricKey.Bytes

/-!
Keystreams. A generator gives one byte after the other, and a text is
enciphered and deciphered alike, by adding the keystream to it. Cutting a text
into pieces does not change what happens to it, since the generator goes on
where it stopped.
-/

namespace SymmetricKey

class Keystream (G : Type) where
  next : G → UInt8 × G

namespace Keystream

variable {G : Type} [Keystream G]

def addTo (generator : G) : Bytes → Bytes × G
  | [] => ([], generator)
  | byte :: text =>
      let (key, after) := next generator
      let (rest, last) := addTo after text
      ((byte ^^^ key) :: rest, last)

def apply (generator : G) (text : Bytes) (room : Nat) : Except Error Bytes × G :=
  -- Refuses a text that does not fill the room, and then uses up no keystream.
  if text.length = room then
    let (result, after) := addTo generator text
    (.ok result, after)
  else (.error .invalidLength, generator)

end Keystream

end SymmetricKey
