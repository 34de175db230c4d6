import SymmetricKey.BlockCipher.CastBoxes

/-!
The round function of the CAST ciphers, in its three forms. Addition,
subtraction and exclusive or change places from form to form.
-/

namespace SymmetricKey.Cast

inductive Form where
  | first
  | second
  | third
deriving DecidableEq, Repr

/-- A form with a word that masks the data and a number of bits that rotates it. -/
structure RoundKey where
  form : Form
  mask : UInt32
  rotation : UInt32
deriving DecidableEq, Repr

namespace Form

def blend : Form → UInt32 → UInt32 → UInt32
  | first, mask, data => mask + data
  | second, mask, data => mask ^^^ data
  | third, mask, data => mask - data

def combine : Form → UInt32 → UInt32 → UInt32 → UInt32 → UInt32
  | first, a, b, c, d => ((a ^^^ b) - c) + d
  | second, a, b, c, d => ((a - b) + c) ^^^ d
  | third, a, b, c, d => ((a + b) ^^^ c) - d

end Form

def RoundKey.ofWords (form : Form) (mask rotation : UInt32) : RoundKey :=
  -- Only the low five bits of a word count as a rotation.
  { form, mask, rotation := rotation &&& 0x1F }

def RoundKey.apply (key : RoundKey) (data : UInt32) : UInt32 :=
  let index := rotateLeft32 (key.form.blend key.mask data) key.rotation
  key.form.combine (entry box1 (index >>> 24).toUInt8) (entry box2 (index >>> 16).toUInt8)
    (entry box3 (index >>> 8).toUInt8) (entry box4 index.toUInt8)

end SymmetricKey.Cast
