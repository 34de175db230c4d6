import SymmetricKey.Block

/-!
Tables with one entry per byte value. A byte is always a valid index, so a
look-up cannot fail.
-/

namespace SymmetricKey

abbrev Substitution := Vector UInt8 256

def entry {α : Type} (table : Vector α 256) (index : UInt8) : α := table.get index.toFin

namespace Substitution

def apply (box : Substitution) (byte : UInt8) : UInt8 := entry box byte

/-- The position at which each byte stands. For a permutation this undoes `apply`. -/
def inverse (box : Substitution) : Substitution :=
  let order := box.toList
  Vector.ofFn fun byte : Fin 256 => UInt8.ofNat (order.idxOf (UInt8.ofNat byte.val))

def applyWord (box : Substitution) (word : UInt32) : UInt32 :=
  BigEndian.word (box.apply (word >>> 24).toUInt8) (box.apply (word >>> 16).toUInt8)
    (box.apply (word >>> 8).toUInt8) (box.apply word.toUInt8)

end Substitution

end SymmetricKey
