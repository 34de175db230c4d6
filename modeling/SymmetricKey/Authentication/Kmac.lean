import SymmetricKey.Error
import SymmetricKey.Description
import SymmetricKey.Identifiers
import SymmetricKey.Sponge
import SymmetricKey.Authentication.TagSize

/-!
KMAC. A sponge absorbs a function name with a customization string, the key,
the message and the length of the tag. Name and key fill whole blocks, and the
length is part of what is absorbed, so a short tag is not the front of a
longer one.
-/

namespace SymmetricKey

inductive KmacStrength where
  | bits128
  | bits256
deriving DecidableEq, Repr

namespace KmacStrength

def ofBits? (bits : Nat) : Option KmacStrength :=
  if bits = 128 then some bits128 else if bits = 256 then some bits256 else none

def bits : KmacStrength → Nat
  | bits128 => 128
  | bits256 => 256

/-- The sponge leaves twice the strength untouched. -/
def rate : KmacStrength → Nat
  | bits128 => 168
  | bits256 => 136

def oid : KmacStrength → Bytes
  | bits128 => Identifiers.kmac128
  | bits256 => Identifiers.kmac256

end KmacStrength

structure Kmac where
  strength : KmacStrength
  keyed : Sponge
  running : Sponge
deriving DecidableEq, Repr

namespace Kmac

def functionName : Bytes := [0x4B, 0x4D, 0x41, 0x43]

/-- The byte that closes what a named function absorbs. -/
def domain : UInt8 := 0x04

-- A longer tag would have a length in bits of more than 64 bits.
def maxSize : Nat := ((1 <<< 64) - 1) / 8

def ofStrength (strength : KmacStrength) (key custom : Bytes) : Kmac :=
  let named := (Sponge.empty strength.rate).absorbPadded [functionName, custom]
  let keyed := named.absorbPadded [key]
  { strength, keyed, running := keyed }

def ofKey (bits : Nat) (key custom : Bytes) : Except Error Kmac :=
  match KmacStrength.ofBits? bits with
  | none => .error .invalidParameter
  | some strength => .ok (ofStrength strength key custom)

/-- The usual length of a tag, twice the strength. -/
def size (context : Kmac) : Nat := context.strength.bits / 4

def reset (context : Kmac) : Kmac := { context with running := context.keyed }

def absorb (context : Kmac) (data : Bytes) : Kmac :=
  { context with running := context.running.absorb data }

def tag (context : Kmac) (length : Nat) : Bytes :=
  (context.running.absorb (Framing.rightEncode (UInt64.ofNat length * 8))).finish domain length

def finish (context : Kmac) (length : Nat) : Except Error Bytes × Kmac :=
  match checkTagSize length 1 maxSize with
  | .error cause => (.error cause, context)
  | .ok () => (.ok (context.tag length), context.reset)

def compute (bits : Nat) (key data custom : Bytes) (length : Nat) : Except Error Bytes := do
  let context ← ofKey bits key custom
  ((context.absorb data).finish length).1

def describe (context : Kmac) : String :=
  Description.partly "Kmac" [("strength", toString context.strength.bits)]

end Kmac

end SymmetricKey
