/-!
Byte strings. Lengths that do not match are never an error at this level: each
operation says how far it reaches, and what lies beyond stays as it was.
-/

namespace SymmetricKey

abbrev Bytes := List UInt8

-- The library's instance under a name: a numeral of `Fin 16` refers to it, where each definition
-- with such a numeral would otherwise hold an auxiliary proof of its own.
instance sixteen_ne_zero : @NeZero Nat Zero.ofOfNat0 16 := Nat.instNeZeroSucc

namespace Bytes

def zeros (count : Nat) : Bytes := List.replicate count 0

def cleared (target : Bytes) : Bytes := target.map fun _ => 0

-- The common length decides.
def xor (left right : Bytes) : Bytes := List.zipWith (· ^^^ ·) left right

/-- XORs the mask over the front of the target. -/
def mask : Bytes → Bytes → Bytes
  | byte :: target, key :: keys => (byte ^^^ key) :: mask target keys
  | target, _ => target

/-- Replaces the front of the buffer. A caller's buffer keeps what a call did not reach. -/
def overlay (buffer front : Bytes) : Bytes :=
  front.take buffer.length ++ buffer.drop front.length

/-- The union of all differing bits; every position is visited. -/
def differenceBits : Bytes → Bytes → UInt8
  | left :: lefts, right :: rights => (left ^^^ right) ||| differenceBits lefts rights
  | _, _ => 0

def agree (left right : Bytes) : Bool :=
  left.length == right.length && differenceBits left right == 0

/-- The string cut into pieces of `size` bytes; only the last may be shorter. -/
def segments (size : Nat) (bytes : Bytes) : List Bytes :=
  if size = 0 ∨ bytes = [] then []
  else bytes.take size :: segments size (bytes.drop size)
termination_by bytes.length
decreasing_by
  have positive : 0 < bytes.length := List.length_pos_iff.mpr (by simp_all)
  simp only [List.length_drop]
  omega

/-- The complete blocks of `size` bytes, and the shorter rest. -/
def completeBlocks (size : Nat) (bytes : Bytes) : List Bytes × Bytes :=
  -- Only the byte that closes a block is looked at, so a long string is not measured again.
  if size = 0 then ([], bytes)
  else
    match _closing : bytes.drop (size - 1) with
    | [] => ([], bytes)
    | _ :: _ =>
        let tail := completeBlocks size (bytes.drop size)
        (bytes.take size :: tail.1, tail.2)
termination_by bytes.length
decreasing_by
  have reach := congrArg List.length _closing
  simp only [List.length_drop, List.length_cons] at reach ⊢
  omega

end Bytes

end SymmetricKey
