import SymmetricKey.Confidentiality.Segments

/-!
Counter mode. The encrypted counter block is added to the text, and the counter
moves on by one for each block. Only the lowest bits of the block count; they
start again at zero without touching the bits above them.
-/

namespace SymmetricKey.Ctr

/-- Adds one to the lowest `width` bytes, the lowest byte first. -/
def incrementLow : Nat → Bytes → Bytes
  | 0, bytes => bytes
  | _, [] => []
  | width + 1, byte :: bytes =>
      if byte = 0xFF then 0 :: incrementLow width bytes else (byte + 1) :: bytes

def increment (width : Nat) (counter : Bytes) : Bytes :=
  -- The lowest byte of a counter block is its last one.
  (incrementLow width counter.reverse).reverse

def step {C : Type} [BlockCipher C] (width : Nat) : SegmentStep C := fun cipher counter segment =>
  match BlockCipher.encryptBlock cipher counter counter.length with
  | (.error cause, after) => (.error cause, after)
  | (.ok key, after) => (.ok (segment.xor key.toList, increment width counter), after)

def encrypt {C : Type} [BlockCipher C] (cipher : C) (bits : Nat) (counter input : Bytes)
    (room : Nat) : Progress C :=
  -- `bits` is the width of the counter field. Deciphering is the same.
  match checkRegister cipher counter input room with
  | .error cause => Progress.refused cause counter cipher
  | .ok size =>
      if bits % 8 ≠ 0 ∨ size < bits / 8 then Progress.refused .invalidParameter counter cipher
      else (step (bits / 8)).run cipher counter (input.segments size)

def decrypt {C : Type} [BlockCipher C] (cipher : C) (bits : Nat) (counter input : Bytes)
    (room : Nat) : Progress C :=
  encrypt cipher bits counter input room

end SymmetricKey.Ctr
