import SymmetricKey.Confidentiality.Segments

/-!
Cipher feedback mode. The front of the encrypted register is added to a
segment, and the enciphered segment moves into the register from behind. Both
directions use the cipher forwards.
-/

namespace SymmetricKey.Cfb

/-- Moves the register up by `size` bytes and writes the segment at the freed end. A shorter
segment leaves the last bytes of the register where they are. -/
def shiftIn (size : Nat) (register segment : Bytes) : Bytes :=
  register.drop size ++ Bytes.overlay (register.drop (register.length - size)) segment

def step {C : Type} [BlockCipher C] (direction : Direction) (size : Nat) : SegmentStep C :=
  fun cipher register segment =>
    match BlockCipher.encryptBlock cipher register register.length with
    | (.error cause, after) => (.error cause, after)
    | (.ok key, after) =>
        let piece := segment.xor key.toList
        let enciphered :=
          match direction with
          | .encrypt => piece
          | .decrypt => segment
        (.ok (piece, shiftIn size register enciphered), after)

def crypt {C : Type} [BlockCipher C] (direction : Direction) (cipher : C) (bits : Nat)
    (iv input : Bytes) (room : Nat) : Progress C :=
  -- `bits` is the length of a segment.
  match checkRegister cipher iv input room with
  | .error cause => Progress.refused cause iv cipher
  | .ok blockSize =>
      if bits % 8 ≠ 0 ∨ bits = 0 ∨ blockSize < bits / 8 then
        Progress.refused .invalidParameter iv cipher
      else (step direction (bits / 8)).run cipher iv (input.segments (bits / 8))

def encrypt {C : Type} [BlockCipher C] (cipher : C) (bits : Nat) (iv input : Bytes)
    (room : Nat) : Progress C :=
  crypt .encrypt cipher bits iv input room

def decrypt {C : Type} [BlockCipher C] (cipher : C) (bits : Nat) (iv input : Bytes)
    (room : Nat) : Progress C :=
  crypt .decrypt cipher bits iv input room

end SymmetricKey.Cfb
