import SymmetricKey.Block

/-!
The compression function of SM3. Sixteen message words are extended to 68;
round `j` of 64 takes word `j` and its sum with word `j + 4`. Rounds before the
sixteenth use other Boolean functions than the later ones.
-/

namespace SymmetricKey.Sm3

def start : Octet :=
  ⟨0x7380166F, 0x4914B2B9, 0x172442D7, 0xDA8A0600, 0xA96F30BC, 0x163138AA, 0xE38DEE4D, 0xB0FB0E4E⟩

def early (index : Nat) : Bool := index < 16

def constant (index : Nat) : UInt32 :=
  rotateLeft32 (if early index then 0x79CC4519 else 0x7A879D8A) (UInt32.ofNat (index % 32))

def permute0 (word : UInt32) : UInt32 := word ^^^ rotateLeft32 word 9 ^^^ rotateLeft32 word 17

def permute1 (word : UInt32) : UInt32 := word ^^^ rotateLeft32 word 15 ^^^ rotateLeft32 word 23

/-- The first `count` words of the extension; the window holds the next sixteen. -/
def schedule : Nat → List UInt32 → List UInt32
  | count + 1, word :: window =>
      let next := permute1 (word ^^^ window.getD 6 0 ^^^ rotateLeft32 (window.getD 12 0) 15) ^^^
        rotateLeft32 (window.getD 2 0) 7 ^^^ window.getD 9 0
      word :: schedule count (window ++ [next])
  | _, _ => []

def mixLeft (index : Nat) (x y z : UInt32) : UInt32 :=
  if early index then x ^^^ y ^^^ z else (x &&& y) ||| (x &&& z) ||| (y &&& z)

def mixRight (index : Nat) (x y z : UInt32) : UInt32 :=
  if early index then x ^^^ y ^^^ z else (x &&& y) ||| (~~~x &&& z)

/-- One round with a message word and the word four places after it. -/
def round (state : Octet) (index : Nat) (word later : UInt32) : Octet :=
  let turned := rotateLeft32 state.a 12
  let sum := rotateLeft32 (turned + state.e + constant index) 7
  let left := mixLeft index state.a state.b state.c + state.d + (sum ^^^ turned) + (word ^^^ later)
  let right := mixRight index state.e state.f state.g + state.h + sum + word
  ⟨left, state.a, rotateLeft32 state.b 9, state.c,
    permute0 right, state.e, rotateLeft32 state.f 19, state.g⟩

def compress (chaining : Octet) (block : Bytes) : Octet :=
  let words := schedule 68 (BigEndian.words block)
  let steps := (List.range 64).zip (words.zip (words.drop 4))
  Octet.zipWith (· ^^^ ·) chaining
    (steps.foldl (fun state step => round state step.1 step.2.1 step.2.2) chaining)

end SymmetricKey.Sm3
