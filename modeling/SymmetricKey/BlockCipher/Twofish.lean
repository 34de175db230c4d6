import SymmetricKey.BlockCipher
import SymmetricKey.Substitution
import SymmetricKey.Field.Byte
import SymmetricKey.Description

/-!
Twofish. A round passes two words through a key-dependent function, mixes the
two results and adds them to the other two words, one of which is rotated by
one bit before the addition and the other after it.

The key-dependent function puts each byte through a chain of fixed
permutations with key bytes between them, and then through a column of a
matrix. For a fixed key this is one table per byte position.
-/

namespace SymmetricKey.Twofish

abbrev NibbleBox := Vector (BitVec 4) 16

structure NibbleBoxes where
  t0 : NibbleBox
  t1 : NibbleBox
  t2 : NibbleBox
  t3 : NibbleBox

def mixNibbles (high low : BitVec 4) : BitVec 4 × BitVec 4 :=
  (high ^^^ low, high ^^^ low.rotateRight 1 ^^^ (high <<< 3))

/-- Two turns of mixing a byte's nibbles and substituting each by a box of its own. -/
def NibbleBoxes.apply (boxes : NibbleBoxes) (byte : UInt8) : UInt8 :=
  let value := byte.toBitVec
  let (a1, b1) := mixNibbles (value.extractLsb' 4 4) (value.extractLsb' 0 4)
  let (a3, b3) := mixNibbles (boxes.t0.get a1.toFin) (boxes.t1.get b1.toFin)
  UInt8.ofBitVec (boxes.t3.get b3.toFin ++ boxes.t2.get a3.toFin)

def NibbleBoxes.permutation (boxes : NibbleBoxes) : Substitution :=
  Vector.ofFn fun byte : Fin 256 => boxes.apply (UInt8.ofNat byte.val)

def permutation0 : Substitution := NibbleBoxes.permutation
  { t0 := #v[0x8, 0x1, 0x7, 0xD, 0x6, 0xF, 0x3, 0x2, 0x0, 0xB, 0x5, 0x9, 0xE, 0xC, 0xA, 0x4]
    t1 := #v[0xE, 0xC, 0xB, 0x8, 0x1, 0x2, 0x3, 0x5, 0xF, 0x4, 0xA, 0x6, 0x7, 0x0, 0x9, 0xD]
    t2 := #v[0xB, 0xA, 0x5, 0xE, 0x6, 0xD, 0x9, 0x0, 0xC, 0x8, 0xF, 0x3, 0x2, 0x4, 0x7, 0x1]
    t3 := #v[0xD, 0x7, 0xF, 0x4, 0x1, 0x2, 0x6, 0xE, 0x9, 0xB, 0x3, 0x0, 0x8, 0x5, 0xC, 0xA] }

def permutation1 : Substitution := NibbleBoxes.permutation
  { t0 := #v[0x2, 0x8, 0xB, 0xD, 0xF, 0x7, 0x6, 0xE, 0x3, 0x1, 0x9, 0x4, 0x0, 0xA, 0xC, 0x5]
    t1 := #v[0x1, 0xE, 0x2, 0xB, 0x4, 0xC, 0x3, 0x7, 0x6, 0xD, 0xA, 0x5, 0xF, 0x9, 0x0, 0x8]
    t2 := #v[0x4, 0xC, 0x7, 0x5, 0x1, 0x6, 0x9, 0xA, 0x0, 0xE, 0xD, 0x8, 0x2, 0xB, 0x3, 0xF]
    t3 := #v[0xB, 0x9, 0x5, 0x1, 0xC, 0x3, 0xD, 0xE, 0x6, 0x4, 0x7, 0xF, 0x2, 0x0, 0x8, 0xA] }

/-- The four byte positions of a word, the lowest first. -/
inductive Lane where
  | lane0
  | lane1
  | lane2
  | lane3
deriving DecidableEq, Repr

namespace Lane

/-- The chain of a position: the permutation that ends it, and before that, from the last key
byte to the first, those that precede each key byte. -/
def chain : Lane → Substitution × List Substitution
  | lane0 => (permutation1, [permutation0, permutation0, permutation1, permutation1])
  | lane1 => (permutation0, [permutation0, permutation1, permutation1, permutation0])
  | lane2 => (permutation1, [permutation1, permutation0, permutation0, permutation0])
  | lane3 => (permutation0, [permutation1, permutation1, permutation0, permutation1])

/-- Puts a byte through the chain; the key bytes come last first. -/
def pass (lane : Lane) (keys : List UInt8) (byte : UInt8) : UInt8 :=
  lane.chain.1.apply
    ((lane.chain.2.zip keys).foldr (fun (box, key) value => box.apply value ^^^ key) byte)

/-- The modulus `x^8 + x^6 + x^5 + x^3 + 1` without its leading term. -/
def modulus : UInt8 := 0x69

/-- The byte times the matrix column of its position. -/
def column (lane : Lane) (byte : UInt8) : UInt32 :=
  let once := byte
  let middle := Field.Byte.mul modulus byte 0x5B
  let large := Field.Byte.mul modulus byte 0xEF
  match lane with
  | lane0 => LittleEndian.word once middle large large
  | lane1 => LittleEndian.word large large middle once
  | lane2 => LittleEndian.word middle large once large
  | lane3 => LittleEndian.word middle once large middle

end Lane

/-- One key byte per chain link for each of the four positions. -/
structure KeyBytes where
  lane0 : List UInt8
  lane1 : List UInt8
  lane2 : List UInt8
  lane3 : List UInt8

def mixWord (keys : KeyBytes) (word : UInt32) : UInt32 :=
  Lane.lane0.column (Lane.lane0.pass keys.lane0 word.toUInt8) ^^^
    Lane.lane1.column (Lane.lane1.pass keys.lane1 (word >>> 8).toUInt8) ^^^
    Lane.lane2.column (Lane.lane2.pass keys.lane2 (word >>> 16).toUInt8) ^^^
    Lane.lane3.column (Lane.lane3.pass keys.lane3 (word >>> 24).toUInt8)

abbrev WordTable := Vector UInt32 256

structure Tables where
  table0 : WordTable
  table1 : WordTable
  table2 : WordTable
  table3 : WordTable

namespace Tables

def ofKeyBytes (keys : KeyBytes) : Tables :=
  let table (lane : Lane) (laneKeys : List UInt8) : WordTable :=
    Vector.ofFn fun byte : Fin 256 => lane.column (lane.pass laneKeys (UInt8.ofNat byte.val))
  { table0 := table .lane0 keys.lane0
    table1 := table .lane1 keys.lane1
    table2 := table .lane2 keys.lane2
    table3 := table .lane3 keys.lane3 }

def apply (tables : Tables) (word : UInt32) : UInt32 :=
  entry tables.table0 word.toUInt8 ^^^ entry tables.table1 (word >>> 8).toUInt8 ^^^
    entry tables.table2 (word >>> 16).toUInt8 ^^^ entry tables.table3 (word >>> 24).toUInt8

/-- The two sums that a round adds, from the two words that it reads and its two keys. -/
def sums (tables : Tables) (read0 read1 key0 key1 : UInt32) : UInt32 × UInt32 :=
  let right := tables.apply (rotateLeft32 read1 8)
  let left := tables.apply read0 + right
  (left + key0, left + right + key1)

/-- Changes the last two words by the first two, then the first two by the last two. -/
def forward (tables : Tables) (words keys : Quad) : Quad :=
  let sums0 := tables.sums words.w0 words.w1 keys.w0 keys.w1
  let w2 := rotateRight32 (words.w2 ^^^ sums0.1) 1
  let w3 := rotateLeft32 words.w3 1 ^^^ sums0.2
  let sums1 := tables.sums w2 w3 keys.w2 keys.w3
  ⟨rotateRight32 (words.w0 ^^^ sums1.1) 1, rotateLeft32 words.w1 1 ^^^ sums1.2, w2, w3⟩

def backward (tables : Tables) (keys words : Quad) : Quad :=
  let sums1 := tables.sums words.w2 words.w3 keys.w2 keys.w3
  let w0 := rotateLeft32 words.w0 1 ^^^ sums1.1
  let w1 := rotateRight32 (words.w1 ^^^ sums1.2) 1
  let sums0 := tables.sums w0 w1 keys.w0 keys.w1
  ⟨w0, w1, rotateLeft32 words.w2 1 ^^^ sums0.1, rotateRight32 (words.w3 ^^^ sums0.2) 1⟩

end Tables

end SymmetricKey.Twofish

namespace SymmetricKey

/-- Each element of `roundKeys` serves two rounds. -/
structure Twofish where
  inputKey : Quad
  outputKey : Quad
  roundKeys : List Quad
  tables : Twofish.Tables

namespace Twofish

def exchange (words : Quad) : Quad := ⟨words.w2, words.w3, words.w0, words.w1⟩

def encrypt (cipher : Twofish) (block : Block 16) : Block 16 :=
  let words := cipher.roundKeys.foldl cipher.tables.forward
    (Quad.ofLittleEndian block ^^^ cipher.inputKey)
  (exchange words ^^^ cipher.outputKey).toLittleEndian

def decrypt (cipher : Twofish) (block : Block 16) : Block 16 :=
  let words := cipher.roundKeys.foldr cipher.tables.backward
    (exchange (Quad.ofLittleEndian block ^^^ cipher.outputKey))
  (words ^^^ cipher.inputKey).toLittleEndian

/-- The modulus `x^8 + x^6 + x^3 + x^2 + 1` without its leading term. -/
def codeModulus : UInt8 := 0x4D

/-- Rows of the error-correcting code that condenses eight key bytes to four. -/
def codeRows : Vector (List UInt8) 4 := #v[
  [0x01, 0xA4, 0x55, 0x87, 0x5A, 0x58, 0xDB, 0x9E],
  [0xA4, 0x56, 0x82, 0xF3, 0x1E, 0xC6, 0x68, 0xE5],
  [0x02, 0xA1, 0xFC, 0xC1, 0x47, 0xAE, 0x3D, 0x19],
  [0xA4, 0x55, 0x87, 0x5A, 0x58, 0xDB, 0x9E, 0x03]]

def codeByte (row : List UInt8) (bytes : Bytes) : UInt8 :=
  (List.zipWith (Field.Byte.mul codeModulus) row bytes).foldl (· ^^^ ·) 0

/-- The bytes at four successive offsets of each key part. -/
def keyBytesAt (offset : Nat) (parts : List Bytes) : KeyBytes :=
  { lane0 := parts.map fun part => part.getD offset 0
    lane1 := parts.map fun part => part.getD (offset + 1) 0
    lane2 := parts.map fun part => part.getD (offset + 2) 0
    lane3 := parts.map fun part => part.getD (offset + 3) 0 }

/-- Both the whitening keys and the round keys come in pairs. -/
def keyPair (even odd : KeyBytes) (index : Nat) : List UInt32 :=
  let step : UInt32 := 0x01010101
  let left := mixWord even (step * UInt32.ofNat (2 * index))
  let right := rotateLeft32 (mixWord odd (step * UInt32.ofNat (2 * index + 1))) 8
  [left + right, rotateLeft32 (left + right * 2) 9]

def quads : List UInt32 → List Quad
  | w0 :: w1 :: w2 :: w3 :: words => ⟨w0, w1, w2, w3⟩ :: quads words
  | _ => []

/-- The tables read the condensed key parts from the last to the first, the subkeys read the key
parts themselves from the first to the last. -/
def ofKey (key : Bytes) : Twofish :=
  let parts := Bytes.segments 8 key
  let even := keyBytesAt 0 parts
  let odd := keyBytesAt 4 parts
  let condensed := parts.map fun part => codeRows.toList.map fun row => codeByte row part
  let keys := quads ((List.range 20).flatMap (keyPair even odd))
  { inputKey := keys.headD Quad.zero
    outputKey := (keys.drop 1).headD Quad.zero
    roundKeys := keys.drop 2
    tables := Tables.ofKeyBytes (keyBytesAt 0 condensed.reverse) }

def expand (key : Bytes) : Except Error Twofish :=
  if key.length = 16 ∨ key.length = 24 ∨ key.length = 32 then .ok (ofKey key)
  else .error .invalidKeyLength

def describe (_cipher : Twofish) : String := Description.partly "Twofish" []

instance : BlockPermutation Twofish := ⟨16, encrypt, decrypt⟩

end Twofish

end SymmetricKey
