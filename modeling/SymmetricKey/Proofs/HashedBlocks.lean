import SymmetricKey.Proofs.HornerHash

/-!
The blocks that reach the universal hash. The steps of the hash are run with the list
of its blocks in place of their sum; under every key the sum is the one over that list.
From the list the strings are known again: the last block tells their lengths, and so
which zeros belong to them.
-/

namespace SymmetricKey.Ghash

/-- The blocks so far, and the bytes that wait for a whole one. -/
structure Feed where
  blocks : List Bytes
  pending : Bytes
deriving DecidableEq, Repr

namespace Feed

def empty : Feed := { blocks := [], pending := [] }

def absorb (feed : Feed) (data : Bytes) : Feed :=
  let (blocks, rest) := Bytes.completeBlocks 16 (feed.pending ++ data)
  { blocks := feed.blocks ++ blocks, pending := rest }

def pad (feed : Feed) : Feed :=
  if feed.pending.isEmpty then feed
  else
    { blocks := feed.blocks ++ [feed.pending ++ Bytes.zeros (16 - feed.pending.length)]
      pending := [] }

def close (feed : Feed) (first second : UInt64) : Feed :=
  let whole := pad feed
  { whole with blocks := whole.blocks ++ [lengthBlock first second] }

def ofText (aad text : List Bytes) : Feed :=
  close (text.foldl absorb (pad (aad.foldl absorb empty)))
    (UInt64.ofNat aad.flatten.length) (UInt64.ofNat text.flatten.length)

/-- A vector of twelve bytes is not hashed. -/
def ofVector (iv : Bytes) : Feed :=
  if iv.length = 12 then empty else close (absorb empty iv) 0 (UInt64.ofNat iv.length)

end Feed

def hashed (key : GhashKey) (feed : Feed) : Ghash :=
  { sum := feed.blocks.foldl (absorbBlock key) 0, pending := feed.pending }

section Sums
variable (key : GhashKey)

theorem absorb_hashed (feed : Feed) (data : Bytes) :
    absorb key (hashed key feed) data = hashed key (feed.absorb data) := by
  simp only [absorb, Feed.absorb, hashed, List.foldl_append]

theorem absorb_pieces_hashed (pieces : List Bytes) (feed : Feed) :
    pieces.foldl (absorb key) (hashed key feed) = hashed key (pieces.foldl Feed.absorb feed) := by
  induction pieces generalizing feed with
  | nil => rfl
  | cons piece pieces ih => rw [List.foldl_cons, absorb_hashed, ih, List.foldl_cons]

theorem pad_hashed (feed : Feed) : pad key (hashed key feed) = hashed key feed.pad := by
  cases feed with
  | mk blocks pending =>
      cases pending with
      | nil => rfl
      | cons byte pending =>
          have some : ¬(byte :: pending).isEmpty = true := Bool.false_ne_true
          rw [pad, Feed.pad, hashed, hashed, if_neg some, if_neg some, List.foldl_append]
          rfl

theorem close_hashed (feed : Feed) (first second : UInt64) :
    close key (hashed key feed) first second = hashed key (feed.close first second) := by
  rw [close, pad_hashed, Feed.close, hashed, hashed, List.foldl_append]
  rfl

theorem text_hashed (aad text : List Bytes) :
    close key (text.foldl (absorb key) (pad key (aad.foldl (absorb key) empty)))
        (UInt64.ofNat aad.flatten.length) (UInt64.ofNat text.flatten.length) =
      hashed key (Feed.ofText aad text) := by
  have first : aad.foldl (absorb key) empty = hashed key (aad.foldl Feed.absorb Feed.empty) :=
    absorb_pieces_hashed key aad Feed.empty
  rw [first, pad_hashed, absorb_pieces_hashed, close_hashed, Feed.ofText]

theorem start_block_hashed (iv : Bytes) (long : iv.length ≠ 12) :
    startBlock key iv = (hashed key (Feed.ofVector iv)).value := by
  have first : absorb key empty iv = hashed key (Feed.empty.absorb iv) :=
    absorb_hashed key Feed.empty iv
  rw [startBlock, Feed.ofVector, if_neg long, if_neg long, first, close_hashed]

end Sums

namespace Feed

-- Where the string has come to, in whatever pieces it came.
def behind (bytes : Bytes) : Feed :=
  { blocks := Bytes.wholeBlocks 16 bytes, pending := bytes.drop (bytes.length / 16 * 16) }

theorem behind_aligned (bytes : Bytes) (count : Nat) (aligned : bytes.length = count * 16) :
    behind bytes = { blocks := Bytes.wholeBlocks 16 bytes, pending := [] } := by
  have reach : bytes.length ≤ bytes.length / 16 * 16 := by omega
  rw [behind, List.drop_eq_nil_of_le reach]

theorem absorb_behind (bytes data : Bytes) :
    (behind bytes).absorb data = behind (bytes ++ data) := by
  have front := Bytes.complete_length 16 bytes
  have cut := Bytes.complete_blocks_append 16 (bytes.take (bytes.length / 16 * 16))
    (bytes.drop (bytes.length / 16 * 16) ++ data) (by decide) _ front
  rw [← List.append_assoc, List.take_append_drop, Bytes.whole_blocks_take 16 bytes (by decide),
    Bytes.complete_blocks_exact 16 _ (by decide)] at cut
  obtain ⟨blocks, rest⟩ := Prod.mk.inj cut
  rw [behind, behind, blocks, rest]
  rfl

theorem absorb_pieces_behind (pieces : List Bytes) (bytes : Bytes) :
    pieces.foldl absorb (behind bytes) = behind (bytes ++ pieces.flatten) := by
  induction pieces generalizing bytes with
  | nil => rw [List.flatten_nil, List.append_nil]; rfl
  | cons piece pieces ih =>
      rw [List.foldl_cons, absorb_behind, ih, List.flatten_cons, List.append_assoc]

theorem pad_behind (bytes : Bytes) : (behind bytes).pad = behind (filled bytes) := by
  have front := Bytes.complete_length 16 bytes
  have short := Bytes.rest_length 16 bytes (by decide)
  have whole := behind_aligned _ _ (filled_length bytes)
  by_cases none : bytes.drop (bytes.length / 16 * 16) = []
  · have aligned : bytes.length = bytes.length / 16 * 16 := by
      have reach := List.drop_eq_nil_iff.mp none
      omega
    rw [filled_aligned bytes _ aligned, pad, behind, none]
    rfl
  · have some : ¬(bytes.drop (bytes.length / 16 * 16)).isEmpty = true := by simpa using none
    have block := filled_rest_length _ none short
    have split : filled bytes = bytes.take (bytes.length / 16 * 16) ++
        filled (bytes.drop (bytes.length / 16 * 16)) := by
      rw [← filled_append _ _ _ front, List.take_append_drop]
    rw [whole, split, Bytes.whole_blocks_append 16 _ _ (by decide) _ front,
      Bytes.whole_blocks_take 16 bytes (by decide),
      Bytes.whole_blocks_single 16 _ (by decide) block, filled_rest _ none short, pad, behind,
      if_neg some]

theorem close_behind (bytes : Bytes) (first second : UInt64) :
    ((behind bytes).close first second).blocks =
      Bytes.wholeBlocks 16 (filled bytes) ++ [lengthBlock first second] := by
  rw [close, pad_behind, behind]

theorem both_filled_length (aad text : Bytes) : (filled aad ++ filled text).length =
    ((aad.length + 15) / 16 + (text.length + 15) / 16) * 16 := by
  rw [List.length_append, filled_length, filled_length, Nat.add_mul]

theorem text_blocks (aad text : List Bytes) :
    (ofText aad text).blocks =
      Bytes.wholeBlocks 16 (filled aad.flatten ++ filled text.flatten) ++
        [lengthBlock (UInt64.ofNat aad.flatten.length) (UInt64.ofNat text.flatten.length)] := by
  have first : aad.foldl absorb empty = behind aad.flatten := absorb_pieces_behind aad []
  rw [ofText, first, pad_behind, absorb_pieces_behind, close_behind,
    filled_append _ _ _ (filled_length aad.flatten)]

theorem vector_blocks (iv : Bytes) (long : iv.length ≠ 12) :
    (ofVector iv).blocks =
      Bytes.wholeBlocks 16 (filled iv) ++ [lengthBlock 0 (UInt64.ofNat iv.length)] := by
  have first : absorb empty iv = behind iv := absorb_behind [] iv
  rw [ofVector, if_neg long, first, close_behind]

theorem closed_blocks_whole (bytes : Bytes) (count : Nat) (aligned : bytes.length = count * 16)
    (first second : UInt64) :
    ∀ block ∈ Bytes.wholeBlocks 16 bytes ++ [lengthBlock first second], block.length = 16 := by
  intro block inside
  rcases List.mem_append.mp inside with earlier | last
  · rw [← Bytes.segments_whole 16 bytes (by decide) count aligned] at earlier
    exact Bytes.segments_aligned 16 bytes (by decide) count aligned block earlier
  · rw [List.mem_singleton.mp last, length_block_length]

theorem text_blocks_whole (aad text : List Bytes) :
    ∀ block ∈ (ofText aad text).blocks, block.length = 16 := by
  rw [text_blocks]
  exact closed_blocks_whole _ _ (both_filled_length aad.flatten text.flatten) _ _

theorem vector_blocks_whole (iv : Bytes) : ∀ block ∈ (ofVector iv).blocks, block.length = 16 := by
  by_cases twelve : iv.length = 12
  · rw [ofVector, if_pos twelve]
    intro block inside
    cases inside
  · rw [vector_blocks iv twelve]
    exact closed_blocks_whole _ _ (filled_length iv) _ _

end Feed

theorem whole_blocks_inj (left right : Bytes) (count further : Nat)
    (aligned : left.length = count * 16) (even : right.length = further * 16)
    (same : Bytes.wholeBlocks 16 left = Bytes.wholeBlocks 16 right) : left = right := by
  rw [← Bytes.segments_whole 16 left (by decide) count aligned,
    ← Bytes.segments_whole 16 right (by decide) further even] at same
  calc left = (Bytes.segments 16 left).flatten := (Bytes.segments_flatten 16 left (by decide)).symm
    _ = (Bytes.segments 16 right).flatten := congrArg List.flatten same
    _ = right := Bytes.segments_flatten 16 right (by decide)

theorem filled_inj (left right : Bytes) (even : left.length = right.length)
    (same : filled left = filled right) : left = right :=
  (List.append_inj same even).1

theorem length_block_inj (first second third fourth : Nat)
    (same : lengthBlock (UInt64.ofNat first) (UInt64.ofNat second) =
      lengthBlock (UInt64.ofNat third) (UInt64.ofNat fourth)) :
    first % 2 ^ 61 = third % 2 ^ 61 ∧ second % 2 ^ 61 = fourth % 2 ^ 61 := by
  -- The lengths are told modulo `2^61` bytes.
  rw [length_block_exact, length_block_exact] at same
  obtain ⟨former, latter⟩ := List.append_inj same
    (by rw [BigEndian.numeral_length, BigEndian.numeral_length])
  have numbers (left right : Nat) (equal : BigEndian.numeral 8 (8 * left) =
    BigEndian.numeral 8 (8 * right)) :
      left % 2 ^ 61 = right % 2 ^ 61 := by
    have values := congrArg BigEndian.number equal
    rw [BigEndian.number_numeral, BigEndian.number_numeral] at values
    omega
  exact ⟨numbers first third former, numbers second fourth latter⟩

theorem text_blocks_inj (aad text otherAad otherText : List Bytes)
    (aadShort : aad.flatten.length < 2 ^ 61) (textShort : text.flatten.length < 2 ^ 61)
    (otherAadShort : otherAad.flatten.length < 2 ^ 61)
    (otherTextShort : otherText.flatten.length < 2 ^ 61)
    (same : (Feed.ofText aad text).blocks = (Feed.ofText otherAad otherText).blocks) :
    aad.flatten = otherAad.flatten ∧ text.flatten = otherText.flatten := by
  rw [Feed.text_blocks, Feed.text_blocks] at same
  obtain ⟨blocks, last⟩ := List.append_inj' same rfl
  obtain ⟨former, latter⟩ := length_block_inj _ _ _ _ (List.cons.inj last).1
  have front : aad.flatten.length = otherAad.flatten.length := by omega
  have back : text.flatten.length = otherText.flatten.length := by omega
  have strings := whole_blocks_inj _ _ _ _ (Feed.both_filled_length aad.flatten text.flatten)
    (Feed.both_filled_length otherAad.flatten otherText.flatten) blocks
  obtain ⟨filledAad, filledText⟩ := List.append_inj strings
    (by rw [filled_length, filled_length, front])
  constructor
  · exact filled_inj _ _ front filledAad
  · exact filled_inj _ _ back filledText

theorem vector_blocks_inj (iv other : Bytes) (long : iv.length ≠ 12) (otherLong : other.length ≠ 12)
    (same : (Feed.ofVector iv).blocks = (Feed.ofVector other).blocks) : iv = other := by
  -- Vectors of as many blocks differ in length by less than what their last block tells apart.
  rw [Feed.vector_blocks iv long, Feed.vector_blocks other otherLong] at same
  obtain ⟨blocks, last⟩ := List.append_inj' same rfl
  have lengths := (length_block_inj 0 _ 0 _ (List.cons.inj last).1).2
  have strings := whole_blocks_inj _ _ _ _ (filled_length iv) (filled_length other) blocks
  have count := congrArg List.length strings
  rw [filled_length, filled_length] at count
  have even : iv.length = other.length := by omega
  exact filled_inj iv other even strings

/-- Under every key it is these blocks that are hashed. Different pairs of associated data and text
have different ones, in whatever pieces they come, and so have different vectors. -/
theorem hashed_blocks_tell_apart :
    (∀ (key : GhashKey) (aad text : List Bytes),
      close key (text.foldl (absorb key) (pad key (aad.foldl (absorb key) empty)))
          (UInt64.ofNat aad.flatten.length) (UInt64.ofNat text.flatten.length) =
        hashed key (Feed.ofText aad text)) ∧
    (∀ (key : GhashKey) (aad text : Bytes),
      Gcm.textHash key aad text = (hashed key (Feed.ofText [aad] [text])).value) ∧
    (∀ (key : GhashKey) (iv : Bytes), iv.length ≠ 12 →
      startBlock key iv = (hashed key (Feed.ofVector iv)).value) ∧
    (∀ aad text : List Bytes, ∀ block ∈ (Feed.ofText aad text).blocks, block.length = 16) ∧
    (∀ iv : Bytes, ∀ block ∈ (Feed.ofVector iv).blocks, block.length = 16) ∧
    (∀ aad text otherAad otherText : List Bytes,
      aad.flatten.length < 2 ^ 61 → text.flatten.length < 2 ^ 61 →
      otherAad.flatten.length < 2 ^ 61 → otherText.flatten.length < 2 ^ 61 →
      (aad.flatten, text.flatten) ≠ (otherAad.flatten, otherText.flatten) →
      (Feed.ofText aad text).blocks ≠ (Feed.ofText otherAad otherText).blocks) ∧
    ∀ iv other : Bytes, iv.length ≠ 12 → other.length ≠ 12 → iv ≠ other →
      (Feed.ofVector iv).blocks ≠ (Feed.ofVector other).blocks := by
  constructor
  · exact text_hashed
  constructor
  · intro key aad text
    have whole := text_hashed key [aad] [text]
    rw [List.flatten_singleton, List.flatten_singleton] at whole
    rw [← whole]
    rfl
  constructor
  · exact start_block_hashed
  constructor
  · exact Feed.text_blocks_whole
  constructor
  · exact Feed.vector_blocks_whole
  constructor
  · intro aad text otherAad otherText aadShort textShort otherAadShort otherTextShort different same
    have strings := text_blocks_inj aad text otherAad otherText aadShort textShort
      otherAadShort otherTextShort same
    exact different (Prod.ext strings.1 strings.2)
  · intro iv other long otherLong different same
    exact different (vector_blocks_inj iv other long otherLong same)

/-- The same bytes before and behind the border, and one zero more in front of the zeros that fill
up. -/
theorem border_and_zero_tell_apart :
    (Feed.ofText [[1], [2]] []).blocks ≠ (Feed.ofText [[1]] [[2]]).blocks ∧
      (Feed.ofVector [0]).blocks ≠ (Feed.ofVector [0, 0]).blocks := by
  obtain ⟨-, -, -, -, -, texts, vectors⟩ := hashed_blocks_tell_apart
  constructor
  · exact texts [[1], [2]] [] [[1]] [[2]] (by decide) (by decide) (by decide) (by decide)
      (by decide)
  · exact vectors [0] [0, 0] (by decide) (by decide) (by decide)

end SymmetricKey.Ghash
