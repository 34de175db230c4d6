import SymmetricKey.Proofs.BufferedMessages
import SymmetricKey.Proofs.WordStrings

/-!
The blocks that a message is compressed in. The last one tells the length of the
message, so the blocks of one message are never the last blocks of another. Two messages
with one digest therefore lead to two inputs of the compression function with one output.
-/

namespace SymmetricKey

namespace Hash

def closedBlocks (message : Bytes) : List Bytes := Bytes.wholeBlocks 64 (closed message)

theorem closed_blocks_full (message : Bytes) :
    ∀ block ∈ closedBlocks message, block.length = 64 := by
  rw [closedBlocks, ← Bytes.segments_whole 64 _ (by decide) _ (closed_length message)]
  exact Bytes.segments_aligned 64 _ (by decide) _ (closed_length message)

theorem closed_blocks_flatten (message : Bytes) :
    (closedBlocks message).flatten = closed message := by
  rw [closedBlocks, ← Bytes.segments_whole 64 _ (by decide) _ (closed_length message),
    Bytes.segments_flatten 64 _ (by decide)]

theorem closed_suffix_free (message other : Bytes) (short : message.length < 2 ^ 61)
    (otherShort : other.length < 2 ^ 61) (suffix : closed message <:+ closed other) :
    message = other := by
  -- The last bytes tell the length, and so where the message begins.
  obtain ⟨front, same⟩ := suffix
  have counts : BigEndian.numeral 8 (8 * message.length % 2 ^ 64) =
      BigEndian.numeral 8 (8 * other.length % 2 ^ 64) := by
    rw [closed, closed, ← List.append_assoc] at same
    exact (List.append_inj' same (by rw [BigEndian.numeral_length, BigEndian.numeral_length])).2
  have numbers := congrArg BigEndian.number counts
  rw [BigEndian.number_numeral, BigEndian.number_numeral] at numbers
  have even : message.length = other.length := by omega
  have whole := congrArg List.length same
  rw [List.length_append, closed_length, closed_length, even] at whole
  have nothing : front = [] := List.length_eq_zero_iff.mp (by omega)
  rw [nothing, List.nil_append, closed, closed, List.append_assoc, List.append_assoc] at same
  exact (List.append_inj same even).1

theorem closed_blocks_suffix_free (message other : Bytes) (short : message.length < 2 ^ 61)
    (otherShort : other.length < 2 ^ 61) (suffix : closedBlocks message <:+ closedBlocks other) :
    message = other := by
  obtain ⟨front, same⟩ := suffix
  apply closed_suffix_free message other short otherShort
  refine ⟨front.flatten, ?_⟩
  rw [← closed_blocks_flatten, ← closed_blocks_flatten, ← same, List.flatten_append]

end Hash

theorem MessageBuffer.handed_on_exact (pieces : List Bytes) :
    handedOn pieces = .ok (Hash.closedBlocks pieces.flatten) := by
  obtain ⟨blocks, buffer, ran, follows, cut⟩ := absorb_all_follows pieces [] empty empty_holds
  obtain ⟨after, closed⟩ := close_exact follows
  rw [List.nil_append] at follows cut closed
  rw [Bytes.whole_blocks_short 64 [] (by decide), List.nil_append] at cut
  have split := Hash.closed_blocks _ _ _ (Bytes.complete_length 64 pieces.flatten)
    (Bytes.rest_length 64 pieces.flatten (by decide))
  rw [List.take_append_drop, Bytes.whole_blocks_take 64 _ (by decide), cut] at split
  rw [handedOn, ran, Checked.ok_bind, closed, Checked.ok_bind, Hash.closedBlocks, split]

namespace Compression

variable {Chaining Block : Type} (compress : Chaining → Block → Chaining)

def inputs : Chaining → List Block → List (Chaining × Block)
  | _, [] => []
  | chaining, block :: blocks => (chaining, block) :: inputs (compress chaining block) blocks

theorem inputs_append (chaining : Chaining) (blocks more : List Block) :
    inputs compress chaining (blocks ++ more) =
      inputs compress chaining blocks ++ inputs compress (blocks.foldl compress chaining) more := by
  induction blocks generalizing chaining with
  | nil => rfl
  | cons block blocks ih =>
      rw [List.cons_append, inputs, ih, inputs, List.cons_append, List.foldl_cons]

/-- Among what the function is given for either list there are two inputs with one output. -/
def Collide (origin : Chaining) (lefts rights : List Block) : Prop :=
  ∃ left ∈ inputs compress origin lefts, ∃ right ∈ inputs compress origin rights,
    left ≠ right ∧ compress left.1 left.2 = compress right.1 right.2

theorem collide_further (origin : Chaining) (lefts rights more others : List Block)
    (found : Collide compress origin lefts rights) :
    Collide compress origin (lefts ++ more) (rights ++ others) := by
  obtain ⟨left, leftGiven, right, rightGiven, apart⟩ := found
  refine ⟨left, ?_, right, ?_, apart⟩
  · rw [inputs_append]
    exact List.mem_append_left _ leftGiven
  · rw [inputs_append]
    exact List.mem_append_left _ rightGiven

theorem inputs_collide (origin : Chaining) (lefts rights : List Block)
    (same : lefts.foldl compress origin = rights.foldl compress origin) (apart : ¬lefts <:+ rights)
    (others : ¬rights <:+ lefts) : Collide compress origin lefts rights := by
  -- From the last blocks back, inputs that are the same have the same value before them. That
  -- goes on to the start of one of the lists only if it ends the other.
  induction lefts using List.reverseRecOn generalizing rights with
  | nil => exact absurd List.nil_suffix apart
  | append_singleton lefts left ih =>
      rcases List.eq_nil_or_concat rights with rfl | ⟨rights, right, rfl⟩
      · exact absurd List.nil_suffix others
      rw [List.concat_eq_append] at same apart others ⊢
      rw [List.foldl_append, List.foldl_append] at same
      by_cases alike : (lefts.foldl compress origin, left) = (rights.foldl compress origin, right)
      · obtain ⟨before, rfl⟩ := Prod.mk.inj alike
        apply collide_further
        apply ih rights before
        · rintro ⟨front, rfl⟩
          exact apart ⟨front, (List.append_assoc _ _ _).symm⟩
        · rintro ⟨front, rfl⟩
          exact others ⟨front, (List.append_assoc _ _ _).symm⟩
      · refine ⟨_, ?_, _, ?_, alike, same⟩
        · rw [inputs_append]
          exact List.mem_append_right _ List.mem_cons_self
        · rw [inputs_append]
          exact List.mem_append_right _ List.mem_cons_self

end Compression

theorem Octet.big_endian_words (octet : Octet) :
    BigEndian.words octet.toBigEndian = octet.toWords := by
  simp only [toBigEndian, toWords, List.flatMap_cons, List.flatMap_nil, List.append_nil,
    BigEndian.bytes32, List.cons_append, List.nil_append, BigEndian.words, BigEndian.word_bytes]

theorem Octet.big_endian_inj (left right : Octet) (same : left.toBigEndian = right.toBigEndian) :
    left = right := by
  have words := congrArg BigEndian.words same
  rw [big_endian_words, big_endian_words] at words
  cases left
  cases right
  simp only [toWords, List.cons.injEq, and_true] at words
  simp only [mk.injEq]
  exact words

namespace Hasher

theorem absorb_all_behind (hash : Hash) (message : Bytes) (pieces : List Bytes) :
    pieces.foldl absorb (behind hash hash.start message) =
      behind hash hash.start (message ++ pieces.flatten) := by
  induction pieces generalizing message with
  | nil => rw [List.flatten_nil, List.append_nil, List.foldl_nil]
  | cons piece pieces ih =>
      rw [List.foldl_cons, absorb_behind, ih, List.flatten_cons, List.append_assoc]

theorem digest_blocks (hash : Hash) (pieces : List Bytes) :
    (pieces.foldl absorb (empty hash)).digest =
      ((Hash.closedBlocks pieces.flatten).foldl hash.compress hash.start).toBigEndian := by
  rw [empty_behind, absorb_all_behind, digest_behind]
  rfl

end Hasher

namespace Hash

theorem closed_blocks_collide {Chaining : Type} (compress : Chaining → Bytes → Chaining)
    (origin : Chaining) (message other : Bytes) (short : message.length < 2 ^ 61)
    (otherShort : other.length < 2 ^ 61) (different : message ≠ other)
    (same : (closedBlocks message).foldl compress origin =
      (closedBlocks other).foldl compress origin) :
    Compression.Collide compress origin (closedBlocks message) (closedBlocks other) := by
  apply Compression.inputs_collide compress origin _ _ same
  · exact fun suffix => different (closed_blocks_suffix_free message other short otherShort suffix)
  · exact fun suffix =>
      different (closed_blocks_suffix_free other message otherShort short suffix).symm

/-- However a message is cut, its blocks are handed on, all of 64 bytes, and its digest is made of
them. Of two different messages neither has the last blocks of the other for its own. So wherever
their blocks lead any compression function to one value, it was given two inputs with one output on
the way. -/
theorem blocks_tell_messages_apart :
    (∀ pieces : List Bytes, MessageBuffer.handedOn pieces = .ok (closedBlocks pieces.flatten)) ∧
    (∀ message : Bytes, ∀ block ∈ closedBlocks message, block.length = 64) ∧
    (∀ (hash : Hash) (pieces : List Bytes),
      (pieces.foldl Hasher.absorb (Hasher.empty hash)).digest =
      ((closedBlocks pieces.flatten).foldl hash.compress hash.start).toBigEndian) ∧
    (∀ message other : Bytes, message.length < 2 ^ 61 → other.length < 2 ^ 61 → message ≠ other →
      closedBlocks message ≠ closedBlocks other ∧ ¬closedBlocks message <:+ closedBlocks other ∧
        ¬closedBlocks other <:+ closedBlocks message) ∧
    (∀ (compress : Octet → Bytes → Octet) (origin : Octet) (message other : Bytes),
      message.length < 2 ^ 61 → other.length < 2 ^ 61 → message ≠ other →
      (closedBlocks message).foldl compress origin = (closedBlocks other).foldl compress origin →
      Compression.Collide compress origin (closedBlocks message) (closedBlocks other)) ∧
    ∀ (hash : Hash) (pieces others : List Bytes),
      pieces.flatten.length < 2 ^ 61 → others.flatten.length < 2 ^ 61 →
      pieces.flatten ≠ others.flatten →
      (pieces.foldl Hasher.absorb (Hasher.empty hash)).digest =
        (others.foldl Hasher.absorb (Hasher.empty hash)).digest →
      Compression.Collide hash.compress hash.start (closedBlocks pieces.flatten)
        (closedBlocks others.flatten) := by
  -- Equal lists are suffixes of each other, so this tells the lists apart as well.
  have apart (message other : Bytes) (short : message.length < 2 ^ 61)
      (otherShort : other.length < 2 ^ 61) (different : message ≠ other) :
      ¬closedBlocks message <:+ closedBlocks other := fun suffix =>
    different (closed_blocks_suffix_free message other short otherShort suffix)
  refine ⟨MessageBuffer.handed_on_exact, closed_blocks_full, Hasher.digest_blocks, ?_,
    fun compress origin => closed_blocks_collide compress origin, ?_⟩
  · intro message other short otherShort different
    refine ⟨?_, apart message other short otherShort different,
      apart other message otherShort short different.symm⟩
    intro same
    exact apart message other short otherShort different (same ▸ List.suffix_rfl)
  · intro hash pieces others short otherShort different same
    rw [Hasher.digest_blocks, Hasher.digest_blocks] at same
    exact closed_blocks_collide _ _ _ _ short otherShort different (Octet.big_endian_inj _ _ same)

/-- Sixty bytes, behind which the length has a block of its own, in two pieces; a message that ends
in a marker and zeros beside the empty one; and a function that forgets all it is given. -/
theorem marker_and_zeros_told_apart :
    MessageBuffer.handedOn [[1], Bytes.zeros 59] =
        .ok [1 :: Bytes.zeros 59 ++ [0x80, 0, 0, 0], Bytes.zeros 62 ++ [0x01, 0xe0]] ∧
      ¬closedBlocks [] <:+ closedBlocks (0x80 :: Bytes.zeros 63) ∧
      Compression.Collide (fun _ _ => Octet.zero) Octet.zero (closedBlocks [])
        (closedBlocks (0x80 :: Bytes.zeros 63)) := by
  obtain ⟨handed, -, -, apart, collide, -⟩ := blocks_tell_messages_apart
  refine ⟨?_, ?_, ?_⟩
  · rw [handed]
    decide +kernel
  · exact (apart [] (0x80 :: Bytes.zeros 63) (by decide) (by decide) (by decide)).2.1
  · exact collide _ Octet.zero [] (0x80 :: Bytes.zeros 63) (by decide) (by decide) (by decide)
      (by decide +kernel)

end Hash

end SymmetricKey
