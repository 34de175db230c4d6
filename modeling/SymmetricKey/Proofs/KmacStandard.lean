import SymmetricKey.Authentication.Kmac
import SymmetricKey.Proofs.ChainMacs
import SymmetricKey.Proofs.FramedStrings
import SymmetricKey.Proofs.SpongeStandard

/-!
KMAC as SP 800-185 has it: the output of a sponge that takes in one string. The
name of the function with the customization string, and the key, fill whole
blocks of it; the message follows, and behind it the length of the tag. Among
any copies a context answers every run of calls as one that keeps nothing but
the message.
-/

namespace SymmetricKey

namespace Framing

theorem left_encode_rate (rate : Nat) (fits : rate ≤ 200) :
    leftEncode (UInt64.ofNat rate) = leftEncoded rate := by
  have counted : (UInt64.ofNat rate).toNat = rate :=
    UInt64.toNat_ofNat_of_lt' (by simp only [UInt64.size]; omega)
  rw [left_encode_exact, counted]

-- Behind whole blocks the zeros depend on the padded string alone.
theorem padded_behind_blocks (rate : Nat) (string content : Bytes)
    (aligned : string.length % rate = 0) :
    string ++ (leftEncoded rate ++ content) ++
        Bytes.zeros ((rate - (string ++ (leftEncoded rate ++ content)).length % rate) % rate) =
      string ++ bytePadded rate content := by
  rw [List.length_append, Nat.add_mod, aligned, Nat.zero_add, Nat.mod_mod, List.append_assoc,
    bytePadded]

end Framing

namespace Sponge

open Framing (leftEncoded encodedString bytePadded)

section Strings
variable (rate : Nat) (positive : 0 < rate) (fits : rate ≤ 200) (words : Nat)
  (wordwise : rate = words * 8) (state string : Bytes) (whole : state.length = 200)
include positive fits wordwise whole

theorem absorb_string_exact (text : Bytes) :
    (behind rate state string).absorbString text =
      behind rate state (string ++ encodedString text) := by
  rw [absorbString, absorb_exact rate positive fits words wordwise state _ _ whole,
    absorb_exact rate positive fits words wordwise state _ _ whole, List.append_assoc,
    Framing.encoded_string_exact]

theorem absorb_strings_exact (texts : List Bytes) :
    texts.foldl absorbString (behind rate state string) =
      behind rate state (string ++ texts.flatMap encodedString) := by
  induction texts generalizing string with
  | nil => rw [List.flatMap_nil, List.append_nil, List.foldl_nil]
  | cons text rest ih =>
      rw [List.foldl_cons, absorb_string_exact rate positive fits words wordwise state string whole,
        ih, List.flatMap_cons, List.append_assoc]

theorem absorb_padded_exact (aligned : string.length % rate = 0) (texts : List Bytes) :
    (behind rate state string).absorbPadded texts =
      behind rate state (string ++ bytePadded rate (texts.flatMap encodedString)) := by
  have same : (behind rate state string).rate = rate := rfl
  rw [absorbPadded, same, Framing.left_encode_rate rate fits,
    absorb_exact rate positive fits words wordwise state _ _ whole,
    absorb_strings_exact rate positive fits words wordwise state _ whole, List.append_assoc,
    fill_block_exact rate positive fits state _ whole,
    Framing.padded_behind_blocks rate string _ aligned]

end Strings

theorem empty_behind (rate : Nat) (positive : 0 < rate) :
    empty rate = behind rate (Bytes.zeros 200) [] := by
  rw [behind_short rate _ [] positive, started_empty rate _ (Bytes.zeros_length 200)]
  rfl

end Sponge

namespace Framing

theorem byte_padded_length (rate : Nat) (positive : 0 < rate) (content : Bytes) :
    (bytePadded rate content).length % rate = 0 := by
  have short := Nat.mod_lt (leftEncoded rate ++ content).length positive
  rw [bytePadded, List.length_append, Bytes.zeros_length, Nat.add_mod, Nat.mod_mod]
  by_cases full : (leftEncoded rate ++ content).length % rate = 0
  · rw [full, Nat.sub_zero, Nat.mod_self, Nat.zero_mod]
  · have missing : rate - (leftEncoded rate ++ content).length % rate < rate := by omega
    rw [Nat.mod_eq_of_lt missing, Nat.add_sub_cancel' short.le, Nat.mod_self]

end Framing

namespace KmacStrength

/-- The part of the state that the string never meets has twice as many bits as the strength. -/
def standardRate (strength : KmacStrength) : Nat := 200 - strength.bits / 4

theorem rate_exact (strength : KmacStrength) : strength.rate = strength.standardRate := by
  cases strength <;> rfl

theorem rate_positive (strength : KmacStrength) : 0 < strength.standardRate := by
  cases strength <;> decide

theorem rate_fits (strength : KmacStrength) : strength.standardRate ≤ 200 := Nat.sub_le _ _

theorem rate_wordwise (strength : KmacStrength) :
    strength.standardRate = strength.standardRate / 8 * 8 := by
  cases strength <;> rfl

end KmacStrength

namespace Kmac

open Framing (leftEncoded rightEncoded encodedString bytePadded)

/-- Name, customization string and key. The name is the four letters of KMAC. -/
def front (strength : KmacStrength) (key custom : Bytes) : Bytes :=
  bytePadded strength.standardRate (encodedString [75, 77, 65, 67] ++ encodedString custom) ++
    bytePadded strength.standardRate (encodedString key)

def framed (strength : KmacStrength) (key custom message : Bytes) (length : Nat) : Bytes :=
  front strength key custom ++ message ++ rightEncoded (8 * length)

def standardTag (strength : KmacStrength) (key custom message : Bytes) (length : Nat) : Bytes :=
  Sponge.standard strength.standardRate 4 (framed strength key custom message length) length

theorem length_counted (length : Nat) (most : length ≤ maxSize) : 8 * length < 2 ^ 64 := by
  have bound : maxSize = 2 ^ 61 - 1 := rfl
  omega

theorem right_encode_length (length : Nat) (most : length ≤ maxSize) :
    Framing.rightEncode (UInt64.ofNat length * 8) = rightEncoded (8 * length) := by
  rw [Framing.right_encode_exact, Framing.bit_count, Nat.mod_eq_of_lt (length_counted length most)]

/-- What a MAC answers whose tag is made for its length. It keeps nothing but the message. -/
def ideal (tag : Bytes → Nat → Bytes) (message : Bytes) : MacCall Unit → MacAnswer × Bytes
  | .reset _ => (.done, [])
  | .absorb data => (.done, message ++ data)
  | .finish length =>
      if 1 ≤ length ∧ length ≤ maxSize then (.tag (tag message length), [])
      else (.refused .invalidParameter, message)

def serve : Kmac → MacCall Unit → MacAnswer × Kmac :=
  MacCall.served reset (fun context data => (none, context.absorb data)) finish

-- The sponge out of which the tag is taken, once it is closed.
def ready (context : Kmac) (length : Nat) : Sponge :=
  context.running.absorb (Framing.rightEncode (UInt64.ofNat length * 8))

theorem tag_ready (context : Kmac) (length : Nat) :
    context.tag length = (context.ready length).finish domain length := rfl

section Context
variable (strength : KmacStrength) (key custom : Bytes)

def taken (string : Bytes) : Sponge :=
  Sponge.behind strength.standardRate (Bytes.zeros 200) string

theorem absorb_taken (string data : Bytes) :
    (taken strength string).absorb data = taken strength (string ++ data) :=
  Sponge.absorb_exact _ strength.rate_positive strength.rate_fits _ strength.rate_wordwise _ _ _
    (Bytes.zeros_length 200)

theorem absorb_padded_taken (string : Bytes) (aligned : string.length % strength.standardRate = 0)
    (texts : List Bytes) :
    (taken strength string).absorbPadded texts =
      taken strength (string ++ bytePadded strength.standardRate (texts.flatMap encodedString)) :=
  Sponge.absorb_padded_exact _ strength.rate_positive strength.rate_fits _ strength.rate_wordwise _
    _ (Bytes.zeros_length 200) aligned texts

theorem empty_taken : Sponge.empty strength.rate = taken strength [] := by
  rw [strength.rate_exact, Sponge.empty_behind _ strength.rate_positive, taken]

/-- The context once the message has been absorbed. -/
def awaiting (message : Bytes) : Kmac :=
  { strength
    keyed := taken strength (front strength key custom)
    running := taken strength (front strength key custom ++ message) }

theorem of_strength_awaiting :
    ofStrength strength key custom = awaiting strength key custom [] := by
  have named : (Sponge.empty strength.rate).absorbPadded [functionName, custom] =
      taken strength (bytePadded strength.standardRate
        (encodedString [75, 77, 65, 67] ++ encodedString custom)) := by
    rw [empty_taken, absorb_padded_taken strength [] (Nat.zero_mod _), List.nil_append]
    simp only [List.flatMap_cons, List.flatMap_nil, List.append_nil, functionName]
  have keyed :
      ((Sponge.empty strength.rate).absorbPadded [functionName, custom]).absorbPadded [key] =
      taken strength (front strength key custom) := by
    rw [named, absorb_padded_taken strength _
      (Framing.byte_padded_length _ strength.rate_positive _), front, List.flatMap_singleton]
  rw [awaiting, List.append_nil]
  simp only [ofStrength, keyed]

theorem of_key_awaiting :
    ofKey strength.bits key custom = .ok (awaiting strength key custom []) := by
  have known : KmacStrength.ofBits? strength.bits = some strength := by cases strength <;> rfl
  rw [ofKey, known]
  exact congrArg Except.ok (of_strength_awaiting strength key custom)

theorem reset_awaiting (message : Bytes) :
    (awaiting strength key custom message).reset = awaiting strength key custom [] := by
  rw [awaiting, awaiting, List.append_nil]
  rfl

theorem absorb_awaiting (message data : Bytes) :
    (awaiting strength key custom message).absorb data =
      awaiting strength key custom (message ++ data) := by
  rw [awaiting, absorb, absorb_taken, List.append_assoc]
  rfl

theorem absorb_pieces_awaiting (message : Bytes) (pieces : List Bytes) :
    pieces.foldl absorb (awaiting strength key custom message) =
      awaiting strength key custom (message ++ pieces.flatten) := by
  induction pieces generalizing message with
  | nil => rw [List.foldl_nil, List.flatten_nil, List.append_nil]
  | cons piece rest ih =>
      rw [List.foldl_cons, absorb_awaiting, ih, List.flatten_cons, List.append_assoc]

theorem ready_awaiting (message : Bytes) (length : Nat) (most : length ≤ maxSize) :
    (awaiting strength key custom message).ready length =
      taken strength (framed strength key custom message length) := by
  rw [awaiting, ready, absorb_taken, right_encode_length length most, framed]

theorem tag_awaiting (message : Bytes) (length : Nat) (most : length ≤ maxSize) :
    (awaiting strength key custom message).tag length =
      standardTag strength key custom message length := by
  rw [tag_ready, ready_awaiting strength key custom message length most, taken,
    Sponge.finish_exact _ strength.rate_positive strength.rate_fits, standardTag, domain]

theorem finish_awaiting (message : Bytes) (length : Nat) :
    (awaiting strength key custom message).finish length =
      if 1 ≤ length ∧ length ≤ maxSize then
        (.ok (standardTag strength key custom message length), awaiting strength key custom [])
      else (.error .invalidParameter, awaiting strength key custom message) := by
  by_cases inside : 1 ≤ length ∧ length ≤ maxSize
  · rw [finish, check_tag_size_inside _ _ _ inside.1 inside.2, if_pos inside,
      tag_awaiting strength key custom message length inside.2, reset_awaiting]
  · rw [finish, check_tag_size_outside _ _ _ (by omega), if_neg inside]

theorem serve_awaiting (message : Bytes) (call : MacCall Unit) :
    serve (awaiting strength key custom message) call =
      ((ideal (standardTag strength key custom) message call).1,
        awaiting strength key custom (ideal (standardTag strength key custom) message call).2) := by
  cases call with
  | reset start => rw [serve, MacCall.served, reset_awaiting, ideal]
  | absorb data =>
      rw [serve, MacCall.served, absorb_awaiting]
      rfl
  | finish length =>
      rw [serve, MacCall.served, finish_awaiting, ideal]
      by_cases inside : 1 ≤ length ∧ length ≤ maxSize
      · rw [if_pos inside, if_pos inside]
        rfl
      · rw [if_neg inside, if_neg inside]
        rfl

end Context

/-- A tag is that of the message since the start, the last reset or the last tag, in whatever pieces
and whichever copies. A length of zero is refused, as is one whose count of bits is no number of 64
bits. The counts in front of the strings are exact up to 2^61 bytes, and the string is closed by the
two bits of the domain and by the padding. -/
theorem copies_tag_framed_message (strength : KmacStrength) (key custom : Bytes) :
    (∃ fresh, ofKey strength.bits key custom = .ok fresh ∧
      ∀ steps : List (CopyStep (MacCall Unit)),
        (CallRun.run (CallRun.amongCopies serve) (fun _ => fresh) steps).1 =
          (CallRun.run (CallRun.amongCopies (ideal (standardTag strength key custom)))
            (fun _ => []) steps).1) ∧
      (∀ text : Bytes, text.length < 2 ^ 61 →
        encodedString text = leftEncoded (8 * text.length) ++ text) ∧
      ∀ missing, 0 < missing → Sponge.bits (Sponge.ending 4 missing) =
        [false, false] ++ (true :: List.replicate (8 * missing - 4) false ++ [true]) := by
  refine ⟨⟨_, of_key_awaiting strength key custom, fun steps => ?_⟩, Framing.encoded_string_short,
    Sponge.ending_bits⟩
  apply CallRun.run_among_copies_alike serve (ideal (standardTag strength key custom))
    (fun context message => context = awaiting strength key custom message) ?step _ _ rfl
  case step =>
    rintro context message call rfl
    rw [serve_awaiting]
    exact ⟨rfl, rfl⟩

/-- The state of the published sample behind the name of the function. -/
def sampleNamed : Lanes := #v[
  0xffa0ee44987db36b, 0xfec0b86e809a27ba, 0x3528e28b621c28ce, 0xa8797b0274435120,
  0x2060f5ba623111a8, 0x9e84d835e828cff3, 0x1a299e1b5e66eee2, 0xc4429016a5b7ee43,
  0x7f58c7fcdb925b1d, 0x28a7db99fccee64d, 0x4417a644de121570, 0xeb99faf9bcd49450,
  0xb75c8a2d86b129d2, 0x7a0a2bd92ddf8c47, 0x94b29a341cb0d2c7, 0x89f48a7ed3ad8354,
  0xbabd2ac6570f4348, 0x7a16387cb56d4e3b, 0xb46418dce00d0353, 0x8db5077e73ff5632,
  0x26269d5702747069, 0x8f92017a2c00fba8, 0x01701ebd78ebddf4, 0xf7ca6ce64a444181,
  0x21fe84f33785d54b]

/-- The state of the published sample behind the key. -/
def sampleKeyed : Lanes := #v[
  0x419b0fd444378397, 0x36925ad0613b5f83, 0xce32c37fa2c5dab9, 0xce171981b56327c0,
  0xff4ed0c15d85db8e, 0x945775d56e190ab8, 0x2aef8373624068fd, 0xf683f8e43ac40f11,
  0x5491952756c418df, 0xc02afe2654bcddf0, 0x8cfbd24e867e0ccd, 0x1b57a8059da64598,
  0x093ef69fda36b788, 0x88a49759dc36dff0, 0x3a0b7302d85b80de, 0x536409fd319c5263,
  0x773c9fe9ca5fc0a0, 0x882ece8e7655caa0, 0x9e8333b44bff291a, 0xf2a05c3b3159b002,
  0x3afcb0ff15069519, 0x66db90f4e1b6904a, 0xa2f54e1e53080bf1, 0x400d12f6abaf077d,
  0x4ce137f2b7f7c988]

/-- A published tag, of a message in two pieces, the second of which goes to a copy. -/
theorem sample_tagged_by_copy :
    (∃ fresh, ofKey 128 ((List.range 32).map fun index => UInt8.ofNat (index + 64)) [] = .ok fresh ∧
      (CallRun.run (CallRun.amongCopies serve) (fun _ => fresh)
        [.call 0 (.absorb [0, 1]), .copy 0 1, .call 1 (.absorb [2, 3]), .call 1 (.finish 0),
          .call 1 (.finish 32)]).1.map Prod.snd =
        [some .done, none, some .done, some (.refused .invalidParameter), some (.tag
          [0xe5, 0x78, 0x0b, 0x0d, 0x3e, 0xa6, 0xf7, 0xd3, 0xa4, 0x29, 0xc5, 0x70, 0x6a, 0xa4, 0x3a,
            0x00, 0xfa, 0xdb, 0xd7, 0xd4, 0x96, 0x28, 0x83, 0x9e, 0x31, 0x87, 0x24, 0x3f, 0x45,
            0x6e, 0xe1, 0x4e])]) ∧
      encodedString [0] = [1, 8, 0] ∧
      Sponge.bits (Sponge.ending 4 1) = [false, false, true, false, false, false, false, true] := by
  obtain ⟨⟨fresh, given, alike⟩, counted, closed⟩ := copies_tag_framed_message .bits128
    ((List.range 32).map fun index => UInt8.ofNat (index + 64)) []
  refine ⟨⟨fresh, given, ?_⟩, ?_, closed 1 (by decide)⟩
  · have blocks : Bytes.wholeBlocks 168 (Sponge.padded 168 4 (framed .bits128
        ((List.range 32).map fun index => UInt8.ofNat (index + 64)) [] [0, 1, 2, 3] 32)) =
        [[1, 168, 1, 32, 75, 77, 65, 67, 1, 0] ++ Bytes.zeros 158,
          [1, 168, 2, 1, 0] ++ ((List.range 32).map fun index => UInt8.ofNat (index + 64)) ++
            Bytes.zeros 131,
          [0, 1, 2, 3, 1, 0, 2, 4] ++ Bytes.zeros 159 ++ [0x80]] := by decide +kernel
    -- The kernel evaluates the three permutations one by one.
    have named : Sponge.absorbed (Bytes.zeros 200)
        ([1, 168, 1, 32, 75, 77, 65, 67, 1, 0] ++ Bytes.zeros 158) = sampleNamed.toBytes := by
      decide +kernel
    have keyed : Sponge.absorbed sampleNamed.toBytes
        ([1, 168, 2, 1, 0] ++ ((List.range 32).map fun index => UInt8.ofNat (index + 64)) ++
          Bytes.zeros 131) = sampleKeyed.toBytes := by
      decide +kernel
    have tagged : (Sponge.absorbed sampleKeyed.toBytes
        ([0, 1, 2, 3, 1, 0, 2, 4] ++ Bytes.zeros 159 ++ [0x80])).take 32 =
        [0xe5, 0x78, 0x0b, 0x0d, 0x3e, 0xa6, 0xf7, 0xd3, 0xa4, 0x29, 0xc5, 0x70, 0x6a, 0xa4, 0x3a,
          0x00, 0xfa, 0xdb, 0xd7, 0xd4, 0x96, 0x28, 0x83, 0x9e, 0x31, 0x87, 0x24, 0x3f, 0x45, 0x6e,
          0xe1, 0x4e] := by
      decide +kernel
    have rate : KmacStrength.bits128.standardRate = 168 := rfl
    rw [alike]
    change [some MacAnswer.done, none, some .done, some (.refused .invalidParameter),
      some (.tag (standardTag .bits128
        ((List.range 32).map fun index => UInt8.ofNat (index + 64)) [] [0, 1, 2, 3] 32))] = _
    rw [standardTag, rate, Sponge.standard_short 168 4 _ 32 (by decide) (by decide),
      Sponge.stateBehind, blocks, List.foldl_cons, named, List.foldl_cons, keyed, List.foldl_cons,
      List.foldl_nil, tagged]
  · rw [counted [0] (by decide)]
    decide

end Kmac

end SymmetricKey
