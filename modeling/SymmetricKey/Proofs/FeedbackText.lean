import Mathlib.Data.List.DropRight
import SymmetricKey.Confidentiality.Cfb
import SymmetricKey.Proofs.MaskedSegments

/-!
Cipher feedback in closed form. The register before a segment is the end of the
initial register followed by all enciphered text so far, in whichever direction
the text is enciphered. So decryption goes through the registers of encryption
and undoes it, and a text may be cut between segments as long as the register
goes along.
-/

namespace SymmetricKey.Cfb

def enciphered (direction : Direction) (input text : Bytes) : Bytes :=
  match direction with
  | .encrypt => text
  | .decrypt => input

theorem shift_in_length (width : Nat) (register segment : Bytes)
    (inside : width ≤ register.length) :
    (shiftIn width register segment).length = register.length := by
  rw [shiftIn, List.length_append, Bytes.overlay_length, List.length_drop, List.length_drop]
  omega

theorem ends_append (size : Nat) (front rest : Bytes) :
    (front.rtake size ++ rest).rtake size = (front ++ rest).rtake size := by
  -- Bytes that are moved up and out of the register do not come back.
  have moved : front.rtake size ++ rest = (front ++ rest).drop (front.length - size) := by
    rw [List.rtake, List.drop_append_of_le_length (Nat.sub_le _ _)]
  have reach : front.length - size + ((front ++ rest).drop (front.length - size)).length =
      (front ++ rest).length := by
    rw [List.length_drop, List.length_append]
    omega
  rw [moved, List.rtake, List.rtake, List.drop_drop, ← reach]
  congr 1
  rw [List.length_drop, List.length_append]
  omega

theorem shift_in_whole (width : Nat) (register segment : Bytes) (inside : width ≤ register.length)
    (whole : segment.length = width) :
    shiftIn width register segment = (register ++ segment).rtake register.length := by
  have room : (register.drop (register.length - width)).length = segment.length := by
    rw [List.length_drop]
    omega
  have freed : (register ++ segment).length - register.length = width := by
    rw [List.length_append]
    omega
  have covered : (register.drop (register.length - width)).drop segment.length = [] :=
    List.drop_eq_nil_of_le (Nat.le_of_eq room)
  rw [shiftIn, Bytes.overlay_fitting _ _ (Nat.le_of_eq room.symm), covered, List.append_nil,
    List.rtake, freed, List.drop_append_of_le_length inside]

section Feeding
variable {size : Nat} (direction : Direction) (width : Nat) (inside : width ≤ size)

def feeding : RegisterRule size where
  next register segment piece := shiftIn width register (enciphered direction segment piece)
  kept register _ _ exact := by
    rw [shift_in_length width register _ (by omega), exact]

theorem step_feeding {C : Type} [BlockCipher C] :
    step (C := C) direction width = (feeding direction width inside).step := by
  funext cipher register segment
  rw [step, RegisterRule.step]
  cases direction <;> rfl

variable (function : Block size → Block size)

/-- The enciphered text of a call, whichever side of it that is. -/
def fed (iv input : Bytes) : Bytes :=
  enciphered direction input
    ((feeding direction width inside).text function iv (Bytes.segments width input))

theorem fed_nil (iv : Bytes) : fed direction width inside function iv [] = [] := by
  cases direction
  · rw [fed, enciphered, Bytes.segments_nil, RegisterRule.text]
  · rfl

theorem fed_block (positive : 0 < width) (iv block rest : Bytes) (whole : block.length = width) :
    fed direction width inside function iv (block ++ rest) =
      enciphered direction block (Bytes.xor block (Block.onBytes function iv)) ++
        fed direction width inside function
          ((feeding direction width inside).follow function iv block) rest := by
  cases direction
  · rw [fed, enciphered, Bytes.segments_block width block rest positive whole]
    rfl
  · rfl

-- Behind whole segments the register holds the last bytes of all that was enciphered.
theorem behind_whole (positive : 0 < width) (input : Bytes) (count : Nat)
    (aligned : input.length = count * width) : ∀ iv : Bytes, iv.length = size →
    (feeding direction width inside).behind function iv (Bytes.segments width input) =
      (iv ++ fed direction width inside function iv input).rtake size := by
  apply Bytes.blocks_induction width (fun input => ∀ iv : Bytes, iv.length = size →
    (feeding direction width inside).behind function iv (Bytes.segments width input) =
      (iv ++ fed direction width inside function iv input).rtake size) ?none ?further input count
    aligned
  case none =>
    intro iv exact
    rw [fed_nil, List.append_nil, List.rtake, exact, Nat.sub_self, Bytes.segments_nil]
    rfl
  case further =>
    intro block rest whole ih iv exact
    let rule := feeding direction width inside
    have given : (enciphered direction block
        (Bytes.xor block (Block.onBytes function iv))).length = width := by
      cases direction
      · exact (RegisterRule.piece_length function iv block (by omega)).trans whole
      · exact whole
    have moved : rule.follow function iv block = (iv ++ enciphered direction block
        (Bytes.xor block (Block.onBytes function iv))).rtake size := by
      have shifted := shift_in_whole width iv _ (by omega) given
      rwa [exact] at shifted
    have later := ih _ (rule.follow_length function iv block exact)
    rw [fed_block direction width inside function positive iv block rest whole, ← List.append_assoc,
      ← ends_append, ← moved, ← later, Bytes.segments_block width block rest positive whole]
    rfl

theorem fed_length (positive : 0 < width) (iv input : Bytes) :
    (fed direction width inside function iv input).length = input.length := by
  cases direction
  · exact RegisterRule.text_length _ function iv input width positive inside
  · rfl

theorem fed_append (positive : 0 < width) (iv front rest : Bytes) (count : Nat)
    (aligned : front.length = count * width) :
    fed direction width inside function iv (front ++ rest) =
      fed direction width inside function iv front ++ fed direction width inside function
        ((feeding direction width inside).behind function iv (Bytes.segments width front))
          rest := by
  cases direction
  · rw [fed, enciphered, Bytes.segments_append width front rest positive count aligned,
      RegisterRule.text_append]
    rfl
  · rfl

theorem fed_split (positive : 0 < width) (iv input : Bytes) (count : Nat)
    (reached : count * width ≤ input.length) :
    fed direction width inside function iv input =
      fed direction width inside function iv (input.take (count * width)) ++
        fed direction width inside function
          ((feeding direction width inside).registerAt function width iv input count)
          (input.drop (count * width)) := by
  have cut := fed_append direction width inside function positive iv _ (input.drop (count * width))
    count (List.length_take_of_le reached)
  rwa [List.take_append_drop] at cut

theorem fed_front_length (positive : 0 < width) (iv input : Bytes) (count : Nat)
    (reached : count * width ≤ input.length) :
    (fed direction width inside function iv (input.take (count * width))).length = count * width :=
  (fed_length direction width inside function positive iv _).trans (List.length_take_of_le reached)

theorem fed_rest (positive : 0 < width) (iv input : Bytes) (count : Nat)
    (reached : count * width ≤ input.length) :
    (fed direction width inside function iv input).drop (count * width) =
      fed direction width inside function
        ((feeding direction width inside).registerAt function width iv input count)
        (input.drop (count * width)) := by
  rw [fed_split direction width inside function positive iv input count reached,
    List.drop_left' (fed_front_length direction width inside function positive iv input count
      reached)]

theorem register_at_fed (positive : 0 < width) (iv input : Bytes) (exact : iv.length = size)
    (count : Nat) (reached : count * width ≤ input.length) :
    (feeding direction width inside).registerAt function width iv input count =
      (iv ++ (fed direction width inside function iv input).take (count * width)).rtake size := by
  have front := behind_whole direction width inside function positive (input.take (count * width))
    count (List.length_take_of_le reached) iv exact
  rw [fed_split direction width inside function positive iv input count reached,
    List.take_left' (fed_front_length direction width inside function positive iv input count
      reached)]
  exact front

theorem behind_rest (positive : 0 < width) (register rest : Bytes) (exact : register.length = size)
    (short : rest.length < width) :
    let last := fed direction width inside function register rest
    (feeding direction width inside).behind function register (Bytes.segments width rest) =
      if last = [] then register
      else register.drop width ++ last ++ register.drop (size - width + last.length) := by
  intro last
  have reach : last.length = rest.length :=
    fed_length direction width inside function positive register rest
  -- Rests are shorter than a segment, so they are none or one segment.
  by_cases none : rest = []
  · have nothing : last = [] := List.length_eq_zero_iff.mp (by rw [reach, none, List.length_nil])
    rw [if_pos nothing, none, Bytes.segments_nil]
    rfl
  · have something : last ≠ [] := by
      rw [← List.length_pos_iff, reach, List.length_pos_iff]
      exact none
    have alone : Bytes.segments width rest = [rest] := by
      rw [Bytes.segments_cons width rest positive none, List.take_of_length_le (by omega),
        List.drop_eq_nil_of_le (by omega), Bytes.segments_nil]
    have written :
        last = enciphered direction rest (Bytes.xor rest (Block.onBytes function register)) := by
      cases direction
      · change RegisterRule.text _ function register (Bytes.segments width rest) = _
        rw [alone]
        exact List.append_nil _
      · rfl
    have room : last.length ≤ (register.drop (size - width)).length := by
      rw [List.length_drop]
      omega
    have moved : (feeding direction width inside).behind function register [rest] =
        shiftIn width register last := by
      rw [written]
      rfl
    rw [if_neg something, alone, moved, shiftIn, exact, Bytes.overlay_fitting _ _ room,
      List.drop_drop, List.append_assoc]

end Feeding

/-- How a text and the register behind it come from the input. -/
structure Chained {size : Nat} (function : Block size → Block size) (direction : Direction)
    (width : Nat) (iv input text register : Bytes) : Prop where
  length : text.length = input.length
  segment : ∀ index,
    let before := (enciphered direction input text).take (index * width)
    (text.drop (index * width)).take width = Bytes.xor ((input.drop (index * width)).take width)
      (Block.onBytes function ((iv ++ before).rtake size))
  -- A short last segment leaves the last bytes of the register where they were.
  next :
    let whole := input.length / width * width
    let full := (iv ++ (enciphered direction input text).take whole).rtake size
    let last := (enciphered direction input text).drop whole
    register = if last = [] then full
      else full.drop width ++ last ++ full.drop (size - width + last.length)

section Text
variable {size : Nat} (function : Block size → Block size) (width : Nat) (positive : 0 < width)
  (inside : width ≤ size)
include positive

theorem text_chained (direction : Direction) (iv input : Bytes) (exact : iv.length = size) :
    let rule := feeding direction width inside
    Chained function direction width iv input
      (rule.text function iv (Bytes.segments width input))
      (rule.behind function iv (Bytes.segments width input)) := by
  intro rule
  have register := register_at_fed direction width inside function positive iv input exact
  constructor
  case length => exact rule.text_length function iv input width positive inside
  case segment =>
    intro index before
    rw [rule.text_segment function iv input width positive inside index]
    by_cases reached : index * width ≤ input.length
    · rw [register index reached]
      rfl
    · rw [List.drop_eq_nil_of_le (by omega), List.take_nil, Bytes.xor_nil, Bytes.xor_nil]
  case next =>
    intro whole full last
    have reached : whole ≤ input.length := Nat.div_mul_le_self _ _
    have here : rule.registerAt function width iv input (input.length / width) = full :=
      register _ reached
    have there : fed direction width inside function full (input.drop whole) = last := by
      rw [← here]
      exact (fed_rest direction width inside function positive iv input _ reached).symm
    have exactly : full.length = size := by
      rw [← here]
      exact rule.behind_length function iv _ exact
    rw [Bytes.segments_split width input positive _ reached, rule.behind_append]
    change rule.behind function (rule.registerAt function width iv input _) _ = _
    rw [here, behind_rest direction width inside function positive full _ exactly
      (Bytes.rest_length width input positive), there]

theorem text_deciphered (input iv : Bytes) :
    let forth := feeding .encrypt width inside
    let back := feeding .decrypt width inside
    back.text function iv (Bytes.segments width (fed .encrypt width inside function iv input)) =
        input ∧
      back.behind function iv (Bytes.segments width (fed .encrypt width inside function iv input)) =
        forth.behind function iv (Bytes.segments width input) := by
  -- Deciphering goes through the registers of enciphering.
  intro forth back
  induction input using Bytes.segments_induction width positive generalizing iv with
  | none =>
      rw [fed_nil, Bytes.segments_nil]
      exact ⟨rfl, rfl⟩
  | further input some ih =>
      let piece := Bytes.xor (input.take width) (Block.onBytes function iv)
      let after := forth.follow function iv (input.take width)
      obtain ⟨text, register⟩ := ih after
      have short : (input.take width).length ≤ size := by
        rw [List.length_take]
        omega
      have written : fed .encrypt width inside function iv input =
          piece ++ fed .encrypt width inside function after (input.drop width) := by
        rw [fed, enciphered, Bytes.segments_cons width input positive some]
        rfl
      have cut := RegisterRule.segments_piece piece
        (fed .encrypt width inside function after (input.drop width)) input width positive some
        (RegisterRule.piece_length function iv _ short)
        (fed_length .encrypt width inside function positive after _)
      have restored : Bytes.xor piece (Block.onBytes function iv) = input.take width :=
        Bytes.xor_cancel _ _ (by rw [Block.on_bytes_length]; exact short)
      have same : back.follow function iv piece = after := rfl
      rw [written, cut, Bytes.segments_cons width input positive some]
      constructor
      · rw [RegisterRule.text, restored, same, text, List.take_append_drop]
      · exact register

end Text

structure Sized (size bits : Nat) : Prop where
  positive : 0 < size
  bounded : size ≤ maxModeBlock
  bytewise : bits % 8 = 0
  some : 0 < bits
  inside : bits / 8 ≤ size

theorem Sized.width {size bits : Nat} (sized : Sized size bits) : 0 < bits / 8 := by
  have := sized.bytewise
  have := sized.some
  omega

theorem crypt_through {C : Type} [BlockCipher C] {size : Nat} (bits : Nat) (sized : Sized size bits)
    (direction : Direction) (cipher : C) (blocks : BlockCipher.blockSize cipher = size)
    (iv input : Bytes) (exact : iv.length = size) (room : Nat) (fits : input.length ≤ room) :
    crypt direction cipher bits iv input room =
      (feeding direction (bits / 8) sized.inside).step.run cipher iv
      (Bytes.segments (bits / 8) input) := by
  have accepted := check_register_accepts cipher iv input room size blocks exact sized.positive
    sized.bounded fits
  have width : ¬(bits % 8 ≠ 0 ∨ bits = 0 ∨ size < bits / 8) := by
    obtain ⟨_, _, bytewise, some, inside⟩ := sized
    omega
  rw [crypt, accepted, ← step_feeding]
  exact if_neg width

section Calls
variable {C : Type} [BlockCipher C] {size : Nat} (function : Block size → Block size) (bits : Nat)
  (sized : Sized size bits)
include sized

theorem crypt_leaves (direction : Direction) (cipher : C) (iv input : Bytes) (room : Nat)
    (ready : Enciphers function cipher ∧ iv.length = size) (fits : input.length ≤ room) :
    (feeding direction (bits / 8) sized.inside).Leaves function (bits / 8) iv input
      (crypt direction cipher bits iv input room) := by
  rw [crypt_through bits sized direction cipher (ready.1.block_size function cipher) iv input
    ready.2 room fits]
  exact RegisterRule.run_leaves _ function cipher ready.1 iv input ready.2 (bits / 8)

theorem crypt_chained (direction : Direction) (cipher : C) (iv input buffer : Bytes)
    (ready : Enciphers function cipher ∧ iv.length = size) (fits : input.length ≤ buffer.length) :
    let call := crypt direction cipher bits iv input buffer.length
    let text := (call.output buffer).take input.length
    call.refusal = none ∧ Enciphers function call.cipher ∧
      call.output buffer = text ++ buffer.drop input.length ∧
      Chained function direction (bits / 8) iv input text call.register := by
  intro call text
  have leaves := crypt_leaves function bits sized direction cipher iv input buffer.length ready fits
  have output := leaves.output _ function sized.width sized.inside buffer fits
  have chained :=
    text_chained function (bits / 8) sized.width sized.inside direction iv input ready.2
  have written : text = (feeding direction (bits / 8) sized.inside).text function iv
      (Bytes.segments (bits / 8) input) := by
    change (call.output buffer).take input.length = _
    rw [output, List.take_left' chained.length]
  refine ⟨leaves.finished, leaves.steady, ?_, ?_⟩
  · rw [written]
    exact output
  · rw [written, leaves.next]
    exact chained

theorem crypt_undone (cipher other : C) (iv input buffer again : Bytes)
    (ready : Enciphers function cipher ∧ iv.length = size)
    (steady : Enciphers function other) (fits : input.length ≤ buffer.length)
    (fitsAgain : input.length ≤ again.length) :
    let there := encrypt cipher bits iv input buffer.length
    let back := decrypt other bits iv ((there.output buffer).take input.length) again.length
    back.refusal = none ∧ back.output again = input ++ again.drop input.length ∧
      back.register = there.register := by
  intro there back
  let cipherText := fed .encrypt (bits / 8) sized.inside function iv input
  have reach : cipherText.length = input.length :=
    fed_length .encrypt (bits / 8) sized.inside function sized.width iv input
  have forth :
      (feeding .encrypt (bits / 8) sized.inside).Leaves function (bits / 8) iv input there :=
    crypt_leaves function bits sized .encrypt cipher iv input buffer.length ready fits
  have text : (there.output buffer).take input.length = cipherText := by
    rw [forth.output _ function sized.width sized.inside buffer fits]
    exact List.take_left' reach
  have called : back = decrypt other bits iv cipherText again.length := by
    rw [← text]
  obtain ⟨restored, same⟩ := text_deciphered function (bits / 8) sized.width sized.inside input iv
  have leaves :
      (feeding .decrypt (bits / 8) sized.inside).Leaves function (bits / 8) iv cipherText back := by
    rw [called]
    exact crypt_leaves function bits sized .decrypt other iv cipherText again.length
      ⟨steady, ready.2⟩ (by omega)
  refine ⟨leaves.finished, ?_, ?_⟩
  · rw [leaves.output _ function sized.width sized.inside again (by omega), reach]
    exact congrArg (· ++ again.drop input.length) restored
  · rw [leaves.next, forth.next]
    exact same

theorem crypt_pieces (direction : Direction) (cipher : C) (iv : Bytes)
    (ready : Enciphers function cipher ∧ iv.length = size) (pieces : List Bytes)
    (aligned : ∀ piece ∈ pieces.dropLast, bits / 8 ∣ piece.length) (room : Nat)
    (fits : pieces.flatten.length ≤ room) :
    Progress.inPieces (crypt direction · bits) cipher iv pieces room =
      crypt direction cipher bits iv pieces.flatten room := by
  have through : ∀ (cipher : C) (iv piece : Bytes) (room : Nat),
      Enciphers function cipher ∧ iv.length = size → piece.length ≤ room →
      crypt direction cipher bits iv piece room =
        (feeding direction (bits / 8) sized.inside).step.run cipher iv
          (Bytes.segments (bits / 8) piece) := fun cipher iv piece room ready =>
    crypt_through bits sized direction cipher (ready.1.block_size function cipher) iv piece
      ready.2 room
  rw [through cipher iv _ room ready fits]
  apply Progress.in_pieces_exact _ _ (bits / 8) sized.width _ through ?kept cipher iv ready pieces
    aligned room fits
  case kept =>
    rintro cipher iv piece ⟨steady, exact⟩ after
    have leaves := (feeding direction (bits / 8) sized.inside).run_leaves function cipher steady iv
      piece exact (bits / 8)
    refine ⟨leaves.steady, ?_⟩
    rw [leaves.next, RegisterRule.behind_length _ function iv _ exact]

end Calls

/-- Over any function on blocks, each segment is added to the enciphered end of what the initial
register and the enciphered text before it make together. Decryption restores the input and ends
with the register of encryption, and in both directions a text may be cut into calls between
segments. -/
theorem chains_enciphered_text {C : Type} [BlockCipher C] {size : Nat}
    (function : Block size → Block size) (cipher : C) (steady : Enciphers function cipher)
    (positive : 0 < size) (bounded : size ≤ maxModeBlock) (bits : Nat) (bytewise : bits % 8 = 0)
    (least : 8 ≤ bits) (most : bits ≤ 8 * size) (iv : Bytes) (exact : iv.length = size) :
    (∀ direction input buffer, input.length ≤ buffer.length →
      let call := crypt direction cipher bits iv input buffer.length
      let text := (call.output buffer).take input.length
      call.refusal = none ∧ Enciphers function call.cipher ∧
        call.output buffer = text ++ buffer.drop input.length ∧
        Chained function direction (bits / 8) iv input text call.register) ∧
    (∀ other : C, Enciphers function other → ∀ input buffer again,
      input.length ≤ buffer.length → input.length ≤ again.length →
        let there := encrypt cipher bits iv input buffer.length
        let back := decrypt other bits iv ((there.output buffer).take input.length) again.length
        back.refusal = none ∧ back.output again = input ++ again.drop input.length ∧
          back.register = there.register) ∧
    (∀ direction pieces, (∀ piece ∈ pieces.dropLast, bits / 8 ∣ piece.length) → ∀ room,
      pieces.flatten.length ≤ room →
        Progress.inPieces (crypt direction · bits) cipher iv pieces room =
          crypt direction cipher bits iv pieces.flatten room) := by
  have sized : Sized size bits := ⟨positive, bounded, bytewise, by omega, by omega⟩
  have ready : Enciphers function cipher ∧ iv.length = size := ⟨steady, exact⟩
  refine ⟨?_, ?_, ?_⟩
  · intro direction input buffer
    exact crypt_chained function bits sized direction cipher iv input
      buffer ready
  · intro other working input buffer again
    exact crypt_undone function bits sized cipher other iv input buffer
      again ready working
  · intro direction
    exact crypt_pieces function bits sized direction cipher iv ready

/-- Two segments and half a one, whose register keeps a byte, enciphered at once and in two calls
and deciphered again. -/
theorem half_segment_restored :
    let cipher : BlockFunction 3 := ⟨Vector.reverse⟩
    let there := encrypt cipher 16 [7, 9, 11] [1, 2, 3, 4, 5] 6
    let back := decrypt cipher 16 [7, 9, 11] ((there.output (Bytes.zeros 6)).take 5) 5
    there.output (Bytes.zeros 6) = [10, 11, 8, 14, 11, 0] ∧ there.register = [14, 11, 14] ∧
      back.output (Bytes.zeros 5) = [1, 2, 3, 4, 5] ∧ back.register = there.register ∧
      Progress.inPieces (encrypt · 16) cipher [7, 9, 11] [[1, 2], [3, 4, 5]] 6 = there := by
  intro cipher there back
  obtain ⟨chained, undone, pieces⟩ := chains_enciphered_text cipher.apply cipher cipher.enciphers
    (by decide) (by decide) 16 (by decide) (by decide) (by decide) [7, 9, 11] rfl
  obtain ⟨_, restored, same⟩ := undone cipher cipher.enciphers [1, 2, 3, 4, 5] (Bytes.zeros 6)
    (Bytes.zeros 5) (by decide) (by decide)
  refine ⟨?_, ?_, restored, same, ?_⟩
  · decide +kernel
  · have last := (chained .encrypt [1, 2, 3, 4, 5] (Bytes.zeros 6) (by decide)).2.2.2.next
    exact last.trans (by decide +kernel)
  · exact pieces .encrypt [[1, 2], [3, 4, 5]] (by decide) 6 (by decide)

end SymmetricKey.Cfb
