import SymmetricKey.Bytes

/-!
Laws of byte strings: addition of a key over a text, the front of a caller's
buffer, comparison, and the two ways of cutting a string into blocks.
-/

namespace SymmetricKey.Bytes

@[simp] theorem xor_length (text key : Bytes) :
    (xor text key).length = min text.length key.length := by
  simp [xor]

theorem xor_nil (key : Bytes) : xor [] key = [] := rfl

theorem xor_comm (left right : Bytes) : xor left right = xor right left := by
  rw [xor, List.zipWith_comm, xor]
  simp only [UInt8.xor_comm]

theorem xor_assoc (first second third : Bytes) :
    xor (xor first second) third = xor first (xor second third) := by
  induction first generalizing second third with
  | nil => rfl
  | cons byte rest ih =>
      cases second with
      | nil => rfl
      | cons next second =>
          cases third with
          | nil => rfl
          | cons last third =>
              have tail := ih second third
              simp only [xor, List.zipWith_cons_cons, UInt8.xor_assoc] at tail ⊢
              rw [tail]

theorem xor_zeros (bytes : Bytes) : xor bytes (zeros bytes.length) = bytes := by
  induction bytes with
  | nil => rfl
  | cons byte rest ih =>
      simp only [xor, zeros, List.length_cons, List.replicate_succ, List.zipWith_cons_cons,
        UInt8.xor_zero] at ih ⊢
      rw [ih]

@[simp] theorem zeros_length (count : Nat) : (zeros count).length = count := List.length_replicate

theorem zeros_append (count more : Nat) : zeros count ++ zeros more = zeros (count + more) := by
  rw [zeros, zeros, zeros, List.replicate_append_replicate]

theorem zeros_take (count size : Nat) (short : size ≤ count) :
    (zeros count).take size = zeros size := by
  rw [zeros, List.take_replicate, Nat.min_eq_left short, zeros]

theorem zeros_sum (count : Nat) : xor (zeros count) (zeros count) = zeros count := by
  have blank := xor_zeros (zeros count)
  rwa [zeros_length] at blank

theorem zeros_xor (bytes : Bytes) : xor (zeros bytes.length) bytes = bytes := by
  rw [xor_comm, xor_zeros]

theorem xor_append (text more key further : Bytes) (aligned : text.length = key.length) :
    xor (text ++ more) (key ++ further) = xor text key ++ xor more further :=
  List.zipWith_append aligned

-- What the key has beyond the text is never looked at.
theorem xor_surplus (text key surplus : Bytes) (covered : text.length ≤ key.length) :
    xor text (key ++ surplus) = xor text key := by
  induction text generalizing key with
  | nil => rfl
  | cons byte rest ih =>
      cases key with
      | nil => simp at covered
      | cons top keys =>
          have tail := ih keys (by simpa using covered)
          simpa [xor] using tail

theorem xor_cut (text key : Bytes) (covered : text.length ≤ key.length) :
    xor text (key.take text.length) = xor text key := by
  have cut := xor_surplus text (key.take text.length) (key.drop text.length)
    (by rw [List.length_take]; omega)
  rw [List.take_append_drop] at cut
  exact cut.symm

theorem xor_cancel (text key : Bytes) (covered : text.length ≤ key.length) :
    xor (xor text key) key = text := by
  induction text generalizing key with
  | nil => rfl
  | cons byte rest ih =>
      cases key with
      | nil => simp at covered
      | cons top keys =>
          have tail := ih keys (by simpa using covered)
          have head : byte ^^^ top ^^^ top = byte := by
            rw [UInt8.xor_assoc, UInt8.xor_self, UInt8.xor_zero]
          simp only [xor, List.zipWith_cons_cons] at tail ⊢
          rw [head, tail]

theorem xor_bridge (left middle right : Bytes) (covered : left.length ≤ middle.length) :
    xor (xor left middle) (xor middle right) = xor left right := by
  rw [← xor_assoc, xor_cancel left middle covered]

theorem xor_inj (key left right : Bytes) (leftCovered : left.length ≤ key.length)
    (rightCovered : right.length ≤ key.length) : xor left key = xor right key ↔ left = right := by
  constructor
  · intro same
    rw [← xor_cancel left key leftCovered, same, xor_cancel right key rightCovered]
  · intro same
    rw [same]

theorem map_xor (bytes : Bytes) (pattern : UInt8) :
    bytes.map (· ^^^ pattern) = xor bytes (List.replicate bytes.length pattern) := by
  induction bytes with
  | nil => rfl
  | cons byte rest ih =>
      rw [List.map_cons, ih]
      rfl

theorem xor_take (text key : Bytes) (count : Nat) :
    (xor text key).take count = xor (text.take count) (key.take count) :=
  List.take_zipWith

@[simp] theorem mask_length (target key : Bytes) : (mask target key).length = target.length := by
  induction target generalizing key with
  | nil => rfl
  | cons byte target ih =>
      cases key with
      | nil => rfl
      | cons top key => rw [mask, List.length_cons, ih, List.length_cons]

theorem mask_exact (target key : Bytes) (covered : target.length ≤ key.length) :
    mask target key = xor target key := by
  induction target generalizing key with
  | nil => rfl
  | cons byte target ih =>
      cases key with
      | nil => simp at covered
      | cons top key =>
          rw [mask, ih key (by simpa using covered)]
          rfl

@[simp] theorem overlay_length (buffer front : Bytes) :
    (overlay buffer front).length = buffer.length := by
  simp only [overlay, List.length_append, List.length_take, List.length_drop]
  omega

theorem overlay_fitting (buffer front : Bytes) (fits : front.length ≤ buffer.length) :
    overlay buffer front = front ++ buffer.drop front.length := by
  rw [overlay, List.take_of_length_le fits]

theorem overlay_drop (buffer front : Bytes) (reach : Nat) (short : front.length ≤ reach) :
    (overlay buffer front).drop reach = buffer.drop reach := by
  by_cases fits : front.length ≤ buffer.length
  · have behind : front.length + (reach - front.length) = reach := by omega
    rw [overlay_fitting buffer front fits, List.drop_append, List.drop_eq_nil_of_le short,
      List.nil_append, List.drop_drop, behind]
  · have past : buffer.length ≤ reach := by omega
    rw [List.drop_eq_nil_of_le past, List.drop_eq_nil_of_le (by simpa using past)]

theorem overlay_nothing (buffer : Bytes) : overlay buffer [] = buffer := by
  rw [overlay, List.take_nil, List.nil_append, List.length_nil, List.drop_zero]

-- Laid over a front of the buffer that has room for it, a string is laid over the buffer.
theorem overlay_front (buffer front : Bytes) (reach : Nat) (inside : reach ≤ buffer.length)
    (short : front.length ≤ reach) :
    overlay (buffer.take reach) front ++ buffer.drop reach = overlay buffer front := by
  have room : front.length ≤ (buffer.take reach).length := by
    rw [List.length_take_of_le inside]
    exact short
  rw [overlay_fitting _ _ room, overlay_fitting _ _ (Nat.le_trans short inside), List.append_assoc,
    ← List.drop_append_of_le_length room, List.take_append_drop]

theorem overlay_whole (buffer front : Bytes) (even : front.length = buffer.length) :
    overlay buffer front = front := by
  rw [overlay_fitting _ _ (Nat.le_of_eq even), even, List.drop_length, List.append_nil]

theorem difference_bits_zero_iff (left right : Bytes) (aligned : left.length = right.length) :
    differenceBits left right = 0 ↔ left = right := by
  induction left generalizing right with
  | nil =>
      have empty : right = [] := List.length_eq_zero_iff.mp aligned.symm
      simp [differenceBits, empty]
  | cons byte rest ih =>
      cases right with
      | nil => simp at aligned
      | cons other others =>
          have tail := ih others (by simpa using aligned)
          simp [differenceBits, tail]

theorem agree_iff (left right : Bytes) : agree left right = true ↔ left = right := by
  by_cases aligned : left.length = right.length
  · simp [agree, aligned, difference_bits_zero_iff left right aligned]
  · have different : left ≠ right := fun same => aligned (congrArg List.length same)
    simp [agree, aligned, different]

theorem segments_nil (size : Nat) : segments size [] = [] := by
  rw [segments]
  simp

theorem segments_cons (size : Nat) (bytes : Bytes) (positive : 0 < size) (some : bytes ≠ []) :
    segments size bytes = bytes.take size :: segments size (bytes.drop size) := by
  rw [segments, if_neg]
  rintro (none | empty)
  · omega
  · exact some empty

/-- What holds of no bytes, and of a string once it holds behind its first segment, holds of every
string. -/
theorem segments_induction (size : Nat) (positive : 0 < size) (motive : Bytes → Prop)
    (none : motive []) (further : ∀ bytes, bytes ≠ [] → motive (bytes.drop size) → motive bytes)
    (bytes : Bytes) : motive bytes := by
  induction bytes using segments.induct size with
  | case1 bytes stop =>
      rcases stop with zero | empty
      · omega
      · rw [empty]
        exact none
  | case2 bytes go ih => exact further bytes (fun empty => go (Or.inr empty)) ih

theorem segments_flatten (size : Nat) (bytes : Bytes) (positive : 0 < size) :
    (segments size bytes).flatten = bytes := by
  induction bytes using segments_induction size positive with
  | none => rw [segments_nil, List.flatten_nil]
  | further bytes some ih =>
      rw [segments_cons size bytes positive some, List.flatten_cons, ih, List.take_append_drop]

theorem segments_length (size : Nat) (bytes : Bytes) (positive : 0 < size) :
    (segments size bytes).length = (bytes.length + size - 1) / size := by
  induction bytes using segments_induction size positive with
  | none =>
      have nothing : (size - 1) / size = 0 := Nat.div_eq_of_lt (by omega)
      simp [segments_nil, nothing]
  | further bytes some ih =>
      have long : 0 < bytes.length := List.length_pos_iff.mpr some
      rw [segments_cons size bytes positive some, List.length_cons, ih, List.length_drop]
      by_cases short : bytes.length ≤ size
      · have nothing : (bytes.length - size + size - 1) / size = 0 :=
          Nat.div_eq_of_lt (by omega)
        have one : (bytes.length + size - 1) / size = 1 :=
          Nat.div_eq_of_lt_le (by omega) (by omega)
        omega
      · have shifted : bytes.length + size - 1 = (bytes.length - size + size - 1) + size := by omega
        rw [shifted, Nat.add_div_right _ positive]

theorem begun_blocks_cover (length size : Nat) (positive : 0 < size) :
    length ≤ (length + size - 1) / size * size := by
  have split := Nat.div_add_mod (length + size - 1) size
  have short := Nat.mod_lt (length + size - 1) positive
  rw [Nat.mul_comm] at split
  omega

theorem segments_block (size : Nat) (block bytes : Bytes) (positive : 0 < size)
    (whole : block.length = size) :
    segments size (block ++ bytes) = block :: segments size bytes := by
  have some : block ++ bytes ≠ [] := by
    intro empty
    have none := congrArg List.length empty
    rw [List.length_append, List.length_nil] at none
    omega
  rw [segments_cons size _ positive some, List.take_left' whole, List.drop_left' whole]

/-- Block after block by position. -/
def wholeBlocks (size : Nat) (bytes : Bytes) : List Bytes :=
  (List.range (bytes.length / size)).map fun index => (bytes.drop (size * index)).take size

theorem whole_blocks_short (size : Nat) (bytes : Bytes) (short : bytes.length < size) :
    wholeBlocks size bytes = [] := by
  simp [wholeBlocks, Nat.div_eq_of_lt short]

theorem whole_blocks_cons (size : Nat) (block bytes : Bytes) (positive : 0 < size)
    (whole : block.length = size) :
    wholeBlocks size (block ++ bytes) = block :: wholeBlocks size bytes := by
  have count : (block ++ bytes).length / size = bytes.length / size + 1 := by
    rw [List.length_append, whole, Nat.add_comm, Nat.add_div_right _ positive]
  rw [wholeBlocks, count, List.range_succ_eq_map, List.map_cons, List.map_map]
  congr 1
  · rw [Nat.mul_zero, List.drop_zero, ← whole, List.take_left]
  · apply List.map_congr_left
    intro index _
    have further : size * (index + 1) = block.length + size * index := by
      rw [whole, Nat.mul_succ, Nat.add_comm]
    rw [Function.comp_apply, further, List.drop_length_add_append]

theorem whole_blocks_single (size : Nat) (block : Bytes) (positive : 0 < size)
    (whole : block.length = size) : wholeBlocks size block = [block] := by
  have blocks := whole_blocks_cons size block [] positive whole
  rwa [List.append_nil, whole_blocks_short size [] positive] at blocks

/-- What holds of no bytes, and of a string with one more block in front, holds of every string of
whole blocks. -/
theorem blocks_induction (size : Nat) (motive : Bytes → Prop) (none : motive [])
    (further : ∀ block rest, block.length = size → motive rest → motive (block ++ rest))
    (bytes : Bytes) (count : Nat) (aligned : bytes.length = count * size) : motive bytes := by
  induction count generalizing bytes with
  | zero =>
      have empty : bytes = [] := List.length_eq_zero_iff.mp (by simpa using aligned)
      rw [empty]
      exact none
  | succ count ih =>
      have room : bytes.length = count * size + size := by rw [aligned, Nat.succ_mul]
      have first : (bytes.take size).length = size := by
        rw [List.length_take]
        omega
      have rest := ih (bytes.drop size) (by rw [List.length_drop]; omega)
      rw [← List.take_append_drop size bytes]
      exact further _ _ first rest

theorem whole_blocks_append (size : Nat) (front bytes : Bytes) (positive : 0 < size)
    (count : Nat) (aligned : front.length = count * size) :
    wholeBlocks size (front ++ bytes) = wholeBlocks size front ++ wholeBlocks size bytes := by
  apply blocks_induction size (fun front => wholeBlocks size (front ++ bytes) =
    wholeBlocks size front ++ wholeBlocks size bytes) ?none ?further front count aligned
  case none => simp [whole_blocks_short size [] positive]
  case further =>
    intro block rest whole ih
    rw [List.append_assoc, whole_blocks_cons size _ _ positive whole, ih,
      whole_blocks_cons size _ _ positive whole, List.cons_append]

theorem complete_length (size : Nat) (bytes : Bytes) :
    (bytes.take (bytes.length / size * size)).length = bytes.length / size * size :=
  List.length_take_of_le (Nat.div_mul_le_self _ _)

theorem rest_length (size : Nat) (bytes : Bytes) (positive : 0 < size) :
    (bytes.drop (bytes.length / size * size)).length < size := by
  rw [List.length_drop, Nat.mul_comm, ← Nat.mod_eq_sub_mul_div]
  exact Nat.mod_lt _ positive

theorem whole_blocks_take (size : Nat) (bytes : Bytes) (positive : 0 < size) :
    wholeBlocks size (bytes.take (bytes.length / size * size)) = wholeBlocks size bytes := by
  have cut := whole_blocks_append size _ (bytes.drop (bytes.length / size * size)) positive _
    (complete_length size bytes)
  rwa [List.take_append_drop, whole_blocks_short size _ (rest_length size bytes positive),
    List.append_nil, eq_comm] at cut

-- Behind whole blocks a string is cut as if it stood alone.
theorem segments_append (size : Nat) (front bytes : Bytes) (positive : 0 < size)
    (count : Nat) (aligned : front.length = count * size) :
    segments size (front ++ bytes) = segments size front ++ segments size bytes := by
  apply blocks_induction size (fun front => segments size (front ++ bytes) =
    segments size front ++ segments size bytes) ?none ?further front count aligned
  case none => rw [segments_nil, List.nil_append, List.nil_append]
  case further =>
    intro block rest whole ih
    rw [List.append_assoc, segments_block size _ _ positive whole, ih,
      segments_block size _ _ positive whole, List.cons_append]

theorem segments_split (size : Nat) (bytes : Bytes) (positive : 0 < size) (count : Nat)
    (reached : count * size ≤ bytes.length) :
    segments size bytes =
      segments size (bytes.take (count * size)) ++ segments size (bytes.drop (count * size)) := by
  have front : (bytes.take (count * size)).length = count * size :=
    List.length_take_of_le reached
  have cut := segments_append size _ (bytes.drop (count * size)) positive count front
  rwa [List.take_append_drop] at cut

theorem segments_front (size : Nat) (bytes : Bytes) (positive : 0 < size) (count : Nat)
    (reached : count * size ≤ bytes.length) :
    (segments size (bytes.take (count * size))).length = count := by
  rw [segments_length size _ positive, List.length_take_of_le reached,
    Nat.add_sub_assoc positive, Nat.mul_comm, Nat.mul_add_div positive, Nat.div_eq_of_lt (by omega),
    Nat.add_zero]

theorem segments_take (size : Nat) (bytes : Bytes) (positive : 0 < size) (count : Nat)
    (reached : count * size ≤ bytes.length) :
    (segments size bytes).take count = segments size (bytes.take (count * size)) := by
  rw [segments_split size bytes positive count reached,
    List.take_left' (segments_front size bytes positive count reached)]

theorem segments_aligned (size : Nat) (bytes : Bytes) (positive : 0 < size) (count : Nat)
    (aligned : bytes.length = count * size) :
    ∀ segment ∈ segments size bytes, segment.length = size := by
  apply blocks_induction size (fun bytes => ∀ segment ∈ segments size bytes, segment.length = size)
    ?none ?further bytes count aligned
  case none =>
    intro segment member
    rw [segments_nil] at member
    cases member
  case further =>
    intro block rest whole ih segment member
    rw [segments_block size _ _ positive whole] at member
    rcases List.mem_cons.mp member with same | later
    · rw [same]
      exact whole
    · exact ih segment later

theorem segments_whole (size : Nat) (bytes : Bytes) (positive : 0 < size) (count : Nat)
    (aligned : bytes.length = count * size) : segments size bytes = wholeBlocks size bytes := by
  apply blocks_induction size (fun bytes => segments size bytes = wholeBlocks size bytes)
    ?none ?further bytes count aligned
  case none => rw [segments_nil, whole_blocks_short size [] positive]
  case further =>
    intro block rest whole ih
    rw [segments_block size _ _ positive whole, ih, whole_blocks_cons size _ _ positive whole]

theorem complete_blocks_short (size : Nat) (bytes : Bytes) (short : bytes.length < size) :
    completeBlocks size bytes = ([], bytes) := by
  have positive : size ≠ 0 := by omega
  have nothing : bytes.drop (size - 1) = [] := List.drop_eq_nil_of_le (by omega)
  rw [completeBlocks, if_neg positive]
  split
  · rfl
  · next found => rw [nothing] at found; cases found

theorem complete_blocks_cons (size : Nat) (block bytes : Bytes) (positive : 0 < size)
    (whole : block.length = size) :
    completeBlocks size (block ++ bytes) =
      (block :: (completeBlocks size bytes).1, (completeBlocks size bytes).2) := by
  have reached : (block ++ bytes).drop (size - 1) ≠ [] := by
    intro none
    have reach := congrArg List.length none
    simp only [List.length_drop, List.length_append, List.length_nil] at reach
    omega
  have first : (block ++ bytes).take size = block := by rw [← whole, List.take_left]
  have others : (block ++ bytes).drop size = bytes := by rw [← whole, List.drop_left]
  rw [completeBlocks, if_neg (by omega)]
  split
  · next none => exact absurd none reached
  · rw [first, others]

-- Whole blocks pass through, and what follows is cut as if it stood alone.
theorem complete_blocks_append (size : Nat) (front bytes : Bytes) (positive : 0 < size)
    (count : Nat) (aligned : front.length = count * size) :
    completeBlocks size (front ++ bytes) =
      (wholeBlocks size front ++ (completeBlocks size bytes).1, (completeBlocks size bytes).2) := by
  apply blocks_induction size (fun front => completeBlocks size (front ++ bytes) =
    (wholeBlocks size front ++ (completeBlocks size bytes).1, (completeBlocks size bytes).2))
    ?none ?further front count aligned
  case none => simp [whole_blocks_short size [] positive]
  case further =>
    intro block rest whole ih
    rw [List.append_assoc, complete_blocks_cons size _ _ positive whole, ih,
      whole_blocks_cons size _ _ positive whole, List.cons_append]

theorem complete_blocks_exact (size : Nat) (bytes : Bytes) (positive : 0 < size) :
    completeBlocks size bytes =
      (wholeBlocks size bytes, bytes.drop (bytes.length / size * size)) := by
  have cut := complete_blocks_append size _ (bytes.drop (bytes.length / size * size)) positive _
    (complete_length size bytes)
  rwa [List.take_append_drop, complete_blocks_short size _ (rest_length size bytes positive),
    List.append_nil, whole_blocks_take size bytes positive] at cut

end SymmetricKey.Bytes
