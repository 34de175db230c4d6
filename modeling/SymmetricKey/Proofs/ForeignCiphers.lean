import SymmetricKey.Catalogue.Algorithm
import SymmetricKey.Proofs.CheckedBuffers

/-!
Ciphers that somebody else supplies, as they are called from a machine's
buffers. All that is known of such a cipher is that its block size does not
change and that it writes into the range it is given. A plain one is also a
cipher in the sense of the library.
-/

namespace SymmetricKey

/-- What a call has made of the range for its output, and what it was made with. -/
structure Written (C : Type) where
  refusal : Option Error
  output : Bytes
  after : C

namespace Written

variable {C : Type}

def outcome (written : Written C) : Except Error Bytes :=
  match written.refusal with
  | none => .ok written.output
  | some cause => .error cause

theorem outcome_refused {State : Type} {written : Written C} {answer : Except Error Bytes × State}
    {state : State} (same : answer = (written.outcome, state)) (refused : written.refusal.isSome) :
    ∃ cause, written.refusal = some cause ∧ answer = (.error cause, state) := by
  obtain ⟨cause, because⟩ := Option.isSome_iff_exists.mp refused
  exact ⟨cause, because, by rw [same, outcome, because]⟩

theorem outcome_given {State : Type} {written : Written C} {answer : Except Error Bytes × State}
    {state : State} (same : answer = (written.outcome, state)) (given : ¬written.refusal.isSome) :
    written.refusal = none ∧ answer = (.ok written.output, state) := by
  have none := Option.not_isSome_iff_eq_none.mp given
  exact ⟨none, by rw [same, outcome, none]⟩

-- An answer is laid over the output; a refusal leaves it as it was.
def ofAnswer {room : Nat} (output : Bytes) : Except Error (Block room) × C → Written C
  | (.error cause, after) => { refusal := some cause, output, after }
  | (.ok block, after) => { refusal := none, output := output.overlay block.toList, after }

theorem of_answer_after {room : Nat} (output : Bytes) (answer : Except Error (Block room) × C) :
    (ofAnswer output answer).after = answer.2 := by
  rcases answer with ⟨cause | block, after⟩ <;> rfl

theorem of_answer_length {room : Nat} (output : Bytes) (answer : Except Error (Block room) × C) :
    (ofAnswer output answer).output.length = output.length := by
  rcases answer with ⟨cause | block, after⟩
  · rfl
  · exact Bytes.overlay_length output block.toList

theorem answer_refused {room : Nat} (output : Bytes) (answer : Except Error (Block room) × C)
    (written : Written C) (same : written = ofAnswer output answer)
    (refused : written.refusal.isSome) :
    ∃ cause after, answer = (.error cause, after) ∧
      written = { refusal := some cause, output, after } := by
  rcases answer with ⟨cause | block, after⟩
  · exact ⟨cause, after, rfl, same⟩
  · rw [same] at refused
    cases refused

theorem answer_given {room : Nat} (output : Bytes) (answer : Except Error (Block room) × C)
    (written : Written C) (same : written = ofAnswer output answer)
    (given : ¬written.refusal.isSome) :
    ∃ block after, answer = (.ok block, after) ∧
      written = { refusal := none, output := output.overlay block.toList, after } := by
  rcases answer with ⟨cause | block, after⟩
  · rw [same] at given
    cases given rfl
  · exact ⟨block, after, rfl, same⟩

theorem answer_whole {room : Nat} (output : Bytes) (even : room = output.length)
    (answer : Except Error (Block room) × C) (written : Written C)
    (same : written = ofAnswer output answer) (given : ¬written.refusal.isSome) :
    ∃ block after, answer = (.ok block, after) ∧
      written = { refusal := none, output := block.toList, after } := by
  obtain ⟨block, after, answered, laid⟩ := answer_given output answer written same given
  rw [Bytes.overlay_whole output block.toList (block.length_toList.trans even)] at laid
  exact ⟨block, after, answered, laid⟩

theorem of_answer_front {room : Nat} (buffer : Bytes) (fits : room ≤ buffer.length)
    (answer : Except Error (Block room) × C) :
    { ofAnswer (buffer.take room) answer with
        output := (ofAnswer (buffer.take room) answer).output ++ buffer.drop room } =
      ofAnswer buffer answer := by
  rcases answer with ⟨cause | block, after⟩
  · simp only [ofAnswer, List.take_append_drop]
  · have front :=
      Bytes.overlay_front buffer block.toList room fits (Nat.le_of_eq block.length_toList)
    simp only [ofAnswer, front]

theorem of_answer_map {Other : Type} {room : Nat} (wrap : C → Other) (output : Bytes)
    (answer : Except Error (Block room) × C) :
    ofAnswer output (answer.1, wrap answer.2) =
      { refusal := (ofAnswer output answer).refusal, output := (ofAnswer output answer).output,
        after := wrap (ofAnswer output answer).after } := by
  rcases answer with ⟨cause | block, after⟩ <;> rfl

end Written

/-- The block size may be any number, whatever the blocks that are taken. A call may be refused
after something was written. -/
class ForeignCipher (C : Type) where
  blockSize : C → Nat
  crypt : Direction → C → (input output : Bytes) → Written C
  constant : ∀ direction cipher input output,
    blockSize (crypt direction cipher input output).after = blockSize cipher
  inside : ∀ direction cipher input output,
    (crypt direction cipher input output).output.length = output.length

/-- The calls of the machine are those of the library. -/
structure Plain (C : Type) [ForeignCipher C] [BlockCipher C] : Prop where
  size : ∀ cipher : C, ForeignCipher.blockSize cipher = BlockCipher.blockSize cipher
  written : ∀ direction (cipher : C) input output,
    ForeignCipher.crypt direction cipher input output =
      Written.ofAnswer output (BlockCipher.cryptBlock direction cipher input output.length)

-- A keyed permutation looks at both lengths before it writes.
instance {C : Type} [BlockPermutation C] : ForeignCipher C where
  blockSize _ := BlockPermutation.size C
  crypt direction cipher input output :=
    .ofAnswer output (BlockCipher.cryptBlock direction cipher input output.length)
  constant _ _ _ _ := rfl
  inside _ _ _ _ := Written.of_answer_length _ _

theorem BlockPermutation.plain {C : Type} [BlockPermutation C] : Plain C :=
  ⟨fun _ => rfl, fun _ _ _ _ => rfl⟩

namespace ForeignCipher

variable {C : Type} [ForeignCipher C]

def cryptFront (direction : Direction) (cipher : C) (input buffer : Bytes) (last : Nat) :
    Checked (Written C) := do
  let range ← Checked.slice buffer 0 last
  let written := crypt direction cipher input range
  .ok { written with output := Checked.spliced buffer 0 last written.output }

theorem crypt_front_runs (direction : Direction) (cipher : C) (input buffer : Bytes) (last : Nat)
    (fits : last ≤ buffer.length) :
    ∃ written, cryptFront direction cipher input buffer last = .ok written ∧
      written.output.length = buffer.length ∧ blockSize written.after = blockSize cipher ∧
      ∀ [BlockCipher C], Plain C →
        written = .ofAnswer buffer (BlockCipher.cryptBlock direction cipher input last) := by
  have range := List.length_take_of_le fits
  refine ⟨_, by rw [cryptFront, Checked.slice_front buffer last fits, Checked.ok_bind], ?_, ?_, ?_⟩
  · rw [Checked.spliced_front, List.length_append, inside, range, List.length_drop]
    omega
  · exact constant direction cipher input _
  · intro _ plain
    have answer := plain.written direction cipher input (buffer.take last)
    rw [range] at answer
    rw [answer]
    exact Written.of_answer_front buffer fits _

end ForeignCipher

namespace KeyedCipher

variable {Engine : Type} [ForeignCipher Engine]

def reportedSize : KeyedCipher Engine → Nat
  | aes cipher => BlockCipher.blockSize cipher
  | aria cipher => BlockCipher.blockSize cipher
  | cast128 cipher => BlockCipher.blockSize cipher
  | cast256 cipher => BlockCipher.blockSize cipher
  | serpent cipher => BlockCipher.blockSize cipher
  | twofish cipher => BlockCipher.blockSize cipher
  | sm4 cipher => BlockCipher.blockSize cipher
  | tea cipher => BlockCipher.blockSize cipher
  | xtea cipher => BlockCipher.blockSize cipher
  | engine cipher => ForeignCipher.blockSize cipher

-- A built-in cipher looks at both lengths before it writes.
def write (direction : Direction) (keyed : KeyedCipher Engine) (input output : Bytes) :
    Written (KeyedCipher Engine) :=
  let builtIn {C : Type} [BlockPermutation C] (cipher : C) :=
    Written.ofAnswer output (BlockPermutation.runExactly direction cipher input output.length,
      keyed)
  match keyed with
  | aes cipher => builtIn cipher
  | aria cipher => builtIn cipher
  | cast128 cipher => builtIn cipher
  | cast256 cipher => builtIn cipher
  | serpent cipher => builtIn cipher
  | twofish cipher => builtIn cipher
  | sm4 cipher => builtIn cipher
  | tea cipher => builtIn cipher
  | xtea cipher => builtIn cipher
  | engine cipher =>
      let written := ForeignCipher.crypt direction cipher input output
      { refusal := written.refusal, output := written.output, after := engine written.after }

instance : ForeignCipher (KeyedCipher Engine) where
  blockSize := reportedSize
  crypt := write
  constant direction keyed input output := by
    cases keyed with
    | engine cipher => exact ForeignCipher.constant direction cipher input output
    | _ => exact congrArg reportedSize (Written.of_answer_after _ _)
  inside direction keyed input output := by
    cases keyed with
    | engine cipher => exact ForeignCipher.inside direction cipher input output
    | _ => exact Written.of_answer_length _ _

theorem plain [BlockCipher Engine] (plain : Plain Engine) : Plain (KeyedCipher Engine) where
  size keyed := by
    cases keyed with
    | engine cipher => exact plain.size cipher
    | _ => rfl
  written direction keyed input output := by
    cases keyed with
    | engine cipher =>
        have same := plain.written direction cipher input output
        have wrapped := Written.of_answer_map engine output
          (BlockCipher.cryptBlock direction cipher input output.length)
        rw [← same] at wrapped
        exact wrapped.symm
    | _ => rfl

end KeyedCipher

theorem Attempt.bind_refused {α β : Type} (step : Attempt α) (next : α → Attempt β) (cause : Error)
    (refused : step.run.value = .error cause) : (step >>= next).run.value = .error cause := by
  change (ExceptT.bindCont next step.run.value).value = .error cause
  rw [refused]
  rfl

namespace Checked

def andThen {Value Result : Type} (call : Checked (Except Error Value))
    (next : Value → Checked (Except Error Result)) : Checked (Except Error Result) := do
  match ← call with
  | .error cause => .ok (.error cause)
  | .ok value => next value

section Makes
variable {Result Other : Type} (sized : Result → Prop) (plain : Prop)
  (alike : Result → Other → Prop)

def Agrees : Except Error Result → Except Error Other → Prop
  | .error cause, .error other => cause = other
  | .ok result, .ok other => alike result other
  | _, _ => False

/-- The call comes to its end, and what it makes has the right sizes. If everything is plain it
agrees with the library. -/
def Makes (call : Checked (Except Error Result)) (library : Except Error Other) : Prop :=
  ∃ made, call = .ok made ∧ (∀ result, made = .ok result → sized result) ∧
    (plain → Agrees alike made library)

variable {alike} in
theorem agrees_refused {cause : Error} {library : Except Error Other}
    (agrees : Agrees alike (.error cause) library) : library = .error cause := by
  cases library with
  | error other => exact congrArg Except.error (Eq.symm agrees)
  | ok other => cases agrees

variable {alike} in
theorem agrees_given {result : Result} {library : Except Error Other}
    (agrees : Agrees alike (.ok result) library) :
    ∃ other, library = .ok other ∧ alike result other := by
  cases library with
  | error other => cases agrees
  | ok other => exact ⟨other, rfl, agrees⟩

variable {sized plain alike} in
theorem makes_refused {cause : Error} {library : Except Error Other}
    (same : plain → library = .error cause) :
    Makes sized plain alike (.ok (.error cause)) library := by
  refine ⟨_, rfl, ?_, ?_⟩
  · rintro _ ⟨⟩
  · intro here
    rw [same here]
    rfl

theorem makes_refusal (cause : Error) :
    Makes sized plain alike (.ok (.error cause)) (.error cause) :=
  makes_refused fun _ => rfl

theorem makes_result (result : Result) (other : Other) (right : sized result)
    (same : plain → alike result other) :
    Makes sized plain alike (.ok (.ok result)) (.ok other) := by
  refine ⟨_, rfl, ?_, same⟩
  rintro _ ⟨⟩
  exact right

variable {sized plain alike} in
theorem makes_further {Value : Type} {sizedValue : Value → Prop}
    {call : Checked (Except Error Value)} {next : Value → Checked (Except Error Result)}
    {step : Attempt Value} {rule : Value → Attempt Other}
    (first : Makes sizedValue plain Eq call step.run.value)
    (further : ∀ value, sizedValue value →
      Makes sized plain alike (next value) (rule value).run.value) :
    Makes sized plain alike (call.andThen next) (step >>= rule).run.value := by
  obtain ⟨made, ran, right, same⟩ := first
  change Makes sized plain alike _ (ExceptT.bindCont rule step.run.value).value
  rw [andThen, ran, ok_bind]
  cases made with
  | error cause =>
      apply makes_refused
      intro here
      rw [agrees_refused (same here)]
      rfl
  | ok value =>
      obtain ⟨made, ran, kept, agrees⟩ := further value (right value rfl)
      refine ⟨made, ran, kept, ?_⟩
      intro here
      obtain ⟨_, given, rfl⟩ := agrees_given (same here)
      rw [given]
      exact agrees here

variable {sized plain alike} in
theorem makes_map {Made Shown : Type} (sizedMade : Made → Prop) (alikeMade : Made → Shown → Prop)
    (form : Result → Made) (shape : Other → Shown) {call : Checked (Except Error Result)}
    {library : Except Error Other} (first : Makes sized plain alike call library)
    (right : ∀ result, sized result → sizedMade (form result))
    (same : ∀ result other, alike result other → alikeMade (form result) (shape other)) :
    Makes sizedMade plain alikeMade (call.andThen fun result => .ok (.ok (form result)))
      (library.map shape) := by
  obtain ⟨made, ran, kept, agrees⟩ := first
  rw [andThen, ran, ok_bind]
  cases made with
  | error cause =>
      apply makes_refused
      intro here
      rw [agrees_refused (agrees here)]
      rfl
  | ok result =>
      refine ⟨_, rfl, ?_, ?_⟩
      · rintro _ ⟨⟩
        exact right result (kept result rfl)
      · intro here
        obtain ⟨other, given, shown⟩ := agrees_given (agrees here)
        rw [given]
        exact same result other shown

def tagOnce (call : Checked (Except Error Result)) (tag : Bytes)
    (next : Result → Checked (Written Unit)) : Checked (Written Unit) := do
  match ← call with
  | .error cause => .ok { refusal := some cause, output := tag, after := () }
  | .ok result => next result

/-- The call comes to its end, and a refusal leaves the tag as it was. If everything is plain the
tag is that of the library. -/
def Tags (tag : Bytes) (call : Checked (Written Unit)) (library : Except Error Bytes) : Prop :=
  ∃ left, call = .ok left ∧ (left.refusal.isSome → left.output = tag) ∧
    (plain → library = left.outcome)

variable {sized plain alike} in
theorem tag_once_tags {call : Checked (Except Error Result)} {tag : Bytes}
    {next : Result → Checked (Written Unit)} {step : Attempt Other} {rule : Other → Attempt Bytes}
    (first : Makes sized plain alike call step.run.value)
    (further : ∀ result, sized result → ∃ left, next result = .ok left ∧
      (left.refusal.isSome → left.output = tag) ∧
      (plain → ∀ other, alike result other → (rule other).run.value = left.outcome)) :
    Tags plain tag (tagOnce call tag next) (step >>= rule).run.value := by
  obtain ⟨made, ran, right, agrees⟩ := first
  rw [tagOnce, ran, ok_bind]
  cases made with
  | error cause =>
      refine ⟨_, rfl, fun _ => rfl, ?_⟩
      intro here
      exact Attempt.bind_refused _ _ cause (agrees_refused (agrees here))
  | ok result =>
      obtain ⟨left, tagged, spared, same⟩ := further result (right result rfl)
      refine ⟨left, tagged, spared, ?_⟩
      intro here
      obtain ⟨other, given, shown⟩ := agrees_given (agrees here)
      exact (Attempt.bind_value _ _ other given).trans (same here other shown)

end Makes

end Checked

namespace KeySizes

def checkedContains : KeySizes → Nat → Checked Bool
  | fixed sizes, length => .ok (sizes.contains length)
  | range min max step, length =>
      if min ≤ length ∧ length ≤ max then do
        let excess ← Checked.subtract length min
        let rest ← Checked.remainder excess (Nat.max step 1)
        .ok (rest == 0)
      else .ok false

theorem checked_contains_exact (sizes : KeySizes) (length : Nat) :
    sizes.checkedContains length = .ok (sizes.contains length) := by
  cases sizes with
  | fixed sizes => rfl
  | range min max step =>
      rw [checkedContains, contains]
      by_cases inside : min ≤ length ∧ length ≤ max
      · rw [if_pos inside, Checked.subtract_within _ _ inside.1, Checked.ok_bind,
          Checked.remainder_within _ _ (Nat.le_max_right step 1), Checked.ok_bind, Except.ok.injEq,
          Bool.eq_iff_iff, beq_iff_eq, decide_eq_true_eq]
        exact ⟨fun rest => ⟨inside.1, inside.2, rest⟩, fun all => all.2.2⟩
      · rw [if_neg inside, Except.ok.injEq, eq_comm, decide_eq_false_iff_not]
        exact fun all => inside ⟨all.1, all.2.1⟩

end KeySizes

namespace CipherAlgorithm

variable {Engine : Type}

/-- A machine word counts the bits of the key, if the key is taken. -/
def Counts (algorithm : CipherAlgorithm Engine) (key : Bytes) : Prop :=
  algorithm.keySizes.contains key.length = true → key.length * 8 < 2 ^ 64

-- The length of the key in bits goes into a log record.
def checkedWithKey (algorithm : CipherAlgorithm Engine) (key : Bytes) :
    Checked (Except Error (KeyedCipher Engine)) := do
  let listed ← algorithm.keySizes.checkedContains key.length
  if listed then
    let _bits ← Checked.multiply key.length 8
    .ok (algorithm.expand key)
  else .ok (.error .invalidKeyLength)

theorem checked_with_key_exact (algorithm : CipherAlgorithm Engine) (key : Bytes)
    (counted : algorithm.Counts key) :
    algorithm.checkedWithKey key = .ok (algorithm.withKey key).run.value := by
  rw [checkedWithKey, KeySizes.checked_contains_exact, Checked.ok_bind, withKey]
  by_cases listed : algorithm.keySizes.contains key.length = true
  · rw [if_pos listed, if_pos listed, Checked.multiply_within _ _ (counted listed)]
    rfl
  · rw [if_neg listed, if_neg listed]
    rfl

theorem checked_with_key_makes (plain : Prop) (algorithm : CipherAlgorithm Engine) (key : Bytes)
    (counted : algorithm.Counts key) :
    Checked.Makes (fun _ => True) plain Eq (algorithm.checkedWithKey key)
      (algorithm.withKey key).run.value := by
  rw [checked_with_key_exact algorithm key counted]
  cases (algorithm.withKey key).run.value with
  | error cause => exact Checked.makes_refusal _ _ _ cause
  | ok cipher => exact Checked.makes_result _ _ _ cipher cipher trivial fun _ => rfl

end CipherAlgorithm

end SymmetricKey
