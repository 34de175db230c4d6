import SymmetricKey.BlockCipher.Keyed
import SymmetricKey.Confidentiality.Segments

/-!
What a proof may know of a cipher. A cipher that never refuses is a function on
blocks: it may keep count of its calls, but no use of it changes its answers.
Of any cipher, also one that refuses, the blocks that it was asked to encipher
can be written down without changing what a caller sees.
-/

namespace SymmetricKey

namespace Block

theorem of_front_to_list (size : Nat) (bytes : Bytes) (exact : bytes.length = size) :
    (ofFront size bytes).toList = bytes := by
  subst exact
  apply List.ext_getElem
  · simp
  · intro index left right
    simp [ofFront]

theorem of_bytes_of_list {size : Nat} (block : Block size) :
    ofBytes? size block.toList = some block := by
  have exact : block.toList.length = size := Vector.length_toList
  rw [ofBytes?, dif_pos exact]
  rfl

/-- A function on blocks at the front of a string. -/
def onBytes {size : Nat} (function : Block size → Block size) (bytes : Bytes) : Bytes :=
  (function (ofFront size bytes)).toList

@[simp] theorem on_bytes_length {size : Nat} (function : Block size → Block size) (bytes : Bytes) :
    (onBytes function bytes).length = size := by
  simp [onBytes]

theorem of_front_of_list {size : Nat} (block : Block size) : ofFront size block.toList = block := by
  apply Vector.toList_inj.mp
  exact of_front_to_list size block.toList (by simp)

theorem on_bytes_undone {size : Nat} (forth back : Block size → Block size)
    (undone : ∀ block, back (forth block) = block) (bytes : Bytes) (exact : bytes.length = size) :
    onBytes back (onBytes forth bytes) = bytes := by
  rw [onBytes, onBytes, of_front_of_list, undone]
  exact of_front_to_list size bytes exact

end Block

/-- The cipher enciphers by one function whatever it is used for in between. The states that it
may come to are given, so that a cipher with a memory of its own is not left out. -/
def Enciphers {C : Type} [BlockCipher C] {size : Nat} (function : Block size → Block size)
    (cipher : C) : Prop :=
  ∃ reached : C → Prop, reached cipher ∧ ∀ state, reached state →
    BlockCipher.blockSize state = size ∧ ∀ block : Block size, ∃ next, reached next ∧
      BlockCipher.encryptBlock state block.toList size = (.ok (function block), next)

namespace Enciphers

variable {C : Type} [BlockCipher C] {size : Nat}

theorem block_size (function : Block size → Block size) (cipher : C)
    (steady : Enciphers function cipher) : BlockCipher.blockSize cipher = size := by
  obtain ⟨reached, here, closed⟩ := steady
  exact (closed cipher here).1

theorem call (function : Block size → Block size) (cipher : C)
    (steady : Enciphers function cipher) (input : Bytes) (exact : input.length = size) :
    ∃ next, Enciphers function next ∧ BlockCipher.encryptBlock cipher input size =
      (.ok (function (Block.ofFront size input)), next) := by
  obtain ⟨reached, here, closed⟩ := steady
  obtain ⟨next, kept, answer⟩ := (closed cipher here).2 (Block.ofFront size input)
  rw [Block.of_front_to_list size input exact] at answer
  exact ⟨next, ⟨reached, kept, closed⟩, answer⟩

theorem engine (function : Block size → Block size) (cipher : C)
    (steady : Enciphers function cipher) : Enciphers function (KeyedCipher.engine cipher) := by
  obtain ⟨reached, here, closed⟩ := steady
  refine ⟨fun state => ∃ inner, state = .engine inner ∧ reached inner, ⟨cipher, rfl, here⟩, ?_⟩
  rintro state ⟨inner, rfl, reachable⟩
  refine ⟨(closed inner reachable).1, fun block => ?_⟩
  obtain ⟨next, kept, answer⟩ := (closed inner reachable).2 block
  refine ⟨.engine next, ⟨next, rfl, kept⟩, ?_⟩
  have same : BlockCipher.encryptBlock (KeyedCipher.engine inner) block.toList size =
      ((BlockCipher.encryptBlock inner block.toList size).1,
        .engine (BlockCipher.encryptBlock inner block.toList size).2) := rfl
  rw [same, answer]

end Enciphers

/-- Calls in one direction are answered by the function, and lead from these states to such states
again. -/
def Answers {C : Type} [BlockCipher C] {size : Nat} (direction : Direction)
    (function : Block size → Block size) (reached : C → Prop) : Prop :=
  ∀ state, reached state → ∀ block : Block size, ∃ next, reached next ∧
    BlockCipher.cryptBlock direction state block.toList size = (.ok (function block), next)

theorem Enciphers.answers {C : Type} [BlockCipher C] {size : Nat}
    (function : Block size → Block size) (cipher : C) (steady : Enciphers function cipher) :
    ∃ reached : C → Prop, reached cipher ∧ Answers .encrypt function reached := by
  obtain ⟨reached, here, closed⟩ := steady
  exact ⟨reached, here, fun state reachable => (closed state reachable).2⟩

theorem Answers.call {C : Type} [BlockCipher C] {size : Nat} (direction : Direction)
    (function : Block size → Block size) (reached : C → Prop)
    (steady : Answers direction function reached) (cipher : C) (here : reached cipher)
    (input : Bytes) (exact : input.length = size) :
    ∃ next, reached next ∧ BlockCipher.cryptBlock direction cipher input size =
      (.ok (function (Block.ofFront size input)), next) := by
  obtain ⟨next, kept, answer⟩ := steady cipher here (Block.ofFront size input)
  rw [Block.of_front_to_list size input exact] at answer
  exact ⟨next, kept, answer⟩

/-- Two functions that undo each other answer in the two directions, whatever was called before. -/
structure Permutes {C : Type} [BlockCipher C] {size : Nat}
    (forward backward : Block size → Block size) (cipher : C) : Prop where
  states : ∃ reached : C → Prop, reached cipher ∧ Answers .encrypt forward reached ∧
    Answers .decrypt backward reached
  undone : ∀ block, backward (forward block) = block
  redone : ∀ block, forward (backward block) = block

namespace BlockPermutation

variable {C : Type} [BlockPermutation C]

-- A permutation given by its two directions has no memory.
theorem answers (direction : Direction) (cipher : C) :
    Answers direction (run direction cipher) (· = cipher) := by
  rintro state rfl block
  refine ⟨state, rfl, ?_⟩
  change (runExactly direction state block.toList (size C), state) = _
  rw [runExactly, Block.of_bytes_of_list]
  simp only [dif_pos]
  rfl

theorem permutes (cipher : C) (undone : ∀ block, decrypt cipher (encrypt cipher block) = block)
    (redone : ∀ block, encrypt cipher (decrypt cipher block) = block) :
    Permutes (encrypt cipher) (decrypt cipher) cipher where
  states := ⟨(· = cipher), rfl, answers .encrypt cipher, answers .decrypt cipher⟩
  undone := undone
  redone := redone

theorem enciphers (cipher : C) : Enciphers (encrypt cipher) cipher := by
  refine ⟨(· = cipher), rfl, ?_⟩
  rintro state rfl
  constructor
  · rfl
  · exact answers .encrypt state state rfl

end BlockPermutation

/-- Each call is refused or answered by the one function. A refusal takes nothing away from what
may be asked later. -/
def AnswersBy {C : Type} [BlockCipher C] {size : Nat} (function : Block size → Block size)
    (cipher : C) : Prop :=
  ∃ reached : C → Prop, reached cipher ∧ ∀ state, reached state →
    BlockCipher.blockSize state = size ∧ ∀ block : Block size,
      reached (BlockCipher.encryptBlock state block.toList size).2 ∧
      ∀ answer, (BlockCipher.encryptBlock state block.toList size).1 = .ok answer →
        answer = function block

namespace AnswersBy

variable {C : Type} [BlockCipher C] {size : Nat}

theorem block_size (function : Block size → Block size) (cipher : C)
    (honest : AnswersBy function cipher) : BlockCipher.blockSize cipher = size := by
  obtain ⟨reached, here, closed⟩ := honest
  exact (closed cipher here).1

theorem call (function : Block size → Block size) (cipher : C)
    (honest : AnswersBy function cipher) (input : Bytes) (exact : input.length = size) :
    ∃ next, AnswersBy function next ∧
      (BlockCipher.encryptBlock cipher input size =
          (.ok (function (Block.ofFront size input)), next) ∨
        ∃ cause, BlockCipher.encryptBlock cipher input size = (.error cause, next)) := by
  obtain ⟨reached, here, closed⟩ := honest
  obtain ⟨kept, faithful⟩ := (closed cipher here).2 (Block.ofFront size input)
  rw [Block.of_front_to_list size input exact] at kept faithful
  refine ⟨_, ⟨reached, kept, closed⟩, ?_⟩
  cases called : BlockCipher.encryptBlock cipher input size with
  | mk outcome next =>
      rw [called] at faithful
      cases outcome with
      | error cause => exact Or.inr ⟨cause, rfl⟩
      | ok answer => exact Or.inl (by rw [faithful answer rfl])

theorem engine (function : Block size → Block size) (cipher : C)
    (honest : AnswersBy function cipher) : AnswersBy function (KeyedCipher.engine cipher) := by
  obtain ⟨reached, here, closed⟩ := honest
  refine ⟨fun state => ∃ inner, state = .engine inner ∧ reached inner, ⟨cipher, rfl, here⟩, ?_⟩
  rintro state ⟨inner, rfl, reachable⟩
  refine ⟨(closed inner reachable).1, fun block => ?_⟩
  obtain ⟨kept, faithful⟩ := (closed inner reachable).2 block
  exact ⟨⟨_, rfl, kept⟩, faithful⟩

end AnswersBy

theorem Enciphers.answers_by {C : Type} [BlockCipher C] {size : Nat}
    (function : Block size → Block size) (cipher : C) (steady : Enciphers function cipher) :
    AnswersBy function cipher := by
  obtain ⟨reached, here, closed⟩ := steady
  refine ⟨reached, here, fun state reachable => ⟨(closed state reachable).1, fun block => ?_⟩⟩
  obtain ⟨next, kept, answer⟩ := (closed state reachable).2 block
  rw [answer]
  refine ⟨kept, fun given same => ?_⟩
  cases same
  rfl

/-- From one state of a cipher to another by calls on whole blocks, all of them answered. -/
inductive Answered {C : Type} [BlockCipher C] (size : Nat) : C → C → Prop where
  | none (cipher : C) : Answered size cipher cipher
  | call (cipher next last : C) (block : Bytes) (answer : Block size)
      (single : block.length = size)
      (given : BlockCipher.encryptBlock cipher block size = (.ok answer, next))
      (further : Answered size next last) : Answered size cipher last

/-- Any function on blocks as a cipher. -/
structure BlockFunction (size : Nat) where
  apply : Block size → Block size

namespace BlockFunction

variable {size : Nat}

def cryptBlock (_direction : Direction) (cipher : BlockFunction size) (input : Bytes) (room : Nat) :
    Except Error (Block room) × BlockFunction size :=
  if exact : input.length = size ∧ size = room then
    (.ok ((cipher.apply (Block.ofFront size input)).cast exact.2), cipher)
  else (.error .invalidLength, cipher)

instance : BlockCipher (BlockFunction size) := ⟨fun _ => size, cryptBlock⟩

theorem enciphers (cipher : BlockFunction size) : Enciphers cipher.apply cipher := by
  refine ⟨fun state => state = cipher, rfl, ?_⟩
  rintro state rfl
  refine ⟨rfl, fun block => ⟨state, rfl, ?_⟩⟩
  have exact : block.toList.length = size ∧ size = size := by simp
  change cryptBlock .encrypt state block.toList size = _
  rw [cryptBlock, dif_pos exact, Block.of_front_of_list]
  rfl

end BlockFunction

/-- A cipher whose next calls are refused where the plan names a cause. Behind the plan none is. -/
structure Planned (C : Type) where
  cipher : C
  plan : List (Option Error)

namespace Planned

variable {C : Type} [BlockCipher C]

def cryptBlock (direction : Direction) (planned : Planned C) (input : Bytes) (room : Nat) :
    Except Error (Block room) × Planned C :=
  match planned.plan with
  | some cause :: rest => (.error cause, { planned with plan := rest })
  | plan =>
      let (answer, after) := BlockCipher.cryptBlock direction planned.cipher input room
      (answer, { cipher := after, plan := plan.tail })

instance : BlockCipher (Planned C) :=
  ⟨fun planned => BlockCipher.blockSize planned.cipher, cryptBlock⟩

theorem answers_by {size : Nat} (function : Block size → Block size) (cipher : C)
    (honest : AnswersBy function cipher) (plan : List (Option Error)) :
    AnswersBy function { cipher, plan : Planned C } := by
  obtain ⟨reached, here, closed⟩ := honest
  refine ⟨fun state => reached state.cipher, here, ?_⟩
  intro state reachable
  obtain ⟨blocks, answers⟩ := closed state.cipher reachable
  refine ⟨blocks, fun block => ?_⟩
  obtain ⟨kept, faithful⟩ := answers block
  change reached (cryptBlock .encrypt state block.toList size).2.cipher ∧
    ∀ answer, (cryptBlock .encrypt state block.toList size).1 = .ok answer → answer = function block
  unfold cryptBlock
  split
  · exact ⟨reachable, fun answer given => by cases given⟩
  · exact ⟨kept, faithful⟩

theorem enciphers {size : Nat} (function : Block size → Block size) (cipher : C)
    (steady : Enciphers function cipher) :
    Enciphers function { cipher, plan := [] : Planned C } := by
  obtain ⟨reached, here, closed⟩ := steady
  refine ⟨fun state => state.plan = [] ∧ reached state.cipher, ⟨rfl, here⟩, ?_⟩
  rintro ⟨inner, plan⟩ ⟨rfl, reachable⟩
  refine ⟨(closed inner reachable).1, fun block => ?_⟩
  obtain ⟨next, kept, answer⟩ := (closed inner reachable).2 block
  refine ⟨{ cipher := next, plan := [] }, ⟨rfl, kept⟩, ?_⟩
  change BlockCipher.cryptBlock .encrypt inner block.toList size = _ at answer
  change cryptBlock .encrypt { cipher := inner, plan := [] } block.toList size = _
  rw [cryptBlock, answer]
  rfl

end Planned

/-- A cipher and the blocks that it was given, in order. -/
structure Recording (C : Type) where
  cipher : C
  asked : List Bytes

namespace Recording

variable {C : Type} [BlockCipher C]

def start (cipher : C) : Recording C := { cipher, asked := [] }

def cryptBlock (direction : Direction) (recording : Recording C) (input : Bytes) (room : Nat) :
    Except Error (Block room) × Recording C :=
  let (answer, after) := BlockCipher.cryptBlock direction recording.cipher input room
  (answer, { cipher := after, asked := recording.asked ++ [input] })

instance : BlockCipher (Recording C) :=
  ⟨fun recording => BlockCipher.blockSize recording.cipher, cryptBlock⟩

def forget (progress : Progress (Recording C)) : Progress C :=
  { progress with cipher := progress.cipher.cipher }

end Recording

end SymmetricKey
