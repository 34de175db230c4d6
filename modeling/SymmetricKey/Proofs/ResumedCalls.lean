import SymmetricKey.Proofs.CounterMode
import SymmetricKey.Proofs.FeedbackText

/-!
Calls that a cipher breaks off. A mode that adds the enciphered register to each
segment changes output and register only behind the cipher's answer. So a call
that meets with a refusal is a call over the segments before it, and another one
over the rest, from the register that it left, gives what one call gives whose
cipher never refuses. A call that is rejected by its checks has done nothing.
-/

namespace SymmetricKey

inductive RegisterMode where
  | counter
  | feedback
deriving DecidableEq

namespace RegisterMode

def call {C : Type} [BlockCipher C] :
    RegisterMode → Direction → C → (bits : Nat) → Bytes → Bytes → (room : Nat) → Progress C
  | .counter, .encrypt => Ctr.encrypt
  | .counter, .decrypt => Ctr.decrypt
  | .feedback, .encrypt => Cfb.encrypt
  | .feedback, .decrypt => Cfb.decrypt

-- The bytes of a segment. For a counter, `bits` is not about segments.
def width (mode : RegisterMode) (size bits : Nat) : Nat :=
  match mode with
  | .counter => size
  | .feedback => bits / 8

/-- What is checked before the first segment. -/
structure Accepts (mode : RegisterMode) (size bits : Nat) (register : Bytes) (length room : Nat) :
    Prop where
  positive : 0 < size
  bounded : size ≤ maxModeBlock
  exact : register.length = size
  fits : length ≤ room
  bytewise : bits % 8 = 0
  inside : bits / 8 ≤ size
  some : mode = .feedback → 0 < bits

theorem Accepts.other {mode : RegisterMode} {size bits : Nat} {register : Bytes} {length room : Nat}
    (accepts : mode.Accepts size bits register length room) (next : Bytes)
    (same : next.length = register.length) {part space : Nat} (fits : part ≤ space) :
    mode.Accepts size bits next part space :=
  ⟨accepts.positive, accepts.bounded, same.trans accepts.exact, fits, accepts.bytewise,
    accepts.inside, accepts.some⟩

theorem width_positive (mode : RegisterMode) (size bits : Nat) (register : Bytes)
    (length room : Nat) (accepts : mode.Accepts size bits register length room) :
    0 < mode.width size bits := by
  obtain ⟨positive, _, _, _, bytewise, _, some⟩ := accepts
  cases mode with
  | counter => exact positive
  | feedback =>
      have filled := some rfl
      change 0 < bits / 8
      omega

theorem width_inside (mode : RegisterMode) (size bits : Nat) (inside : bits / 8 ≤ size) :
    mode.width size bits ≤ size := by
  cases mode with
  | counter => exact Nat.le_refl size
  | feedback => exact inside

/-- How the mode moves its register on. -/
def rule {size : Nat} (mode : RegisterMode) (direction : Direction) (bits : Nat)
    (inside : bits / 8 ≤ size) : RegisterRule size :=
  match mode with
  | .counter =>
      { next := fun counter _ _ => Ctr.increment (bits / 8) counter
        kept := fun counter _ _ exact => by
          rw [Ctr.increment_length (bits / 8) counter (by omega), exact] }
  | .feedback => Cfb.feeding direction (bits / 8) inside

section Checks
variable {C : Type} [BlockCipher C] (mode : RegisterMode) (direction : Direction) (cipher : C)
  (bits : Nat) (register input : Bytes) (room : Nat)

theorem call_through {size : Nat} (blocks : BlockCipher.blockSize cipher = size)
    (accepts : mode.Accepts size bits register input.length room) :
    mode.call direction cipher bits register input room =
      (mode.rule direction bits accepts.inside).step.run cipher register
        (Bytes.segments (mode.width size bits) input) := by
  obtain ⟨positive, bounded, exact, fits, bytewise, inside, some⟩ := accepts
  cases mode with
  | counter =>
      have through :=
        Ctr.encrypt_through bits cipher blocks register input room exact positive bounded
          bytewise inside fits
      cases direction <;> exact through
  | feedback =>
      have through :=
        Cfb.crypt_through bits ⟨positive, bounded, bytewise, some rfl, inside⟩ direction
          cipher blocks register input exact room fits
      cases direction <;> exact through

theorem call_rejected
    (rejects : ¬mode.Accepts (BlockCipher.blockSize cipher) bits register input.length room) :
    ∃ cause, mode.call direction cipher bits register input room =
      Progress.refused cause register cipher := by
  cases checked : checkRegister cipher register input room with
  | error cause =>
      refine ⟨cause, ?_⟩
      cases mode <;> cases direction <;>
        simp only [call, Ctr.decrypt, Ctr.encrypt, Cfb.encrypt, Cfb.decrypt, Cfb.crypt, checked]
  | ok size =>
      obtain ⟨blocks, exact, positive, bounded, fits⟩ :=
        check_register_ok cipher register input room size checked
      rw [blocks] at rejects
      refine ⟨.invalidParameter, ?_⟩
      cases mode with
      | counter =>
          have wrong : bits % 8 ≠ 0 ∨ size < bits / 8 := by
            by_contra right
            exact rejects ⟨positive, bounded, exact, fits, by omega, by omega,
              fun same => by cases same⟩
          cases direction <;> simp only [call, Ctr.decrypt, Ctr.encrypt, checked, if_pos wrong]
      | feedback =>
          have wrong : bits % 8 ≠ 0 ∨ bits = 0 ∨ size < bits / 8 := by
            by_contra right
            exact rejects ⟨positive, bounded, exact, fits, by omega, by omega, fun _ => by omega⟩
          cases direction <;>
            simp only [call, Cfb.encrypt, Cfb.decrypt, Cfb.crypt, checked, if_pos wrong]

end Checks

section Refusals
variable {C : Type} [BlockCipher C] {size : Nat} (mode : RegisterMode)
  (function : Block size → Block size) (direction : Direction) (bits : Nat) (register : Bytes)

theorem call_leaves (working : C) (steady : Enciphers function working) (input : Bytes) (room : Nat)
    (accepts : mode.Accepts size bits register input.length room) :
    (mode.rule direction bits accepts.inside).Leaves function (mode.width size bits) register input
      (mode.call direction working bits register input room) := by
  rw [call_through mode direction working bits register input room
    (steady.block_size function working) accepts]
  exact RegisterRule.run_leaves _ function working steady register input accepts.exact _

theorem front_leaves (working : C) (steady : Enciphers function working) (input : Bytes)
    (room : Nat) (accepts : mode.Accepts size bits register input.length room) (reach : Nat) :
    (mode.rule direction bits accepts.inside).Leaves function (mode.width size bits) register
      (input.take reach) (mode.call direction working bits register (input.take reach) room) :=
  call_leaves mode function direction bits register working steady _ room
    (accepts.other register rfl ((List.length_take_le' _ _).trans accepts.fits))

theorem call_stopped (working broken : C) (steady : Enciphers function working)
    (blocks : BlockCipher.blockSize broken = size) (input : Bytes) (room : Nat)
    (accepts : mode.Accepts size bits register input.length room) (answered : Nat) (cause : Error) :
    let width := mode.width size bits
    let front := fun count =>
      mode.call direction working bits register (input.take (count * width)) room
    answered * width < input.length →
    BreaksOff function cause (front answered).register broken
      ((List.range answered).map fun count => (front count).register) →
    let stopped := mode.call direction broken bits register input room
    stopped.refusal = some cause ∧ stopped.register = (front answered).register ∧
      stopped.produced = (front answered).produced := by
  intro width front reached breaks stopped
  let rule := mode.rule direction bits accepts.inside
  have leaves := fun count =>
    front_leaves mode function direction bits register working steady input
    room accepts (count * width)
  have registers : (fun count => (front count).register) =
      rule.registerAt function width register input := funext fun count => (leaves count).next
  rw [registers, (leaves answered).next] at breaks
  obtain ⟨after, run⟩ :=
    rule.run_stopped_at function cause broken register input accepts.exact width
      (mode.width_positive size bits register _ _ accepts) answered reached breaks
  have through : stopped = _ := (call_through mode direction broken bits register input room blocks
    accepts).trans run
  rw [through]
  exact ⟨rfl, (leaves answered).next.symm, (leaves answered).produced.symm⟩

theorem call_resumed (working again : C) (steady : Enciphers function working)
    (steadyAgain : Enciphers function again) (input buffer : Bytes)
    (accepts : mode.Accepts size bits register input.length buffer.length) (answered : Nat) :
    let reach := answered * mode.width size bits
    let whole := mode.call direction working bits register input buffer.length
    let front := mode.call direction working bits register (input.take reach) buffer.length
    let left := (front.output buffer).drop reach
    let resumed := mode.call direction again bits front.register (input.drop reach) left.length
    reach ≤ input.length →
    front.output buffer = (whole.output buffer).take reach ++ buffer.drop reach ∧
      resumed.refusal = none ∧ resumed.register = whole.register ∧
      (front.output buffer).take reach ++ resumed.output left = whole.output buffer := by
  -- A call over the first segments and one over the others give what one call gives.
  intro reach whole front left resumed reached
  let rule := mode.rule direction bits accepts.inside
  let width := mode.width size bits
  have positive : 0 < width := mode.width_positive size bits register _ _ accepts
  have inside : width ≤ size := mode.width_inside size bits accepts.inside
  have fits := accepts.fits
  have before := front_leaves mode function direction bits register working steady input
    buffer.length accepts reach
  have through := call_leaves mode function direction bits register working steady input
    buffer.length accepts
  have kept : front.register.length = register.length := by
    rw [before.next, rule.behind_length function register _ accepts.exact, accepts.exact]
  have split : Bytes.segments width input =
      Bytes.segments width (input.take reach) ++ Bytes.segments width (input.drop reach) :=
    Bytes.segments_split width input positive answered reached
  let first := rule.text function register (Bytes.segments width (input.take reach))
  let rest := rule.text function front.register (Bytes.segments width (input.drop reach))
  have firstLength : first.length = reach := by
    rw [rule.text_length function register _ width positive inside, List.length_take_of_le reached]
  have parted : rule.text function register (Bytes.segments width input) = first ++ rest := by
    rw [split, rule.text_append, ← before.next]
  have frontOutput : front.output buffer = first ++ buffer.drop reach := by
    have cut : (input.take reach).length = reach := List.length_take_of_le reached
    rw [before.output _ function positive inside buffer (by omega), cut]
  have wholeOutput : whole.output buffer = first ++ rest ++ buffer.drop input.length := by
    rw [through.output _ function positive inside buffer fits, parted]
  have leftExact : left = buffer.drop reach := by
    change (front.output buffer).drop reach = _
    rw [frontOutput, List.drop_left' firstLength]
  have room : (input.drop reach).length ≤ left.length := by
    rw [leftExact, List.length_drop, List.length_drop]
    omega
  have behind : rule.Leaves function width front.register (input.drop reach) resumed :=
    call_leaves mode function direction bits front.register again steadyAgain (input.drop reach)
      left.length (accepts.other front.register kept room)
  have resumedOutput : resumed.output left = rest ++ buffer.drop input.length := by
    have further : reach + (input.length - reach) = input.length := by omega
    rw [behind.output _ function positive inside left room, leftExact, List.length_drop,
      List.drop_drop, further]
  refine ⟨?_, behind.finished, ?_, ?_⟩
  · rw [frontOutput, wholeOutput, List.append_assoc, List.take_left' firstLength]
  · rw [behind.next, through.next, split, rule.behind_append, ← before.next]
  · rw [frontOutput, wholeOutput, resumedOutput, List.take_left' firstLength, List.append_assoc]

end Refusals

end RegisterMode

/-- A call that fails its checks is refused and has changed nothing. A call whose cipher answers
some blocks and refuses the next is refused for the cipher's cause; it leaves the output and the
register of a call over the segments that were answered, which is the front of the whole result.
Going on from there, with any cipher that has come to work again, completes output and register. -/
theorem calls_taken_up_again {C : Type} [BlockCipher C] (mode : RegisterMode)
    (direction : Direction) (bits : Nat) (register input buffer : Bytes) :
    (∀ cipher : C,
      ¬mode.Accepts (BlockCipher.blockSize cipher) bits register input.length buffer.length →
        let call := mode.call direction cipher bits register input buffer.length
        call.refusal.isSome ∧ call.output buffer = buffer ∧ call.register = register) ∧
    ∀ {size : Nat} (function : Block size → Block size) (working : C), Enciphers function working →
      mode.Accepts size bits register input.length buffer.length →
        let width := mode.width size bits
        let front := fun count =>
          mode.call direction working bits register (input.take (count * width)) buffer.length
        let whole := mode.call direction working bits register input buffer.length
        (∀ count, (front count).refusal = none) ∧ whole.refusal = none ∧
        ∀ (broken : C) answered cause, BlockCipher.blockSize broken = size →
          answered * width < input.length →
          BreaksOff function cause (front answered).register broken
            ((List.range answered).map fun count => (front count).register) →
          let stopped := mode.call direction broken bits register input buffer.length
          stopped.refusal = some cause ∧ stopped.register = (front answered).register ∧
            stopped.output buffer = (front answered).output buffer ∧
            stopped.output buffer =
              (whole.output buffer).take (answered * width) ++ buffer.drop (answered * width) ∧
            ∀ again : C, Enciphers function again →
              let left := (stopped.output buffer).drop (answered * width)
              let resumed := mode.call direction again bits stopped.register
                (input.drop (answered * width)) left.length
              resumed.refusal = none ∧ resumed.register = whole.register ∧
                (stopped.output buffer).take (answered * width) ++ resumed.output left =
                  whole.output buffer := by
  constructor
  · intro cipher rejects call
    obtain ⟨cause, rejected⟩ :=
      mode.call_rejected direction cipher bits register input buffer.length rejects
    have refused : call = Progress.refused cause register cipher := rejected
    rw [refused]
    exact ⟨rfl, Bytes.overlay_fitting buffer [] (Nat.zero_le _), rfl⟩
  · intro size function working steady accepts width front whole
    refine ⟨?_, ?_, ?_⟩
    · intro count
      exact (mode.front_leaves function direction bits register working steady input buffer.length
        accepts (count * width)).finished
    · exact (mode.call_leaves function direction bits register working steady input buffer.length
        accepts).finished
    · intro broken answered cause blocks reached breaks stopped
      obtain ⟨refused, left, produced⟩ := mode.call_stopped function direction bits register working
        broken steady blocks input buffer.length accepts answered cause reached breaks
      have output : stopped.output buffer = (front answered).output buffer := by
        rw [Progress.output, Progress.output]
        exact congrArg buffer.overlay produced
      refine ⟨refused, left, output, ?_, ?_⟩
      · rw [output]
        exact (mode.call_resumed function direction bits register working working steady
          steady input buffer accepts answered (Nat.le_of_lt reached)).1
      · intro again steadyAgain
        obtain ⟨_, resumed⟩ :=
          mode.call_resumed function direction bits register working again steady
            steadyAgain input buffer accepts answered (Nat.le_of_lt reached)
        rw [output, left]
        exact resumed

/-- Of three segments the second is refused, and the call is taken up with the cipher behind the
refusal. A register of another length is refused before any of this. -/
theorem second_segment_taken_up :
    let mirror : BlockFunction 3 := ⟨Vector.reverse⟩
    let working : Planned (BlockFunction 3) := { cipher := mirror, plan := [] }
    let broken := { working with plan := [none, some .failure] }
    let whole := Cfb.decrypt working 16 [7, 9, 11] [10, 11, 8, 14, 11] 6
    let stopped := Cfb.decrypt broken 16 [7, 9, 11] [10, 11, 8, 14, 11] 6
    let resumed := Cfb.decrypt working 16 [11, 10, 11] [8, 14, 11] 4
    stopped.refusal = some .failure ∧ stopped.output (Bytes.zeros 6) = [1, 2, 0, 0, 0, 0] ∧
      stopped.register = [11, 10, 11] ∧ resumed.register = whole.register ∧
      [1, 2] ++ resumed.output (Bytes.zeros 4) = whole.output (Bytes.zeros 6) ∧
      (Cfb.decrypt working 16 [7, 9] [10, 11] 6).register = [7, 9] := by
  intro mirror working broken whole stopped resumed
  have steady : Enciphers mirror.apply working := Planned.enciphers _ mirror mirror.enciphers
  have taken := (calls_taken_up_again (C := Planned (BlockFunction 3)) .feedback .decrypt 16
    [7, 9, 11] [10, 11, 8, 14, 11] (Bytes.zeros 6)).2 mirror.apply working steady
    ⟨by decide, by decide, rfl, by decide, by decide, by decide, fun _ => by decide⟩
  have first : (Cfb.decrypt working 16 [7, 9, 11] [] 6).register = [7, 9, 11] := by decide +kernel
  have second : (Cfb.decrypt working 16 [7, 9, 11] [10, 11] 6).register = [11, 10, 11] := by
    decide +kernel
  have output : (Cfb.decrypt working 16 [7, 9, 11] [10, 11] 6).output (Bytes.zeros 6) =
      [1, 2, 0, 0, 0, 0] := by
    decide +kernel
  obtain ⟨refused, register, front, _, again⟩ := taken.2.2 broken 1 .failure rfl (by decide) (by
    change BreaksOff mirror.apply .failure (Cfb.decrypt working 16 [7, 9, 11] [10, 11] 6).register
      broken [(Cfb.decrypt working 16 [7, 9, 11] [] 6).register]
    rw [first, second]
    exact ⟨rfl, rfl⟩)
  obtain ⟨_, next, text⟩ := again working steady
  have stoppedOutput := front.trans output
  have stoppedRegister := register.trans second
  rw [stoppedRegister, stoppedOutput] at next text
  refine ⟨refused, stoppedOutput, stoppedRegister, next, text, ?_⟩
  exact ((calls_taken_up_again .feedback .decrypt 16 [7, 9] [10, 11] (Bytes.zeros 6)).1 working
    (fun accepts => absurd accepts.exact (by decide))).2.2

end SymmetricKey
