import SymmetricKey.Authentication.Cmac
import SymmetricKey.Authentication.Xcbc
import SymmetricKey.Proofs.CallRuns
import SymmetricKey.Proofs.ChainStates

/-!
The two MACs that end in a chain of blocks, as one. They differ in where their
masks come from and not in their calls, so runs are looked at here once for
both. A history tells which message the next tag is for, unless the cipher has
refused a call since that message began.
-/

namespace SymmetricKey

open CbcChain (Shaped StandsFor tagOf takeAll spoiled masked)

namespace MacCall

-- The calls of a context without a vector, which may be refused data too.
def served {Context : Type} (reset : Context → Context)
    (absorb : Context → Bytes → Option Error × Context)
    (finish : Context → Nat → Except Error Bytes × Context) (context : Context) :
    MacCall Unit → MacAnswer × Context
  | .reset _ => (.done, reset context)
  | .absorb data =>
      let (refusal, after) := absorb context data
      (.ofRefusal refusal, after)
  | .finish length =>
      let (outcome, after) := finish context length
      (.ofTag outcome, after)

end MacCall

structure ChainMac (C : Type) where
  cipher : C
  fullMask : Bytes
  partMask : Bytes
  chain : CbcChain

namespace ChainMac

/-- The message under way. One that met with a refusal is lost until a new one starts. -/
def track (size : Nat) (message : Option Bytes) : MacCall Unit × MacAnswer → Option Bytes
  | (.reset _, _) => some []
  | (.absorb data, .done) => message.map (· ++ data)
  | (.absorb _, _) => none
  | (.finish _, .tag _) => some []
  -- A length out of range is refused before the cipher is asked.
  | (.finish length, _) => if 1 ≤ length ∧ length ≤ size then none else message

def message? (size : Nat) (history : List (MacCall Unit × MacAnswer)) : Option Bytes :=
  history.foldl (track size) (some [])

variable {C : Type} [BlockCipher C]

def reset (mac : ChainMac C) : ChainMac C := { mac with chain := mac.chain.reset }

def absorb (mac : ChainMac C) (data : Bytes) : Option Error × ChainMac C :=
  let step := CbcChain.absorb mac.cipher mac.chain data
  (step.refusal, { mac with cipher := step.cipher, chain := step.chain })

def finish (mac : ChainMac C) (length : Nat) : Except Error Bytes × ChainMac C :=
  match checkTagSize length 1 mac.chain.blockSize with
  | .error cause => (.error cause, mac)
  | .ok () =>
      let (tag, chain, cipher) := mac.chain.finish mac.cipher mac.fullMask mac.partMask
      (tag.map (·.take length), { mac with cipher, chain })

def serve : ChainMac C → MacCall Unit → MacAnswer × ChainMac C := MacCall.served reset absorb finish

/-- The cipher may refuse but does not lie, and all of the message has been taken in. Where the
message is lost only the shape is left. -/
structure Awaits {size : Nat} (function : Block size → Block size) (full partly : Bytes)
    (message : Option Bytes) (mac : ChainMac C) : Prop where
  honest : AnswersBy function mac.cipher
  fullMask : mac.fullMask = full
  partMask : mac.partMask = partly
  shaped : Shaped size mac.chain
  standing : ∀ known, message = some known → StandsFor function mac.chain known

theorem Awaits.forget {size : Nat} (function : Block size → Block size) (full partly : Bytes)
    (message : Option Bytes) (mac : ChainMac C) (awaits : Awaits function full partly message mac) :
    Awaits function full partly none mac :=
  ⟨awaits.honest, awaits.fullMask, awaits.partMask, awaits.shaped, fun _ none => by cases none⟩

section Serving
variable {size : Nat} (function : Block size → Block size) (full partly : Bytes)
  (message : Option Bytes) (mac : ChainMac C) (awaits : Awaits function full partly message mac)
include awaits

theorem finish_outside (length : Nat) (outside : length = 0 ∨ size < length) :
    mac.finish length = (.error .invalidParameter, mac) := by
  have wrong : checkTagSize length 1 size = .error .invalidParameter :=
    check_tag_size_outside _ _ _ (by omega)
  rw [finish, awaits.shaped.blocks, wrong]

theorem finish_inside (fullWidth : full.length = size) (partWidth : partly.length = size)
    (length : Nat) (inside : 1 ≤ length ∧ length ≤ size) :
    ∃ next, AnswersBy function next ∧
      (mac.finish length =
          (.ok ((Block.onBytes function
              (Bytes.xor mac.chain.value (mac.chain.lastBlock full partly))).take length),
            { mac with cipher := next, chain := CbcChain.empty size }) ∨
        ∃ cause, BlockCipher.encryptBlock mac.cipher
            (Bytes.xor mac.chain.value (mac.chain.lastBlock full partly)) size =
              (.error cause, next) ∧
          mac.finish length =
            (.error cause,
              { mac with cipher := next, chain := masked mac.chain full partly })) := by
  obtain ⟨honest, rfl, rfl, shaped, _⟩ := awaits
  have right : checkTagSize length 1 size = .ok () :=
    check_tag_size_inside _ _ _ inside.1 inside.2
  obtain ⟨next, kept, outcome⟩ := CbcChain.finish_outcomes function mac.cipher honest mac.chain
    shaped mac.fullMask mac.partMask fullWidth partWidth
  refine ⟨next, kept, ?_⟩
  rw [finish, shaped.blocks, right]
  rcases outcome with answered | ⟨cause, called, refused⟩
  · rw [answered]
    exact Or.inl rfl
  · rw [refused]
    exact Or.inr ⟨cause, called, rfl⟩

theorem finish_refused (fullWidth : full.length = size) (partWidth : partly.length = size)
    (length : Nat) (inside : 1 ≤ length ∧ length ≤ size) (cause : Error)
    (refused : (mac.finish length).1 = .error cause) :
    ∃ block, block.length = size ∧
      (BlockCipher.encryptBlock mac.cipher block size).1 = .error cause := by
  have single := CbcChain.last_block_length mac.chain awaits.shaped full partly fullWidth partWidth
  obtain ⟨next, _, answered | ⟨other, called, broken⟩⟩ :=
    finish_inside function full partly message mac awaits fullWidth partWidth length inside
  · rw [answered] at refused
    cases refused
  · rw [broken] at refused
    cases refused
    refine ⟨_, ?_, congrArg Prod.fst called⟩
    rw [Bytes.xor_length, awaits.shaped.value, single, Nat.min_self]

theorem reset_awaits : Awaits function full partly (some []) mac.reset := by
  obtain ⟨honest, fullMask, partMask, shaped, _⟩ := awaits
  have anew : mac.chain.reset = CbcChain.empty size := by rw [CbcChain.reset, shaped.blocks]
  refine ⟨honest, fullMask, partMask, ?_, ?_⟩
  · rw [reset, anew]
    exact CbcChain.empty_shaped size
  · rintro known ⟨⟩
    rw [reset, anew]
    exact CbcChain.empty_stands_for function

theorem absorb_awaits (positive : 0 < size) (data : Bytes) :
    Awaits function full partly (track size message (.absorb data, .ofRefusal (mac.absorb data).1))
      (mac.absorb data).2 := by
  obtain ⟨honest, fullMask, partMask, shaped, standing⟩ := awaits
  obtain ⟨next, kept, outcome⟩ :=
    CbcChain.absorb_outcomes function positive mac.cipher honest mac.chain shaped data
  rw [absorb]
  rcases outcome with through | ⟨taken, byte, more, cause, _, held, broken⟩
  · rw [through]
    refine ⟨kept, fullMask, partMask, ?_, ?_⟩
    · exact CbcChain.take_all_shaped function positive mac.chain shaped data
    · intro known tracked
      obtain ⟨earlier, under, rfl⟩ := Option.map_eq_some_iff.mp tracked
      exact CbcChain.take_all_stands_for function positive mac.chain earlier
        (standing earlier under) data
  · rw [broken]
    refine ⟨kept, fullMask, partMask, ?_, fun known tracked => by cases tracked⟩
    exact CbcChain.spoiled_shaped _
      (CbcChain.take_all_shaped function positive mac.chain shaped taken) held

theorem finish_awaits (fullWidth : full.length = size) (partWidth : partly.length = size)
    (length : Nat) :
    Awaits function full partly (track size message (.finish length, .ofTag (mac.finish length).1))
      (mac.finish length).2 := by
  by_cases inside : 1 ≤ length ∧ length ≤ size
  · obtain ⟨next, kept, outcome⟩ :=
      finish_inside function full partly message mac awaits fullWidth partWidth length inside
    obtain ⟨honest, fullMask, partMask, shaped, _⟩ := awaits
    rcases outcome with answered | ⟨cause, _, refused⟩
    · rw [answered]
      refine ⟨kept, fullMask, partMask, CbcChain.empty_shaped size, ?_⟩
      rintro known ⟨⟩
      exact CbcChain.empty_stands_for function
    · rw [refused]
      have lost : track size message (.finish length, .ofTag (.error cause)) = none := if_pos inside
      rw [lost]
      exact ⟨kept, fullMask, partMask,
        CbcChain.masked_shaped mac.chain shaped full partly fullWidth partWidth,
        fun known tracked => by cases tracked⟩
  · have kept : track size message (.finish length, .ofTag (.error .invalidParameter)) = message :=
      if_neg inside
    rw [finish_outside function full partly message mac awaits length (by omega), kept]
    exact awaits

theorem serve_awaits (positive : 0 < size) (fullWidth : full.length = size)
    (partWidth : partly.length = size) (call : MacCall Unit) :
    Awaits function full partly (track size message (call, (mac.serve call).1))
      (mac.serve call).2 := by
  cases call with
  | reset start => exact reset_awaits function full partly message mac awaits
  | absorb data => exact absorb_awaits function full partly message mac awaits positive data
  | finish length =>
      exact finish_awaits function full partly message mac awaits fullWidth partWidth length

end Serving

theorem finish_tag {size : Nat} (function : Block size → Block size) (full partly : Bytes)
    (positive : 0 < size) (fullWidth : full.length = size) (partWidth : partly.length = size)
    (mac : ChainMac C) (message : Bytes) (awaits : Awaits function full partly (some message) mac)
    (length : Nat) (tag : Bytes) (given : (mac.finish length).1 = .ok tag) :
    tag = (tagOf function full partly message).take length := by
  have standing := awaits.standing message rfl
  by_cases inside : 1 ≤ length ∧ length ≤ size
  · obtain ⟨next, _, answered | ⟨cause, _, refused⟩⟩ :=
      finish_inside function full partly _ mac awaits fullWidth partWidth length inside
    · rw [answered] at given
      cases given
      rw [tagOf, (CbcChain.stands_exact function positive _ _ awaits.shaped standing).1,
        CbcChain.last_block_masked function positive _ _ full partly awaits.shaped standing]
    · rw [refused] at given
      cases given
  · rw [finish_outside function full partly _ mac awaits length (by omega)] at given
    cases given

-- A context may be more than its chain, as long as the chain is served alike.
theorem run_awaits {Context : Type} (view : Context → ChainMac C)
    (serve : Context → MacCall Unit → MacAnswer × Context) {size : Nat}
    (function : Block size → Block size) (full partly : Bytes) (positive : 0 < size)
    (fullWidth : full.length = size) (partWidth : partly.length = size)
    (alike : ∀ context message, Awaits function full partly message (view context) → ∀ call,
      (view context).serve call = ((serve context call).1, view (serve context call).2))
    (fresh : Context) (awaits : Awaits function full partly (some []) (view fresh))
    (calls : List (MacCall Unit)) :
    Awaits function full partly (message? size (CallRun.run serve fresh calls).1)
      (view (CallRun.run serve fresh calls).2) := by
  apply CallRun.run_keeps serve
    (fun history context => Awaits function full partly (message? size history) (view context))
    ?step fresh awaits calls
  case step =>
    intro history context call here
    have next := serve_awaits function full partly _ (view context) here positive fullWidth
      partWidth call
    rw [alike context _ here call] at next
    rw [message?, List.foldl_append]
    exact next

/-- What a MAC that cuts a tag for each message at the end answers. It keeps nothing but the
message. -/
def ideal (size : Nat) (tag : Bytes → Bytes) (message : Bytes) : MacCall Unit → MacAnswer × Bytes
  | .reset _ => (.done, [])
  | .absorb data => (.done, message ++ data)
  | .finish length =>
      if 1 ≤ length ∧ length ≤ size then (.tag ((tag message).take length), [])
      else (.refused .invalidParameter, message)

/-- All of the message has been taken in, and the cipher goes on answering. -/
structure Holds {size : Nat} (function : Block size → Block size) (full partly : Bytes)
    (message : Bytes) (mac : ChainMac C) : Prop where
  steady : Enciphers function mac.cipher
  awaits : Awaits function full partly (some message) mac

section Steady
variable {size : Nat} (function : Block size → Block size) (full partly message : Bytes)
  (mac : ChainMac C) (holds : Holds function full partly message mac)
include holds

theorem absorb_ideal (tag : Bytes → Bytes) (positive : 0 < size) (data : Bytes) :
    (mac.serve (.absorb data)).1 = (ideal size tag message (.absorb data)).1 ∧
      Holds function full partly (ideal size tag message (.absorb data)).2
        (mac.serve (.absorb data)).2 := by
  obtain ⟨steady, awaits⟩ := holds
  obtain ⟨next, kept, taken⟩ :=
    CbcChain.absorb_steady function mac.cipher steady mac.chain awaits.shaped positive data
  have answer : mac.absorb data =
      (none, { mac with cipher := next, chain := takeAll function mac.chain data }) := by
    rw [absorb, taken]
  have later := absorb_awaits function full partly (some message) mac awaits positive data
  rw [answer] at later
  rw [serve, MacCall.served, answer]
  exact ⟨rfl, kept, later⟩

theorem finish_ideal (positive : 0 < size) (fullWidth : full.length = size)
    (partWidth : partly.length = size) (length : Nat) :
    (mac.serve (.finish length)).1 =
        (ideal size (tagOf function full partly) message (.finish length)).1 ∧
      Holds function full partly
        (ideal size (tagOf function full partly) message (.finish length)).2
        (mac.serve (.finish length)).2 := by
  obtain ⟨steady, awaits⟩ := holds
  by_cases inside : 1 ≤ length ∧ length ≤ size
  · obtain ⟨next, kept, answered⟩ := CbcChain.finish_steady function mac.cipher steady mac.chain
      awaits.shaped full partly fullWidth partWidth
    have answer : mac.finish length = (.ok ((Block.onBytes function
        (Bytes.xor mac.chain.value (mac.chain.lastBlock full partly))).take length),
        { mac with cipher := next, chain := CbcChain.empty size }) := by
      rw [finish, awaits.shaped.blocks, check_tag_size_inside _ _ _ inside.1 inside.2,
        awaits.fullMask, awaits.partMask, answered]
      rfl
    have tag := finish_tag function full partly positive fullWidth partWidth mac message awaits
      length _ (congrArg Prod.fst answer)
    have later := finish_awaits function full partly (some message) mac awaits fullWidth partWidth
      length
    rw [answer] at later
    rw [serve, MacCall.served, answer, ideal, if_pos inside, ← tag]
    exact ⟨rfl, kept, later⟩
  · rw [serve, MacCall.served, ideal, if_neg inside,
      finish_outside function full partly _ mac awaits length (by omega)]
    exact ⟨rfl, steady, awaits⟩

theorem serve_ideal (positive : 0 < size) (fullWidth : full.length = size)
    (partWidth : partly.length = size) (call : MacCall Unit) :
    (mac.serve call).1 = (ideal size (tagOf function full partly) message call).1 ∧
      Holds function full partly (ideal size (tagOf function full partly) message call).2
        (mac.serve call).2 := by
  cases call with
  | reset start =>
      exact ⟨rfl, holds.steady, reset_awaits function full partly (some message) mac holds.awaits⟩
  | absorb data => exact absorb_ideal function full partly message mac holds _ positive data
  | finish length =>
      exact finish_ideal function full partly message mac holds positive fullWidth partWidth length

end Steady

theorem run_ideal {Context : Type} (view : Context → ChainMac C)
    (serve : Context → MacCall Unit → MacAnswer × Context) {size : Nat}
    (function : Block size → Block size) (full partly : Bytes) (positive : 0 < size)
    (fullWidth : full.length = size) (partWidth : partly.length = size)
    (alike : ∀ context message, Holds function full partly message (view context) → ∀ call,
      (view context).serve call = ((serve context call).1, view (serve context call).2))
    (fresh : Context) (holds : Holds function full partly [] (view fresh))
    (calls : List (MacCall Unit)) :
    (CallRun.run serve fresh calls).1 =
      (CallRun.run (ideal size (tagOf function full partly)) [] calls).1 := by
  apply CallRun.run_alike serve _
    (fun context message => Holds function full partly message (view context)) ?step fresh [] holds
  case step =>
    intro context message call here
    have next := serve_ideal function full partly message (view context) here positive fullWidth
      partWidth call
    rw [alike context message here call] at next
    exact next

end ChainMac

namespace Cmac

variable {C : Type}

def view (context : Cmac C) : ChainMac C :=
  ⟨context.cipher, context.fullMask, context.partMask, context.chain⟩

theorem view_injective : Function.Injective (view : Cmac C → ChainMac C) := by
  rintro ⟨_, _, _, _⟩ ⟨_, _, _, _⟩ ⟨⟩
  rfl

variable [BlockCipher C]

def serve : Cmac C → MacCall Unit → MacAnswer × Cmac C := MacCall.served reset absorb finish

theorem finish_view (context : Cmac C) (agrees : context.size = context.chain.blockSize)
    (length : Nat) :
    context.view.finish length = ((context.finish length).1, (context.finish length).2.view) := by
  rw [finish, agrees, ChainMac.finish]
  cases checked : checkTagSize length 1 context.chain.blockSize <;>
    simp only [view, checked]

theorem serve_view (context : Cmac C) (agrees : context.size = context.chain.blockSize)
    (call : MacCall Unit) :
    context.view.serve call = ((context.serve call).1, (context.serve call).2.view) := by
  cases call with
  | reset start => rfl
  | absorb data => rfl
  | finish length =>
      rw [ChainMac.serve, MacCall.served, finish_view context agrees]
      rfl

end Cmac

namespace Xcbc

variable {C : Type}

def view (context : Xcbc C) : ChainMac C :=
  ⟨context.cipher, context.fullMask, context.partMask, context.chain⟩

theorem view_injective : Function.Injective (view : Xcbc C → ChainMac C) := by
  rintro ⟨_, _, _, _⟩ ⟨_, _, _, _⟩ ⟨⟩
  rfl

variable [BlockCipher C]

def serve : Xcbc C → MacCall Unit → MacAnswer × Xcbc C := MacCall.served reset absorb finish

theorem finish_view (context : Xcbc C) (agrees : Xcbc.size = context.chain.blockSize)
    (length : Nat) :
    context.view.finish length = ((context.finish length).1, (context.finish length).2.view) := by
  rw [finish, agrees, ChainMac.finish]
  cases checked : checkTagSize length 1 context.chain.blockSize <;>
    simp only [view, checked]

theorem serve_view (context : Xcbc C) (agrees : Xcbc.size = context.chain.blockSize)
    (call : MacCall Unit) :
    context.view.serve call = ((context.serve call).1, (context.serve call).2.view) := by
  cases call with
  | reset start => rfl
  | absorb data => rfl
  | finish length =>
      rw [ChainMac.serve, MacCall.served, finish_view context agrees]
      rfl

end Xcbc

end SymmetricKey
