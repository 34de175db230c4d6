import SymmetricKey.Authentication.Kmac
import SymmetricKey.Derivation.Concat
import SymmetricKey.Proofs.CallRuns
import SymmetricKey.Proofs.KeyRecords
import SymmetricKey.Proofs.ModeCalls

/-!
Programs over the built-in algorithms, and what they log. A program names its
algorithms and holds a context at each of its places. Two programs may differ
in every byte that they hand over: where they make the same calls with strings
of the same lengths, they log the same, but for the record of each tag that was
wrong in the one and not in the other.
-/

namespace SymmetricKey

/-- Calls that log nothing. In place of its bytes a string may be given by something else, such as
their number. -/
inductive QuietCall (Text : Type) where
  -- Made of a cipher that is held, in its place.
  | gcmOf
  | cmacOf
  | hasher (name : String)
  | hmac (name : String) (key : Text)
  | kmac (bits : Nat) (key custom : Text)
  | block (direction : Direction) (input output : Text)
  | ctr (bits : Nat) (counter input output : Text)
  | cfb (direction : Direction) (bits : Nat) (iv input output : Text)
  | xts (direction : Direction) (tweak input output : Text)
  | encipher (iv aad input output tag : Text)
  | keystream (input output : Text)
  | reset
  | start (iv : Text)
  | absorb (data : Text)
  | finish (tag : Text)
  | chaining (output : Text)
  | hmacOnce (name : String) (key data tag : Text)
  | kmacOnce (bits : Nat) (key data custom tag : Text)
  | digestOnce (name : String) (data output : Text)
  | concat (name : String) (secret : Text) (info : Option Text) (infoLength : Nat) (output : Text)
  | pbkdf2 (name : String) (password salt : Text) (iterations : UInt32) (output : Text)

inductive Operation (Text : Type) where
  | quiet (call : QuietCall Text)
  | fromKey (form : Form) (name : String) (key : Text)
  | stream (name : String) (key iv : Text)
  | decipher (iv aad input output tag : Text)
  | blockMacOnce (form : BlockMacForm) (name : String) (key data tag : Text)
  | gmacOnce (name : String) (key iv data tag : Text)
  | scrypt (password salt : Text) (cost : UInt64) (width lanes : UInt32) (output : Text)

namespace QuietCall

variable {Text Other : Type} (f : Text → Other)

def map : QuietCall Text → QuietCall Other
  | gcmOf => gcmOf
  | cmacOf => cmacOf
  | hasher name => hasher name
  | hmac name key => hmac name (f key)
  | kmac bits key custom => kmac bits (f key) (f custom)
  | block direction input output => block direction (f input) (f output)
  | ctr bits counter input output => ctr bits (f counter) (f input) (f output)
  | cfb direction bits iv input output => cfb direction bits (f iv) (f input) (f output)
  | xts direction tweak input output => xts direction (f tweak) (f input) (f output)
  | encipher iv aad input output tag => encipher (f iv) (f aad) (f input) (f output) (f tag)
  | keystream input output => keystream (f input) (f output)
  | reset => reset
  | start iv => start (f iv)
  | absorb data => absorb (f data)
  | finish tag => finish (f tag)
  | chaining output => chaining (f output)
  | hmacOnce name key data tag => hmacOnce name (f key) (f data) (f tag)
  | kmacOnce bits key data custom tag => kmacOnce bits (f key) (f data) (f custom) (f tag)
  | digestOnce name data output => digestOnce name (f data) (f output)
  | concat name secret info infoLength output =>
      concat name (f secret) (info.map f) infoLength (f output)
  | pbkdf2 name password salt iterations output =>
      pbkdf2 name (f password) (f salt) iterations (f output)

end QuietCall

def Operation.map {Text Other : Type} (f : Text → Other) : Operation Text → Operation Other
  | quiet call => quiet (call.map f)
  | fromKey form name key => fromKey form name (f key)
  | stream name key iv => stream name (f key) (f iv)
  | decipher iv aad input output tag => decipher (f iv) (f aad) (f input) (f output) (f tag)
  | blockMacOnce form name key data tag => blockMacOnce form name (f key) (f data) (f tag)
  | gmacOnce name key iv data tag => gmacOnce name (f key) (f iv) (f data) (f tag)
  | scrypt password salt cost width lanes output =>
      scrypt (f password) (f salt) cost width lanes (f output)

namespace BuiltInCipher

def named? (name : String) : Option (CipherAlgorithm Empty) := CipherAlgorithm.find? name

theorem named_known (name : String) (algorithm : CipherAlgorithm Empty)
    (found : named? name = some algorithm) : algorithm ∈ CipherAlgorithm.builtIn := by
  rw [named?, CipherAlgorithm.find?] at found
  exact List.mem_of_find?_eq_some found

end BuiltInCipher

inductive Tool where
  | nothing
  | cipher (cipher : BuiltInCipher)
  | xts (context : Xts BuiltInCipher)
  | gcm (context : Gcm BuiltInCipher)
  | cmac (context : Cmac BuiltInCipher)
  | xcbc (context : Xcbc BuiltInCipher)
  | gmac (context : Gmac BuiltInCipher)
  | stream (cipher : StreamCipher)
  | hasher (hasher : Hasher)
  | hmac (context : Hmac)
  | kmac (context : Kmac)

namespace Tool

open ModeAnswer (ofTag)

def store {Context : Type} (wrap : Context → Tool) : Except Error Context → ModeAnswer × Tool
  | .error cause => (.done (some cause) [], nothing)
  | .ok context => (.done none [], wrap context)

def give {Context : Type} (wrap : Context → Tool) (output : Bytes)
    (answer : Except Error Bytes × Context) : ModeAnswer × Tool :=
  (ofTag output answer.1, wrap answer.2)

def restart (tool : Tool) : ModeAnswer × Tool :=
  match tool with
  | cmac context => (.done none [], cmac context.reset)
  | xcbc context => (.done none [], xcbc context.reset)
  | hasher held => (.done none [], hasher held.restart)
  | hmac context => (.done none [], hmac context.reset)
  | kmac context => (.done none [], kmac context.reset)
  | other => (.idle, other)

def absorb (tool : Tool) (data : Bytes) : ModeAnswer × Tool :=
  match tool with
  | cmac context => (.done (context.absorb data).1 [], cmac (context.absorb data).2)
  | xcbc context => (.done (context.absorb data).1 [], xcbc (context.absorb data).2)
  | gmac context => (.done none [], gmac (context.absorb data))
  | hasher held => (.done none [], hasher (held.absorb data))
  | hmac context => (.done none [], hmac (context.absorb data))
  | kmac context => (.done none [], kmac (context.absorb data))
  | other => (.idle, other)

def finish (tool : Tool) (tag : Bytes) : ModeAnswer × Tool :=
  match tool with
  | cmac context => give cmac tag (context.finish tag.length)
  | xcbc context => give xcbc tag (context.finish tag.length)
  | gmac context => give gmac tag (context.finish tag.length)
  | hasher held => give hasher tag (held.finishInto tag.length)
  | hmac context => give hmac tag (context.finish tag.length)
  | kmac context => give kmac tag (context.finish tag.length)
  | other => (.idle, other)

def onCipher (held : BuiltInCipher) : QuietCall Bytes → ModeAnswer × Tool
  | .gcmOf => store gcm (Gcm.ofCipher held)
  | .cmacOf => store cmac (Cmac.ofCipher held)
  | .block direction input output =>
      let (answer, after) := BlockCipher.cryptBlock direction held input output.length
      give cipher output (answer.map Vector.toList, after)
  | .ctr bits counter input output =>
      let progress := Ctr.encrypt held bits counter input output.length
      (.done progress.refusal [progress.register, progress.output output], cipher progress.cipher)
  | .cfb direction bits iv input output =>
      let progress := Cfb.crypt direction held bits iv input output.length
      (.done progress.refusal [progress.register, progress.output output], cipher progress.cipher)
  | _ => (.idle, cipher held)

def serveQuiet (tool : Tool) : QuietCall Bytes → ModeAnswer × Tool
  | .hasher name =>
      match Hash.find? name with
      | none => (.idle, tool)
      | some hash => (.done none [], hasher (Hasher.empty hash))
  | .hmac name key =>
      match Hash.find? name with
      | none => (.idle, tool)
      | some hash => (.done none [], hmac (Hmac.ofKey hash key))
  | .kmac bits key custom => store kmac (Kmac.ofKey bits key custom)
  | .xts direction tweak input output =>
      match tool, Block.ofBytes? 16 tweak with
      | xts context, some position =>
          let outcome := Xts.crypt direction context position input output
          (.done outcome.refusal [outcome.output], xts outcome.context)
      | other, _ => (.idle, other)
  | .encipher iv aad input output tag =>
      match tool with
      | gcm context =>
          let sealed := context.encryptInto iv aad input output tag
          (.done sealed.refusal [sealed.output, sealed.tag], gcm sealed.context)
      | other => (.idle, other)
  | .keystream input output =>
      match tool with
      | stream held => give stream output (Keystream.apply held input output.length)
      | other => (.idle, other)
  | .reset => tool.restart
  | .start iv =>
      match tool with
      | gmac context =>
          match context.reset iv with
          | .error cause => (.done (some cause) [], gmac context)
          | .ok started => (.done none [], gmac started)
      | other => (.idle, other)
  | .absorb data => tool.absorb data
  | .finish tag => tool.finish tag
  | .chaining output =>
      match tool with
      | hasher held => give hasher output (held.chainingInto output.length, held)
      | other => (.idle, other)
  | .hmacOnce name key data tag =>
      match Hash.find? name with
      | none => (.idle, tool)
      | some hash => (ofTag tag (Hmac.compute hash key data tag.length), tool)
  | .kmacOnce bits key data custom tag =>
      (ofTag tag (Kmac.compute bits key data custom tag.length), tool)
  | .digestOnce name data output =>
      match Hash.find? name with
      | none => (.idle, tool)
      | some hash => (ofTag output (hash.digestInto data output.length), tool)
  | .concat name secret info infoLength output =>
      match Hash.find? name with
      | none => (.idle, tool)
      | some hash =>
          (ofTag output (Derivation.concat hash secret info infoLength output.length), tool)
  | .pbkdf2 name password salt iterations output =>
      match Hash.find? name with
      | none => (.idle, tool)
      | some hash =>
          (ofTag output (Derivation.pbkdf2 hash password salt iterations output.length), tool)
  | call =>
      match tool with
      | cipher held => onCipher held call
      | other => (.idle, other)

def make {Context : Type} (wrap : Context → Tool) (call : Attempt Context) :
    Logged (ModeAnswer × Tool) := do
  let made ← call.run
  pure (store wrap made)

def answerOnce (tool : Tool) (output : Bytes) (call : Attempt Bytes) :
    Logged (ModeAnswer × Tool) := do
  let outcome ← call.run
  pure (ofTag output outcome, tool)

def fromKey (algorithm : CipherAlgorithm Empty) (key : Bytes) : Form → Logged (ModeAnswer × Tool)
  | .cipher => make cipher (algorithm.withKey key)
  | .xts => make xts (Xts.ofKey algorithm key)
  | .gcm => make gcm (Gcm.ofKey algorithm key)
  | .cmac => make cmac (Cmac.ofKey algorithm key)
  | .xcbc => make xcbc (Xcbc.ofKey algorithm key)
  | .gmac => make gmac (Gmac.ofKey algorithm key)

def tagOnce (algorithm : CipherAlgorithm Empty) (key data : Bytes) (size : Nat) :
    BlockMacForm → Attempt Bytes
  | .cmac => Cmac.compute algorithm key data size
  | .xcbc => Xcbc.compute algorithm key data size

-- What memory can be had is not the library's to say.
def serve (allocator : Derivation.Scrypt.Allocator) (tool : Tool) :
    Operation Bytes → Logged (ModeAnswer × Tool)
  | .quiet call => pure (tool.serveQuiet call)
  | .fromKey form name key =>
      match BuiltInCipher.named? name with
      | none => pure (.idle, tool)
      | some algorithm => fromKey algorithm key form
  | .stream name key iv =>
      match StreamAlgorithm.find? name with
      | none => pure (.idle, tool)
      | some algorithm => make stream (algorithm.withKey key iv)
  | .decipher iv aad input output tag =>
      match tool with
      | gcm context => do
          let opening ← context.decrypt iv aad input output tag
          pure (.done opening.refusal [opening.output], gcm opening.context)
      | other => pure (.idle, other)
  | .blockMacOnce form name key data tag =>
      match BuiltInCipher.named? name with
      | none => pure (.idle, tool)
      | some algorithm => answerOnce tool tag (tagOnce algorithm key data tag.length form)
  | .gmacOnce name key iv data tag =>
      match BuiltInCipher.named? name with
      | none => pure (.idle, tool)
      | some algorithm => answerOnce tool tag (Gmac.compute algorithm key iv data tag.length)
  | .scrypt password salt cost width lanes output =>
      answerOnce tool output
        (Derivation.scryptWith allocator password salt cost width lanes output.length)

end Tool

def ModeAnswer.refusal : ModeAnswer → Option Error
  | done refusal _ => refusal
  | size _ => none
  | idle => none

def Form.keyRecords (algorithm : CipherAlgorithm Empty) (length : Nat) : Form → List LogRecord
  | cipher => algorithm.keyRecords length
  | xts => Xts.keyRecords algorithm length
  | gcm => Gcm.keyRecords algorithm length
  | cmac => Cmac.keyRecords algorithm length
  | xcbc => Xcbc.keyRecords algorithm length
  | gmac => Gcm.keyRecords algorithm length

def BlockMacForm.form : BlockMacForm → Form
  | cmac => .cmac
  | xcbc => .xcbc

namespace Operation

/-- What is logged whatever the bytes are. Strings are given by their lengths. -/
def announced : Operation Nat → List LogRecord
  | quiet _ => []
  | fromKey form name key => ((BuiltInCipher.named? name).map (form.keyRecords · key)).getD []
  | stream name key iv => ((StreamAlgorithm.find? name).map (·.keyRecords key iv)).getD []
  | decipher _ _ _ _ _ => []
  | blockMacOnce form name key _ _ =>
      ((BuiltInCipher.named? name).map (form.form.keyRecords · key)).getD []
  | gmacOnce name key _ _ _ =>
      ((BuiltInCipher.named? name).map (Form.gmac.keyRecords · key)).getD []
  | scrypt _ _ cost width lanes _ => Derivation.scryptRecords cost width lanes

/-- What is logged besides: the record of a wrong tag. -/
def denied (operation : Operation Bytes) (answer : ModeAnswer) : List LogRecord :=
  match operation with
  | decipher _ _ _ _ _ =>
      if answer.refusal = some .authenticationFailed then [Gcm.mismatch] else []
  | _ => []

end Operation

namespace Tool

theorem make_records {Context : Type} (wrap : Context → Tool) (call : Attempt Context) :
    (make wrap call).records = call.run.records := List.append_nil _

theorem answer_once_records (tool : Tool) (output : Bytes) (call : Attempt Bytes) :
    (answerOnce tool output call).records = call.run.records := List.append_nil _

theorem from_key_records (algorithm : CipherAlgorithm Empty)
    (known : algorithm ∈ CipherAlgorithm.builtIn) (key : Bytes) (form : Form) :
    (fromKey algorithm key form).records = form.keyRecords algorithm key.length := by
  cases form with
  | cipher => exact (make_records _ _).trans (algorithm.with_key_records key)
  | xts => exact (make_records _ _).trans (Xts.of_key_records algorithm known key)
  | gcm => exact (make_records _ _).trans (Gcm.of_key_records algorithm key)
  | cmac => exact (make_records _ _).trans (Cmac.of_key_records algorithm key)
  | xcbc => exact (make_records _ _).trans (Xcbc.of_key_records algorithm known key)
  | gmac => exact (make_records _ _).trans (Gmac.of_key_records algorithm key)

theorem tag_once_records (algorithm : CipherAlgorithm Empty)
    (known : algorithm ∈ CipherAlgorithm.builtIn) (key data : Bytes) (size : Nat)
    (form : BlockMacForm) :
    (tagOnce algorithm key data size form).run.records =
      form.form.keyRecords algorithm key.length := by
  cases form with
  | cmac => exact Cmac.compute_records algorithm key data size
  | xcbc => exact Xcbc.compute_records algorithm known key data size

theorem serve_records (allocator : Derivation.Scrypt.Allocator) (tool : Tool)
    (operation : Operation Bytes) :
    (tool.serve allocator operation).records = (operation.map List.length).announced ++
      operation.denied (tool.serve allocator operation).value.1 := by
  -- Nothing but a refused tag tells more than the lengths do.
  cases operation with
  | quiet call => rfl
  | fromKey form name key =>
      refine Eq.trans ?_ (List.append_nil _).symm
      rw [Operation.map, Operation.announced, serve]
      cases found : BuiltInCipher.named? name with
      | none => rfl
      | some algorithm =>
          exact from_key_records algorithm (BuiltInCipher.named_known name algorithm found) key form
  | stream name key iv =>
      refine Eq.trans ?_ (List.append_nil _).symm
      rw [Operation.map, Operation.announced, serve]
      cases StreamAlgorithm.find? name with
      | none => rfl
      | some algorithm => exact (make_records _ _).trans (algorithm.with_key_records key iv)
  | decipher iv aad input output tag =>
      rw [Operation.map, Operation.announced, List.nil_append]
      cases tool with
      | gcm context =>
          exact (List.append_nil _).trans (context.decrypt_records iv aad input output tag)
      | _ => rfl
  | blockMacOnce form name key data tag =>
      refine Eq.trans ?_ (List.append_nil _).symm
      rw [Operation.map, Operation.announced, serve]
      cases found : BuiltInCipher.named? name with
      | none => rfl
      | some algorithm =>
          have known := BuiltInCipher.named_known name algorithm found
          exact (answer_once_records _ _ _).trans
            (tag_once_records algorithm known key data tag.length form)
  | gmacOnce name key iv data tag =>
      refine Eq.trans ?_ (List.append_nil _).symm
      rw [Operation.map, Operation.announced, serve]
      cases BuiltInCipher.named? name with
      | none => rfl
      | some algorithm =>
          exact (answer_once_records _ _ _).trans
            (Gmac.compute_records algorithm key iv data tag.length)
  | scrypt password salt cost width lanes output =>
      refine Eq.trans ?_ (List.append_nil _).symm
      rw [Operation.map, Operation.announced, serve]
      exact (answer_once_records _ _ _).trans
        (Derivation.scrypt_records allocator password salt cost width lanes output.length)

end Tool

namespace CopyStep

def map {Call Other : Type} (f : Call → Other) : CopyStep Call → CopyStep Other
  | call place made => call place (f made)
  | copy source target => copy source target

def announced : CopyStep (Operation Nat) → List LogRecord
  | call _ operation => operation.announced
  | copy _ _ => []

def lengths (step : CopyStep (Operation Bytes)) : CopyStep (Operation Nat) :=
  step.map (Operation.map List.length)

end CopyStep

/-- A call of the tool at some place, with its records beside the answer. -/
def Tool.respond (allocator : Derivation.Scrypt.Allocator) (tool : Tool)
    (operation : Operation Bytes) : (ModeAnswer × List LogRecord) × Tool :=
  let served := tool.serve allocator operation
  ((served.value.1, served.records), served.value.2)

abbrev LoggedStep := CopyStep (Operation Bytes) × Option (ModeAnswer × List LogRecord)

namespace LoggedStep

def records (entry : LoggedStep) : List LogRecord := (entry.2.map Prod.snd).getD []

def denied : LoggedStep → List LogRecord
  | (.call _ operation, some (answer, _)) => operation.denied answer
  | _ => []

/-- The steps of a program that holds nothing at first. -/
def run (allocator : Derivation.Scrypt.Allocator) (steps : List (CopyStep (Operation Bytes))) :
    List LoggedStep :=
  (CallRun.run (CallRun.amongCopies (Tool.respond allocator)) (fun _ => .nothing) steps).1

variable (allocator : Derivation.Scrypt.Allocator)

theorem step_records (tools : Nat → Tool) (step : CopyStep (Operation Bytes)) :
    let entry : LoggedStep := (step, (CallRun.amongCopies (Tool.respond allocator) tools step).1)
    entry.records = step.lengths.announced ++ entry.denied := by
  cases step with
  | call place operation => exact (tools place).serve_records allocator operation
  | copy source target => rfl

theorem run_records (tools : Nat → Tool) (steps : List (CopyStep (Operation Bytes))) :
    (CallRun.run (CallRun.amongCopies (Tool.respond allocator)) tools steps).1.map records =
      List.zipWith (· ++ ·) (steps.map (·.lengths.announced))
        ((CallRun.run (CallRun.amongCopies (Tool.respond allocator)) tools steps).1.map
          denied) := by
  induction steps generalizing tools with
  | nil => rfl
  | cons step rest ih =>
      rw [CallRun.run, List.map_cons, List.map_cons, List.map_cons, List.zipWith_cons_cons, ih]
      exact congrArg (· :: _) (step_records allocator tools step)

end LoggedStep

def emitted (allocator : Derivation.Scrypt.Allocator) (steps : List (CopyStep (Operation Bytes))) :
    List LogRecord :=
  ((LoggedStep.run allocator steps).map LoggedStep.records).flatten

/-- Two programs that differ in nothing but bytes log the same at every step, and besides the record
of a wrong tag exactly where deciphering was refused for it. Where that happens at the same steps in
both, their records are the same. -/
theorem records_tell_lengths (leftMemory rightMemory : Derivation.Scrypt.Allocator)
    (left right : List (CopyStep (Operation Bytes)))
    (alike : left.map CopyStep.lengths = right.map CopyStep.lengths) :
    (∃ common : List (List LogRecord),
      (LoggedStep.run leftMemory left).map LoggedStep.records =
          List.zipWith (· ++ ·) common ((LoggedStep.run leftMemory left).map LoggedStep.denied) ∧
        (LoggedStep.run rightMemory right).map LoggedStep.records =
          List.zipWith (· ++ ·) common ((LoggedStep.run rightMemory right).map LoggedStep.denied)) ∧
      ((LoggedStep.run leftMemory left).map LoggedStep.denied =
        (LoggedStep.run rightMemory right).map LoggedStep.denied →
        emitted leftMemory left = emitted rightMemory right) := by
  have common : left.map (·.lengths.announced) = right.map (·.lengths.announced) := by
    have announced := congrArg (List.map CopyStep.announced) alike
    rwa [List.map_map, List.map_map] at announced
  have lefts : (LoggedStep.run leftMemory left).map LoggedStep.records = List.zipWith (· ++ ·)
      (left.map (·.lengths.announced)) ((LoggedStep.run leftMemory left).map LoggedStep.denied) :=
    LoggedStep.run_records leftMemory (fun _ => .nothing) left
  have rights : (LoggedStep.run rightMemory right).map LoggedStep.records = List.zipWith (· ++ ·)
      (left.map (·.lengths.announced))
      ((LoggedStep.run rightMemory right).map LoggedStep.denied) := by
    rw [common]
    exact LoggedStep.run_records rightMemory (fun _ => .nothing) right
  refine ⟨⟨_, lefts, rights⟩, ?_⟩
  intro denied
  rw [emitted, emitted, lefts, rights, denied]

def sampleSteps (key data tag : Bytes) : List (CopyStep (Operation Bytes)) :=
  [.call 0 (.fromKey .xcbc "serpent" key), .call 0 (.quiet (.absorb data)), .copy 0 1,
    .call 0 (.fromKey .gcm "Serpent" key), .call 0 (.decipher data [] [] [] tag),
    .call 0 (.stream "ZUC-128" key [])]

/-- One tag for two keys and two vectors: it is right for the first, so only the second run logs
anything of its own. -/
theorem tag_of_another_key_logged :
    let memory := Derivation.Scrypt.limitedAllocator
    let left := sampleSteps (Bytes.zeros 16) [1] [63, 229, 224, 208]
    let right := sampleSteps (List.replicate 16 1) [2] [63, 229, 224, 208]
    let keyed : LogRecord :=
      { level := .debug, text := "Serpent context initialized (128-bit key)" }
    (∃ common : List (List LogRecord),
      (LoggedStep.run memory left).map LoggedStep.records =
          List.zipWith (· ++ ·) common ((LoggedStep.run memory left).map LoggedStep.denied) ∧
        (LoggedStep.run memory right).map LoggedStep.records =
          List.zipWith (· ++ ·) common ((LoggedStep.run memory right).map LoggedStep.denied)) ∧
      emitted memory left = [keyed, keyed, keyed] ∧ emitted memory right =
        [keyed, keyed, keyed, Gcm.mismatch] := by
  refine ⟨(records_tell_lengths Derivation.Scrypt.limitedAllocator
    Derivation.Scrypt.limitedAllocator (sampleSteps (Bytes.zeros 16) [1] [63, 229, 224, 208])
    (sampleSteps (List.replicate 16 1) [2] [63, 229, 224, 208]) rfl).1, ?_, ?_⟩
  · decide +kernel
  · decide +kernel

end SymmetricKey
