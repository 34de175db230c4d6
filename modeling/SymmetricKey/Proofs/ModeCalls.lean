import SymmetricKey.Proofs.BufferedGcm
import SymmetricKey.Proofs.BufferedMacs
import SymmetricKey.Proofs.BufferedTweaks

/-!
Programs that call the modes and the MACs of a block cipher one after the other,
on a machine and in the library. A program holds one thing at a time: a cipher,
or the context of a mode or of a MAC. It sees of each call whether it was
refused, and the buffers that it lent.
-/

namespace SymmetricKey

/-- What a program holds between two calls. -/
inductive Held (Engine CmacState XcbcState GmacState : Type) where
  | nothing
  | cipher (cipher : KeyedCipher Engine)
  | xts (context : Xts (KeyedCipher Engine))
  | gcm (context : Gcm (KeyedCipher Engine))
  | cmac (context : CmacState)
  | xcbc (context : XcbcState)
  | gmac (context : GmacState)

inductive CipherCall where
  | ctr (bits : Nat) (counter input output : Bytes)
  | cfb (direction : Direction) (bits : Nat) (iv input output : Bytes)

inductive TagCall (Vector : Type) where
  | reset (vector : Vector)
  | absorb (data : Bytes)
  | finish (tag : Bytes)

inductive Form where
  | cipher
  | xts
  | gcm
  | cmac
  | xcbc
  | gmac

inductive BlockMacForm where
  | cmac
  | xcbc

inductive ModeCall (Engine : Type) where
  | hold (cipher : KeyedCipher Engine)
  | fromKey (form : Form) (algorithm : CipherAlgorithm Engine) (key : Bytes)
  | gcmOf (cipher : KeyedCipher Engine)
  | cmacOf (cipher : KeyedCipher Engine)
  | cipher (call : CipherCall)
  | xts (direction : Direction) (position : Block 16) (input output : Bytes)
  | gcm (call : Gcm.Call)
  | cmacSize
  | blockMac (call : TagCall Unit)
  | gmac (call : TagCall Bytes)
  | blockMacOnce (form : BlockMacForm) (algorithm : CipherAlgorithm Engine) (key data tag : Bytes)
  | gmacOnce (algorithm : CipherAlgorithm Engine) (key iv data tag : Bytes)

/-- What the caller sees: the refusal, if there was one, and the buffers that were lent. -/
inductive ModeAnswer where
  | done (refusal : Option Error) (buffers : List Bytes)
  | size (bytes : Nat)
  -- There is no such call of what is held.
  | idle
deriving DecidableEq

namespace ModeAnswer

def ofWritten {C : Type} (written : Written C) : ModeAnswer := done written.refusal [written.output]

-- A refusal leaves the buffer of the tag as it was.
def ofTag (tag : Bytes) : Except Error Bytes → ModeAnswer
  | .error cause => done (some cause) [tag]
  | .ok bytes => done none [bytes]

theorem of_tag_outcome {C : Type} (tag : Bytes) (written : Written C)
    (spared : written.refusal.isSome → written.output = tag) :
    ofTag tag written.outcome = ofWritten written := by
  cases refused : written.refusal with
  | none => rw [Written.outcome, refused, ofTag, ofWritten, refused]
  | some cause =>
      rw [Written.outcome, refused, ofTag, ofWritten, refused,
        spared (Option.isSome_of_eq_some refused)]

end ModeAnswer

open ModeAnswer (ofWritten ofTag)

namespace Held

variable {Engine CmacState XcbcState GmacState : Type}

-- A program that is refused something new holds nothing.
def store {Context : Type} (wrap : Context → Held Engine CmacState XcbcState GmacState) :
    Except Error Context → ModeAnswer × Held Engine CmacState XcbcState GmacState
  | .error cause => (.done (some cause) [], nothing)
  | .ok context => (.done none [], wrap context)

def ofLeftover (left : Leftover (KeyedCipher Engine)) :
    ModeAnswer × Held Engine CmacState XcbcState GmacState :=
  (.done left.refusal [left.register, left.output], cipher left.cipher)

def ofTweaked (left : Xts.Outcome (KeyedCipher Engine)) :
    ModeAnswer × Held Engine CmacState XcbcState GmacState :=
  (.done left.refusal [left.output], xts left.context)

def ofSealed (left : Gcm.Sealed (KeyedCipher Engine)) :
    ModeAnswer × Held Engine CmacState XcbcState GmacState :=
  (.done left.refusal [left.output, left.tag], gcm left.context)

def ofOpening (left : Gcm.Opening (KeyedCipher Engine)) :
    ModeAnswer × Held Engine CmacState XcbcState GmacState :=
  (.done left.refusal [left.output], gcm left.context)

end Held

open Held (store ofLeftover ofTweaked ofSealed ofOpening)

abbrev LibraryHeld (Engine : Type) :=
  Held Engine (Cmac (KeyedCipher Engine)) (Xcbc (KeyedCipher Engine)) (Gmac (KeyedCipher Engine))

namespace LibraryHeld

variable {Engine : Type} [BlockCipher Engine]

def fromKey (algorithm : CipherAlgorithm Engine) (key : Bytes) :
    Form → ModeAnswer × LibraryHeld Engine
  | .cipher => store .cipher (algorithm.withKey key).run.value
  | .xts => store .xts (Xts.ofKey algorithm key).run.value
  | .gcm => store .gcm (Gcm.ofKey algorithm key).run.value
  | .cmac => store .cmac (Cmac.ofKey algorithm key).run.value
  | .xcbc => store .xcbc (Xcbc.ofKey algorithm key).run.value
  | .gmac => store .gmac (Gmac.ofKey algorithm key).run.value

def onCipher (cipher : KeyedCipher Engine) : CipherCall → ModeAnswer × LibraryHeld Engine
  | .ctr bits counter input output =>
      ofLeftover (.ofProgress output (Ctr.encrypt cipher bits counter input output.length))
  | .cfb direction bits iv input output =>
      ofLeftover (.ofProgress output (Cfb.crypt direction cipher bits iv input output.length))

def onGcm (context : Gcm (KeyedCipher Engine)) : Gcm.Call → ModeAnswer × LibraryHeld Engine
  | .encipher iv aad input output tag => ofSealed (context.encryptInto iv aad input output tag)
  | .decipher iv aad input output tag => ofOpening (context.decrypt iv aad input output tag).value

/-- A call of one of the MACs. -/
def onTag {Context Vector : Type} (wrap : Context → LibraryHeld Engine)
    (reset : Vector → Option Error × Context) (absorb : Bytes → Option Error × Context)
    (finish : Nat → Except Error Bytes × Context) : TagCall Vector → ModeAnswer × LibraryHeld Engine
  | .reset vector => (.done (reset vector).1 [], wrap (reset vector).2)
  | .absorb data => (.done (absorb data).1 [], wrap (absorb data).2)
  | .finish tag => (ofTag tag (finish tag.length).1, wrap (finish tag.length).2)

def onCmac (context : Cmac (KeyedCipher Engine)) : TagCall Unit → ModeAnswer × LibraryHeld Engine :=
  onTag .cmac (fun _ => (none, context.reset)) context.absorb context.finish

def onXcbc (context : Xcbc (KeyedCipher Engine)) : TagCall Unit → ModeAnswer × LibraryHeld Engine :=
  onTag .xcbc (fun _ => (none, context.reset)) context.absorb context.finish

def startGmac (context : Gmac (KeyedCipher Engine)) (iv : Bytes) :
    Option Error × Gmac (KeyedCipher Engine) :=
  match context.reset iv with
  | .error cause => (some cause, context)
  | .ok started => (none, started)

def onGmac (context : Gmac (KeyedCipher Engine)) :
    TagCall Bytes → ModeAnswer × LibraryHeld Engine :=
  onTag .gmac (startGmac context) (fun data => (none, context.absorb data)) context.finish

def tagOnce (algorithm : CipherAlgorithm Engine) (key data : Bytes) (size : Nat) :
    BlockMacForm → Except Error Bytes
  | .cmac => (Cmac.compute algorithm key data size).run.value
  | .xcbc => (Xcbc.compute algorithm key data size).run.value

def serve (held : LibraryHeld Engine) : ModeCall Engine → ModeAnswer × LibraryHeld Engine
  | .hold cipher => (.done none [], .cipher cipher)
  | .fromKey form algorithm key => fromKey algorithm key form
  | .gcmOf cipher => store .gcm (Gcm.ofCipher cipher)
  | .cmacOf cipher => store .cmac (Cmac.ofCipher cipher)
  | .cipher call =>
      match held with
      | .cipher cipher => onCipher cipher call
      | other => (.idle, other)
  | .xts direction position input output =>
      match held with
      | .xts context => ofTweaked (Xts.crypt direction context position input output)
      | other => (.idle, other)
  | .gcm call =>
      match held with
      | .gcm context => onGcm context call
      | other => (.idle, other)
  | .cmacSize =>
      match held with
      | .cmac context => (.size context.size, .cmac context)
      | other => (.idle, other)
  | .blockMac call =>
      match held with
      | .cmac context => onCmac context call
      | .xcbc context => onXcbc context call
      | other => (.idle, other)
  | .gmac call =>
      match held with
      | .gmac context => onGmac context call
      | other => (.idle, other)
  | .blockMacOnce form algorithm key data tag =>
      (ofTag tag (tagOnce algorithm key data tag.length form), held)
  | .gmacOnce algorithm key iv data tag =>
      (ofTag tag (Gmac.compute algorithm key iv data tag.length).run.value, held)

end LibraryHeld

abbrev MachineHeld (Engine : Type) :=
  Held Engine (BlockMac (KeyedCipher Engine)) (BlockMac (KeyedCipher Engine))
    (GmacBuffer (KeyedCipher Engine))

namespace MachineHeld

variable {Engine : Type} [ForeignCipher Engine]

def keep {Context : Type} (wrap : Context → MachineHeld Engine)
    (call : Checked (Except Error Context)) :
    Checked (ModeAnswer × MachineHeld Engine) := do
  let made ← call
  .ok (store wrap made)

def fromKey (algorithm : CipherAlgorithm Engine) (key : Bytes) :
    Form → Checked (ModeAnswer × MachineHeld Engine)
  | .cipher => keep .cipher (algorithm.checkedWithKey key)
  | .xts => keep .xts (Xts.checkedOfKey algorithm key)
  | .gcm => keep .gcm (Gcm.bufferedOfKey algorithm key)
  | .cmac => keep .cmac (Cmac.bufferedOfKey algorithm key)
  | .xcbc => keep .xcbc (Xcbc.bufferedOfKey algorithm key)
  | .gmac => keep .gmac (GmacBuffer.ofKey algorithm key)

def onCipher (cipher : KeyedCipher Engine) : CipherCall → Checked (ModeAnswer × MachineHeld Engine)
  | .ctr bits counter input output => do
      let left ← Ctr.buffered cipher bits counter input output
      .ok (ofLeftover left)
  | .cfb direction bits iv input output => do
      let left ← Cfb.buffered direction cipher bits iv input output
      .ok (ofLeftover left)

def onGcm (context : Gcm (KeyedCipher Engine)) :
    Gcm.Call → Checked (ModeAnswer × MachineHeld Engine)
  | .encipher iv aad input output tag => do
      let left ← context.bufferedEncrypt iv aad input output tag
      .ok (ofSealed left)
  | .decipher iv aad input output tag => do
      let left ← context.bufferedDecrypt iv aad input output tag
      .ok (ofOpening left)

def onTag {Mac Vector : Type} (wrap : Mac → MachineHeld Engine)
    (reset : Vector → Checked (Option Error × Mac)) (absorb : Bytes → Checked (Option Error × Mac))
    (finish : Bytes → Checked (Written Mac)) :
    TagCall Vector → Checked (ModeAnswer × MachineHeld Engine)
  | .reset vector => do
      let left ← reset vector
      .ok (.done left.1 [], wrap left.2)
  | .absorb data => do
      let left ← absorb data
      .ok (.done left.1 [], wrap left.2)
  | .finish tag => do
      let left ← finish tag
      .ok (ofWritten left, wrap left.after)

def onBlockMac (wrap : BlockMac (KeyedCipher Engine) → MachineHeld Engine) (width : Nat)
    (mac : BlockMac (KeyedCipher Engine)) :
    TagCall Unit → Checked (ModeAnswer × MachineHeld Engine) :=
  onTag wrap (fun _ => .ok (none, mac.reset)) mac.absorb (mac.finish width)

def absorbGmac (context : GmacBuffer (KeyedCipher Engine)) (data : Bytes) :
    Checked (Option Error × GmacBuffer (KeyedCipher Engine)) := do
  let after ← context.absorb data
  .ok (none, after)

def onGmac (context : GmacBuffer (KeyedCipher Engine)) :
    TagCall Bytes → Checked (ModeAnswer × MachineHeld Engine) :=
  onTag .gmac context.reset (absorbGmac context) context.finish

def tagOnce (algorithm : CipherAlgorithm Engine) (key data tag : Bytes) :
    BlockMacForm → Checked (Written Unit)
  | .cmac => Cmac.bufferedCompute algorithm key data tag
  | .xcbc => Xcbc.bufferedCompute algorithm key data tag

def answerOnce (held : MachineHeld Engine) (call : Checked (Written Unit)) :
    Checked (ModeAnswer × MachineHeld Engine) := do
  let left ← call
  .ok (ofWritten left, held)

def serve (held : MachineHeld Engine) : ModeCall Engine → Checked (ModeAnswer × MachineHeld Engine)
  | .hold cipher => .ok (.done none [], .cipher cipher)
  | .fromKey form algorithm key => fromKey algorithm key form
  | .gcmOf cipher => keep .gcm (Gcm.bufferedOfCipher cipher)
  | .cmacOf cipher => keep .cmac (Cmac.bufferedOfCipher cipher)
  | .cipher call =>
      match held with
      | .cipher cipher => onCipher cipher call
      | other => .ok (.idle, other)
  | .xts direction position input output =>
      match held with
      | .xts context => do
          let outcome ← Xts.buffered direction context position input output
          .ok (ofTweaked outcome)
      | other => .ok (.idle, other)
  | .gcm call =>
      match held with
      | .gcm context => onGcm context call
      | other => .ok (.idle, other)
  | .cmacSize =>
      match held with
      | .cmac mac => .ok (.size (ForeignCipher.blockSize mac.cipher), .cmac mac)
      | other => .ok (.idle, other)
  | .blockMac call =>
      match held with
      | .cmac mac => onBlockMac .cmac (ForeignCipher.blockSize mac.cipher) mac call
      | .xcbc mac => onBlockMac .xcbc Xcbc.size mac call
      | other => .ok (.idle, other)
  | .gmac call =>
      match held with
      | .gmac context => onGmac context call
      | other => .ok (.idle, other)
  | .blockMacOnce form algorithm key data tag =>
      answerOnce held (tagOnce algorithm key data tag form)
  | .gmacOnce algorithm key iv data tag =>
      answerOnce held (GmacBuffer.compute algorithm key iv data tag)

end MachineHeld

end SymmetricKey
