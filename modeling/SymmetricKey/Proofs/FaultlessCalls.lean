import SymmetricKey.Proofs.CallRuns
import SymmetricKey.Proofs.ModeCalls

/-!
Programs that never stop a machine. It would stop at a range that leaves its
buffer, at a copy between different lengths, at a number that does not fit and
at a loop that goes on. Whatever ciphers are supplied, each call comes to its
end with buffers of the lengths that the next call relies on. With plain ciphers
it is answered as in the library.
-/

namespace SymmetricKey

open ModeAnswer (ofWritten ofTag)
open Held (store)

/-- A machine word counts the bits of every key that is taken, and the bytes of every text. No
machine has room for others. -/
def ModeCall.Fits {Engine : Type} : ModeCall Engine → Prop
  | .fromKey .xts algorithm key =>
      algorithm.Counts (key.take (key.length / 2)) ∧ algorithm.Counts (key.drop (key.length / 2))
  | .fromKey _ algorithm key => algorithm.Counts key
  | .xts _ _ input _ => input.length < 2 ^ 64
  | .blockMacOnce _ algorithm key _ _ => algorithm.Counts key
  | .gmacOnce algorithm key _ _ _ => algorithm.Counts key
  | _ => True

namespace MachineHeld

variable {Engine : Type}

inductive Alike : MachineHeld Engine → LibraryHeld Engine → Prop where
  | nothing : Alike .nothing .nothing
  | cipher (cipher : KeyedCipher Engine) : Alike (.cipher cipher) (.cipher cipher)
  | xts (context : Xts (KeyedCipher Engine)) : Alike (.xts context) (.xts context)
  | gcm (context : Gcm (KeyedCipher Engine)) : Alike (.gcm context) (.gcm context)
  | cmac (mac : BlockMac (KeyedCipher Engine)) (context : Cmac (KeyedCipher Engine))
      (same : context.view = mac.view) : Alike (.cmac mac) (.cmac context)
  | xcbc (mac : BlockMac (KeyedCipher Engine)) (context : Xcbc (KeyedCipher Engine))
      (same : context.view = mac.view) : Alike (.xcbc mac) (.xcbc context)
  | gmac (context : GmacBuffer (KeyedCipher Engine)) : Alike (.gmac context) (.gmac context.view)

structure Shows (result : ModeAnswer × MachineHeld Engine)
    (library : ModeAnswer × LibraryHeld Engine) :
    Prop where
  answer : result.1 = library.1
  held : Alike result.2 library.2

variable [ForeignCipher Engine]

/-- The buffers are as long as the calls rely on. -/
def Sound : MachineHeld Engine → Prop
  | .cmac mac => Cmac.Fits mac
  | .xcbc mac => mac.Sound Xcbc.size
  | .gmac context => context.hash.Sound
  | _ => True

/-- The call comes to its end. If everything is plain, it ends in the same way as in the library. -/
def Ends (plain : Prop) (call : Checked (ModeAnswer × MachineHeld Engine))
    (same : ModeAnswer × MachineHeld Engine → Prop) : Prop :=
  ∃ result, call = .ok result ∧ result.2.Sound ∧ (plain → same result)

theorem keep_ends {Context Other : Type} {sized : Context → Prop} {alike : Context → Other → Prop}
    {plain : Prop} (wrap : Context → MachineHeld Engine) (wrapLibrary : Other → LibraryHeld Engine)
    {call : Checked (Except Error Context)} {library : Except Error Other}
    (makes : Checked.Makes sized plain alike call library)
    (sound : ∀ context, sized context → (wrap context).Sound)
    (same : ∀ context other, alike context other → Alike (wrap context) (wrapLibrary other)) :
    Ends plain (keep wrap call) (Shows · (store wrapLibrary library)) := by
  obtain ⟨made, ran, right, agrees⟩ := makes
  rw [keep, ran, Checked.ok_bind]
  refine ⟨_, rfl, ?_, ?_⟩
  · cases made with
    | error cause => trivial
    | ok context => exact sound context (right context rfl)
  · intro here
    cases made with
    | error cause =>
        rw [Checked.agrees_refused (agrees here)]
        exact ⟨rfl, .nothing⟩
    | ok context =>
        obtain ⟨other, given, shown⟩ := Checked.agrees_given (agrees here)
        rw [given]
        exact ⟨rfl, same context other shown⟩

theorem answer_once_ends {plain : Prop} {tag : Bytes} {call : Checked (Written Unit)}
    {library : Except Error Bytes} (tags : Checked.Tags plain tag call library)
    (held : MachineHeld Engine) (sound : held.Sound) :
    Ends plain (answerOnce held call)
      (fun result => ∀ other, Alike held other → Shows result (ofTag tag library, other)) := by
  obtain ⟨left, ran, spared, given⟩ := tags
  rw [answerOnce, ran, Checked.ok_bind]
  refine ⟨_, rfl, sound, ?_⟩
  intro here other same
  refine ⟨?_, same⟩
  rw [given here, ModeAnswer.of_tag_outcome tag left spared]

theorem idle_ends (plain : Prop) (held : MachineHeld Engine) (sound : held.Sound)
    (library : LibraryHeld Engine → ModeAnswer × LibraryHeld Engine)
    (idle : ∀ other, Alike held other → library other = (.idle, other)) :
    Ends plain (.ok (.idle, held))
      (fun result => ∀ other, Alike held other → Shows result (library other)) := by
  refine ⟨_, rfl, sound, ?_⟩
  intro _ other same
  rw [idle other same]
  exact ⟨rfl, same⟩

section Tags
variable {Mac Context Vector : Type} (plain : Prop) (sized : Mac → Prop)
  (alike : Mac → Context → Prop)

/-- A call of a MAC comes to its end, and is answered as in the library. -/
def Turns (mac : Mac) (call : Checked (Option Error × Mac))
    (library : Context → Option Error × Context) :
    Prop :=
  ∃ left, call = .ok left ∧ sized left.2 ∧
    (plain → ∀ context, alike mac context →
      left.1 = (library context).1 ∧ alike left.2 (library context).2)

def Closes (mac : Mac) (tag : Bytes) (call : Checked (Written Mac))
    (library : Context → Except Error Bytes × Context) : Prop :=
  ∃ left, call = .ok left ∧ sized left.after ∧ (left.refusal.isSome → left.output = tag) ∧
    (plain → ∀ context, alike mac context →
      left.outcome = (library context).1 ∧ alike left.after (library context).2)

variable {plain} in
theorem on_tag_ends {wrap : Mac → MachineHeld Engine} {wrapLibrary : Context → LibraryHeld Engine}
    (sound : ∀ mac, sized mac → (wrap mac).Sound)
    (same : ∀ mac context, alike mac context → Alike (wrap mac) (wrapLibrary context)) (mac : Mac)
    {reset : Vector → Checked (Option Error × Mac)} {absorb : Bytes → Checked (Option Error × Mac)}
    {finish : Bytes → Checked (Written Mac)} {restart : Context → Vector → Option Error × Context}
    {take : Context → Bytes → Option Error × Context}
    {close : Context → Nat → Except Error Bytes × Context}
    (resets : ∀ vector, Turns plain sized alike mac (reset vector) (restart · vector))
    (absorbs : ∀ data, Turns plain sized alike mac (absorb data) (take · data))
    (finishes : ∀ tag, Closes plain sized alike mac tag (finish tag) (close · tag.length))
    (call : TagCall Vector) :
    Ends plain (onTag wrap reset absorb finish call)
      (fun result => ∀ context, alike mac context →
        Shows result (LibraryHeld.onTag wrapLibrary (restart context) (take context) (close context)
          call)) := by
  have turned {step : Checked (Option Error × Mac)} {library : Context → Option Error × Context}
      (turns : Turns plain sized alike mac step library) :
      Ends plain (do
          let left ← step
          .ok (.done left.1 [], wrap left.2))
        (fun result => ∀ context, alike mac context →
          Shows result (.done (library context).1 [], wrapLibrary (library context).2)) := by
    obtain ⟨left, ran, kept, given⟩ := turns
    rw [ran, Checked.ok_bind]
    refine ⟨_, rfl, sound _ kept, ?_⟩
    intro here context before
    obtain ⟨answer, after⟩ := given here context before
    exact ⟨congrArg (ModeAnswer.done · []) answer, same _ _ after⟩
  cases call with
  | reset vector => exact turned (resets vector)
  | absorb data => exact turned (absorbs data)
  | finish tag =>
      obtain ⟨left, ran, kept, spared, given⟩ := finishes tag
      rw [onTag, ran, Checked.ok_bind]
      refine ⟨_, rfl, sound _ kept, ?_⟩
      intro here context before
      obtain ⟨answer, after⟩ := given here context before
      refine ⟨?_, same _ _ after⟩
      rw [← ModeAnswer.of_tag_outcome tag left spared, answer]
      rfl

end Tags

section Serving
variable [BlockCipher Engine]

theorem from_key_ends (algorithm : CipherAlgorithm Engine) (key : Bytes) (form : Form)
    (fits : (ModeCall.fromKey form algorithm key).Fits) :
    Ends (Plain (KeyedCipher Engine)) (fromKey algorithm key form)
      (Shows · (LibraryHeld.fromKey algorithm key form)) := by
  cases form with
  | cipher =>
      refine keep_ends .cipher .cipher (algorithm.checked_with_key_makes _ key fits) ?_ ?_
      · exact fun _ _ => trivial
      · rintro cipher _ rfl
        exact .cipher cipher
  | xts =>
      refine keep_ends .xts .xts (Xts.checked_of_key_makes _ algorithm key fits.1 fits.2) ?_ ?_
      · exact fun _ _ => trivial
      · rintro context _ rfl
        exact .xts context
  | gcm =>
      refine keep_ends .gcm .gcm (Gcm.buffered_of_key_makes algorithm key fits) ?_ ?_
      · exact fun _ _ => trivial
      · rintro context _ rfl
        exact .gcm context
  | cmac =>
      exact keep_ends .cmac .cmac (Cmac.buffered_of_key_makes algorithm key fits)
        (fun _ sound => sound) Alike.cmac
  | xcbc =>
      exact keep_ends .xcbc .xcbc (Xcbc.buffered_of_key_makes algorithm key) (fun _ sound => sound)
        Alike.xcbc
  | gmac =>
      refine keep_ends .gmac .gmac (GmacBuffer.of_key_makes algorithm key fits)
        (fun _ sound => sound) ?_
      rintro context _ rfl
      exact .gmac context

theorem on_cipher_ends (cipher : KeyedCipher Engine) (call : CipherCall) :
    Ends (Plain (KeyedCipher Engine)) (onCipher cipher call)
      (Shows · (LibraryHeld.onCipher cipher call)) := by
  cases call with
  | ctr bits counter input output =>
      obtain ⟨done, ran, shows⟩ := Ctr.buffered_runs cipher bits counter input output
      rw [onCipher, ran, Checked.ok_bind]
      refine ⟨_, rfl, trivial, ?_⟩
      intro plain
      rw [(shows plain).same]
      exact ⟨rfl, .cipher _⟩
  | cfb direction bits iv input output =>
      obtain ⟨done, ran, shows⟩ := Cfb.buffered_runs direction cipher bits iv input output
      rw [onCipher, ran, Checked.ok_bind]
      refine ⟨_, rfl, trivial, ?_⟩
      intro plain
      rw [(shows plain).same]
      exact ⟨rfl, .cipher _⟩

theorem on_gcm_ends (context : Gcm (KeyedCipher Engine)) (call : Gcm.Call) :
    Ends (Plain (KeyedCipher Engine)) (onGcm context call)
      (Shows · (LibraryHeld.onGcm context call)) := by
  cases call with
  | encipher iv aad input output tag =>
      obtain ⟨left, ran, same⟩ := context.buffered_encrypt_runs iv aad input output tag
      rw [onGcm, ran, Checked.ok_bind]
      refine ⟨_, rfl, trivial, ?_⟩
      intro plain
      rw [same plain]
      exact ⟨rfl, .gcm _⟩
  | decipher iv aad input output tag =>
      obtain ⟨left, ran, same⟩ := context.buffered_decrypt_runs iv aad input output tag
      rw [onGcm, ran, Checked.ok_bind]
      refine ⟨_, rfl, trivial, ?_⟩
      intro plain
      rw [same plain]
      exact ⟨rfl, .gcm _⟩

-- The two MACs of a block cipher turn what they have in common alike.
theorem on_block_mac_ends {Context : Type}
    {wrap : BlockMac (KeyedCipher Engine) → MachineHeld Engine}
    {wrapLibrary : Context → LibraryHeld Engine} (view : Context → ChainMac (KeyedCipher Engine))
    (width : Nat) (mac : BlockMac (KeyedCipher Engine)) (right : mac.Sound width)
    (sound : ∀ later : BlockMac (KeyedCipher Engine), later.Sound width →
      ForeignCipher.blockSize later.cipher = ForeignCipher.blockSize mac.cipher →
      (wrap later).Sound)
    (same : ∀ later context, view context = later.view → Alike (wrap later) (wrapLibrary context))
    {reset : Context → Context} {absorb : Context → Bytes → Option Error × Context}
    {finish : Context → Nat → Except Error Bytes × Context}
    (resets : ∀ context, view (reset context) = (view context).reset)
    (absorbs : ∀ context data, (view context).absorb data =
      ((absorb context data).1, view (absorb context data).2))
    (finishes : Plain (KeyedCipher Engine) → ∀ context, view context = mac.view → ∀ length,
      mac.view.finish length = ((finish context length).1, view (finish context length).2))
    (call : TagCall Unit) :
    Ends (Plain (KeyedCipher Engine)) (onBlockMac wrap width mac call)
      (fun result => ∀ context, view context = mac.view →
        Shows result (LibraryHeld.onTag wrapLibrary (fun _ => (none, reset context))
          (absorb context) (finish context) call)) := by
  -- The invariant has the size of a block too, which Cmac asks for at each call.
  refine on_tag_ends (fun later => later.Sound width ∧
      ForeignCipher.blockSize later.cipher = ForeignCipher.blockSize mac.cipher)
    (fun later context => view context = later.view) (fun later kept => sound later kept.1 kept.2)
    same mac ?_ ?_ ?_ call
  · intro _
    refine ⟨_, rfl, ⟨BlockMac.reset_sound width mac right, rfl⟩, ?_⟩
    intro _ context before
    refine ⟨rfl, ?_⟩
    change view (reset context) = mac.reset.view
    rw [BlockMac.reset_view width mac right, ← before, resets]
  · intro data
    obtain ⟨left, ran, kept, constant, given⟩ := BlockMac.absorb_runs width mac right data
    refine ⟨left, ran, ⟨kept, constant⟩, ?_⟩
    intro plain context before
    have taken := given plain
    rw [← before, absorbs] at taken
    obtain ⟨answer, after⟩ := Prod.mk.inj taken
    exact ⟨answer.symm, after⟩
  · intro tag
    obtain ⟨left, ran, kept, constant, spared, given⟩ := BlockMac.finish_runs width mac right tag
    refine ⟨left, ran, ⟨kept, constant⟩, spared, ?_⟩
    intro plain context before
    have ended := given plain
    rw [finishes plain context before] at ended
    obtain ⟨answer, after⟩ := Prod.mk.inj ended
    exact ⟨answer.symm, after⟩

theorem on_cmac_ends (mac : BlockMac (KeyedCipher Engine)) (fits : Cmac.Fits mac)
    (call : TagCall Unit) :
    Ends (Plain (KeyedCipher Engine))
      (onBlockMac .cmac (ForeignCipher.blockSize mac.cipher) mac call)
      (fun result => ∀ context : Cmac (KeyedCipher Engine), context.view = mac.view →
        Shows result (LibraryHeld.onCmac context call)) := by
  refine on_block_mac_ends Cmac.view _ mac fits ?_ Alike.cmac (fun _ => rfl)
    (fun _ _ => rfl) ?_ call
  · intro later kept constant
    rw [← constant] at kept
    exact kept
  · intro plain context same
    exact Cmac.finish_alike plain mac fits context same

theorem on_xcbc_ends (mac : BlockMac (KeyedCipher Engine)) (right : mac.Sound Xcbc.size)
    (call : TagCall Unit) :
    Ends (Plain (KeyedCipher Engine)) (onBlockMac .xcbc Xcbc.size mac call)
      (fun result => ∀ context : Xcbc (KeyedCipher Engine), context.view = mac.view →
        Shows result (LibraryHeld.onXcbc context call)) := by
  refine on_block_mac_ends Xcbc.view _ mac right ?_ Alike.xcbc (fun _ => rfl)
    (fun _ _ => rfl) ?_ call
  · exact fun _ kept _ => kept
  · exact fun _ context same => Xcbc.finish_alike mac right context same

theorem on_gmac_ends (context : GmacBuffer (KeyedCipher Engine)) (sound : context.hash.Sound)
    (call : TagCall Bytes) :
    Ends (Plain (KeyedCipher Engine)) (onGmac context call)
      (fun result => ∀ other, context.view = other →
        Shows result (LibraryHeld.onGmac other call)) := by
  have same (later : GmacBuffer (KeyedCipher Engine)) (other : Gmac (KeyedCipher Engine))
      (alike : later.view = other) : Alike (.gmac later) (.gmac other) := by
    rw [← alike]
    exact .gmac later
  refine on_tag_ends (fun later => later.hash.Sound) (fun later other => later.view = other)
    (fun _ kept => kept) same context ?_ ?_ ?_ call
  · intro iv
    obtain ⟨⟨refusal, after⟩, ran, kept, spared, given⟩ := context.reset_runs iv sound
    refine ⟨_, ran, kept, ?_⟩
    rintro _ _ rfl
    cases refusal with
    | some cause =>
        simp only [LibraryHeld.startGmac, given]
        exact ⟨trivial, congrArg GmacBuffer.view (spared rfl)⟩
    | none =>
        simp only [LibraryHeld.startGmac, given]
        exact ⟨trivial, trivial⟩
  · intro data
    obtain ⟨after, ran, kept, given⟩ := context.absorb_runs data sound
    rw [absorbGmac, ran, Checked.ok_bind]
    refine ⟨_, rfl, kept, ?_⟩
    rintro _ _ rfl
    exact ⟨rfl, given⟩
  · intro tag
    obtain ⟨left, ran, kept, spared, given⟩ := context.finish_runs tag sound
    refine ⟨left, ran, kept, spared, ?_⟩
    rintro plain _ rfl
    simp only [given plain]
    exact ⟨trivial, trivial⟩

theorem serve_ends (held : MachineHeld Engine) (sound : held.Sound) (call : ModeCall Engine)
    (fits : call.Fits) :
    Ends (Plain (KeyedCipher Engine)) (serve held call)
      (fun result => ∀ library, Alike held library → Shows result (library.serve call)) := by
  have idle (library : LibraryHeld Engine → ModeAnswer × LibraryHeld Engine) :=
    idle_ends (Plain (KeyedCipher Engine)) held sound library
  -- A call meant for another form finds program and library idle alike.
  cases call with
  | hold cipher => exact ⟨_, rfl, trivial, fun _ _ _ => ⟨rfl, .cipher cipher⟩⟩
  | fromKey form algorithm key =>
      obtain ⟨result, ran, kept, shows⟩ := from_key_ends algorithm key form fits
      exact ⟨result, ran, kept, fun plain _ _ => shows plain⟩
  | gcmOf cipher =>
      obtain ⟨result, ran, kept, shows⟩ := keep_ends .gcm .gcm (Gcm.buffered_of_cipher_makes cipher)
        (fun _ _ => trivial) (by rintro context _ rfl; exact .gcm context)
      exact ⟨result, ran, kept, fun plain _ _ => shows plain⟩
  | cmacOf cipher =>
      obtain ⟨result, ran, kept, shows⟩ :=
        keep_ends .cmac .cmac (Cmac.buffered_of_cipher_makes cipher)
          (fun _ sound => sound) Alike.cmac
      exact ⟨result, ran, kept, fun plain _ _ => shows plain⟩
  | cipher call =>
      cases held with
      | cipher cipher =>
          obtain ⟨result, ran, kept, shows⟩ := on_cipher_ends cipher call
          refine ⟨result, ran, kept, ?_⟩
          rintro plain _ ⟨⟩
          exact shows plain
      | _ => exact idle _ fun _ same => by cases same; rfl
  | xts direction position input output =>
      cases held with
      | xts context =>
          obtain ⟨outcome, ran, same⟩ :=
            Xts.buffered_runs direction context position input output fits
          simp only [serve, ran, Checked.ok_bind]
          refine ⟨_, rfl, trivial, ?_⟩
          rintro plain _ ⟨⟩
          rw [same plain]
          exact ⟨rfl, .xts _⟩
      | _ => exact idle _ fun _ same => by cases same; rfl
  | gcm call =>
      cases held with
      | gcm context =>
          obtain ⟨result, ran, kept, shows⟩ := on_gcm_ends context call
          refine ⟨result, ran, kept, ?_⟩
          rintro plain _ ⟨⟩
          exact shows plain
      | _ => exact idle _ fun _ same => by cases same; rfl
  | cmacSize =>
      cases held with
      | cmac mac =>
          refine ⟨_, rfl, sound, ?_⟩
          intro plain _ alike
          cases alike with
          | cmac _ context same =>
              exact ⟨congrArg ModeAnswer.size (Cmac.size_alike plain mac context same).symm,
                .cmac mac context same⟩
      | _ => exact idle _ fun _ same => by cases same; rfl
  | blockMac call =>
      cases held with
      | cmac mac =>
          obtain ⟨result, ran, kept, shows⟩ := on_cmac_ends mac sound call
          refine ⟨result, ran, kept, ?_⟩
          intro plain _ alike
          cases alike with
          | cmac _ context same => exact shows plain context same
      | xcbc mac =>
          obtain ⟨result, ran, kept, shows⟩ := on_xcbc_ends mac sound call
          refine ⟨result, ran, kept, ?_⟩
          intro plain _ alike
          cases alike with
          | xcbc _ context same => exact shows plain context same
      | _ => exact idle _ fun _ same => by cases same; rfl
  | gmac call =>
      cases held with
      | gmac context =>
          obtain ⟨result, ran, kept, shows⟩ := on_gmac_ends context sound call
          refine ⟨result, ran, kept, ?_⟩
          rintro plain _ ⟨⟩
          exact shows plain _ rfl
      | _ => exact idle _ fun _ same => by cases same; rfl
  | blockMacOnce form algorithm key data tag =>
      cases form with
      | cmac =>
          exact answer_once_ends (Cmac.buffered_compute_tags algorithm key data tag fits) held sound
      | xcbc =>
          exact answer_once_ends (Xcbc.buffered_compute_tags algorithm key data tag) held sound
  | gmacOnce algorithm key iv data tag =>
      exact answer_once_ends (GmacBuffer.compute_tags algorithm key fits iv data tag) held sound

end Serving

end MachineHeld

namespace CallRun

variable {Context Other Call Answer : Type}

def checkedRun (serve : Context → Call → Checked (Answer × Context)) (context : Context) :
    List Call → Checked (List (Call × Answer) × Context)
  | [] => .ok ([], context)
  | call :: rest => do
      let step ← serve context call
      let later ← checkedRun serve step.2 rest
      .ok ((call, step.1) :: later.1, later.2)

theorem checked_run_ends {serve : Context → Call → Checked (Answer × Context)}
    {other : Other → Call → Answer × Other} {sound : Context → Prop} {fits : Call → Prop}
    {plain : Prop} {alike : Context → Other → Prop}
    (step : ∀ context, sound context → ∀ call, fits call → ∃ result, serve context call =
      .ok result ∧ sound result.2 ∧
      (plain → ∀ library, alike context library → result.1 = (other library call).1 ∧
        alike result.2 (other library call).2))
    (context : Context) (start : sound context) (calls : List Call)
    (all : ∀ call ∈ calls, fits call) :
    ∃ history after, checkedRun serve context calls = .ok (history, after) ∧ sound after ∧
      (plain → ∀ library, alike context library →
        history = (run other library calls).1 ∧ alike after (run other library calls).2) := by
  -- Calls that all come to their end make a run that does. One that follows a run of the
  -- library call by call is answered like it.
  induction calls generalizing context with
  | nil => exact ⟨[], context, rfl, start, fun _ _ same => ⟨rfl, same⟩⟩
  | cons call rest ih =>
      obtain ⟨⟨answer, next⟩, served, kept, given⟩ :=
        step context start call (all call List.mem_cons_self)
      obtain ⟨history, after, ran, last, follows⟩ :=
        ih next kept fun later member => all later (List.mem_cons_of_mem _ member)
      rw [checkedRun, served, Checked.ok_bind, ran, Checked.ok_bind]
      refine ⟨_, _, rfl, last, ?_⟩
      intro here library same
      obtain ⟨first, between⟩ := given here library same
      obtain ⟨others, final⟩ := follows here _ between
      exact ⟨by rw [run, first, others], final⟩

end CallRun

namespace MachineHeld

variable {Engine : Type} [ForeignCipher Engine]

theorem run_ends [BlockCipher Engine] (calls : List (ModeCall Engine))
    (fits : ∀ call ∈ calls, call.Fits) :
    ∃ history after, CallRun.checkedRun serve .nothing calls = .ok (history, after) ∧
      (Plain Engine → history = (CallRun.run LibraryHeld.serve .nothing calls).1) := by
  obtain ⟨history, after, ran, _, given⟩ := CallRun.checked_run_ends
    (fun held sound call fits => by
      obtain ⟨result, served, kept, shows⟩ := serve_ends held sound call fits
      exact ⟨result, served, kept, fun plain library same =>
        ⟨(shows plain library same).answer, (shows plain library same).held⟩⟩)
    (.nothing : MachineHeld Engine) trivial calls fits
  exact ⟨history, after, ran, fun plain => (given (KeyedCipher.plain plain) .nothing .nothing).1⟩

/-- Whatever ciphers are supplied and whatever lengths and widths are asked for, a program of calls
never stops the machine. With plain ciphers it is answered as in the library. -/
theorem programs_come_to_their_end (calls : List (ModeCall Engine))
    (fits : ∀ call ∈ calls, call.Fits) :
    ∃ history after, CallRun.checkedRun serve .nothing calls = .ok (history, after) ∧
      ∀ [BlockCipher Engine], Plain Engine →
        history = (CallRun.run LibraryHeld.serve .nothing calls).1 := by
  -- That the machine comes to an end does not depend on what the library makes of the ciphers.
  have ended : ∃ history after, CallRun.checkedRun serve (.nothing : MachineHeld Engine) calls =
      .ok (history, after) := by
    let _ : BlockCipher Engine :=
      { blockSize := ForeignCipher.blockSize
        cryptBlock := fun _ cipher _ _ => (.error .invalidParameter, cipher) }
    obtain ⟨history, after, ran, _⟩ := run_ends calls fits
    exact ⟨history, after, ran⟩
  obtain ⟨history, after, ran⟩ := ended
  refine ⟨history, after, ran, ?_⟩
  intro _ plain
  obtain ⟨same, _, again, given⟩ := run_ends calls fits
  rw [ran] at again
  cases again
  exact given plain

/-- A cipher that reports any size, writes over all that it is given and is refused every third
time. -/
structure Stray where
  size : Nat
  turns : Nat

instance : ForeignCipher Stray where
  blockSize stray := stray.size
  crypt _ stray input output :=
    { refusal := if stray.turns % 3 = 2 then some .invalidParameter else none
      output := List.replicate output.length (UInt8.ofNat input.length)
      after := { stray with turns := stray.turns + 1 } }
  constant _ _ _ _ := rfl
  inside _ _ _ _ := List.length_replicate

-- Listed with blocks of one size, while the cipher reports another.
def Stray.algorithm (listed reported : Nat) : CipherAlgorithm Stray :=
  { name := "STRAY", oid := [], blockSize := listed, keySizes := .range 0 (2 ^ 64 - 1) 0
    flags := .none, expand := fun _ => .ok (.engine { size := reported, turns := 0 }) }

-- Blocks that are too long or of no size, a cut segment, a tag longer than a block, stolen text.
def Stray.calls : List (ModeCall Stray) :=
  [.hold (.engine { size := 20, turns := 0 }), .cipher (.ctr 32 (Bytes.zeros 20) [1] [0]),
    .hold (.engine { size := 3, turns := 0 }),
    .cipher (.cfb .encrypt 16 [7, 8, 9] [1, 2, 3, 4, 5] (Bytes.zeros 6)),
    .fromKey .cmac (algorithm 16 8) [], .blockMac (.finish (Bytes.zeros 9)),
    .blockMac (.finish (Bytes.zeros 8)), .fromKey .xts (algorithm 16 0) [0, 0],
    .xts .decrypt (Vector.replicate 16 0) (Bytes.zeros 17) (Bytes.zeros 18)]

def Stray.answers : List ModeAnswer :=
  [.done none [], .done (some .invalidParameter) [Bytes.zeros 20, [0]], .done none [],
    .done (some .invalidParameter) [[1, 0, 7], [2, 1, 0, 7, 0, 0]], .done none [],
    .done (some .invalidParameter) [Bytes.zeros 9], .done none [List.replicate 8 8], .done none [],
    .done none [Bytes.zeros 16 ++ [48, 0]]]

theorem Stray.calls_fit : ∀ call ∈ calls, call.Fits := by
  have counted (reported : Nat) (key : Bytes) (short : key.length * 8 < 2 ^ 64) :
      (algorithm 16 reported).Counts key := fun _ => short
  simp only [calls, List.forall_mem_cons, ModeCall.Fits, true_and]
  exact ⟨counted 8 [] (by decide),
    ⟨counted 0 [0] (by decide), counted 0 [0] (by decide)⟩, by decide, List.forall_mem_nil _⟩

def teaCalls : List (ModeCall Tea) :=
  [.cmacOf (.engine { key := ⟨1, 2, 3, 4⟩ }), .blockMac (.absorb [1, 2, 3]),
    .blockMac (.finish (Bytes.zeros 8))]

/-- A cipher that strays from what it is asked for, and one of the built-in ciphers, supplied. -/
theorem stray_and_tea_programs_end :
    (∃ history after, CallRun.checkedRun serve .nothing Stray.calls = .ok (history, after) ∧
      history.map Prod.snd = Stray.answers) ∧
    ∃ history after, CallRun.checkedRun serve .nothing teaCalls = .ok (history, after) ∧
      history = (CallRun.run LibraryHeld.serve .nothing teaCalls).1 := by
  constructor
  · obtain ⟨history, after, ran, _⟩ := programs_come_to_their_end Stray.calls Stray.calls_fit
    have answered : (CallRun.checkedRun serve .nothing Stray.calls).map (·.1.map Prod.snd) =
        .ok Stray.answers := by decide +kernel
    rw [ran] at answered
    exact ⟨history, after, ran, Except.ok.inj answered⟩
  · have fits : ∀ call ∈ teaCalls, call.Fits := by
      simp only [teaCalls, List.forall_mem_cons, ModeCall.Fits, true_and]
      exact List.forall_mem_nil _
    obtain ⟨history, after, ran, plainly⟩ := programs_come_to_their_end teaCalls fits
    exact ⟨history, after, ran, plainly BlockPermutation.plain⟩

end MachineHeld

end SymmetricKey
