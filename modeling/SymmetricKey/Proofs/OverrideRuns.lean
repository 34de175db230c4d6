import SymmetricKey.Catalogue.Overrides
import SymmetricKey.Proofs.CallRuns
import SymmetricKey.Proofs.FoldedNames
import Mathlib.Data.Set.Card

/-!
The registry of replacements as a map of folded names, over runs of calls. What
stands under a name is the last replacement that was accepted under it and not
taken away since, and calls about different names do not meet.
-/

namespace SymmetricKey

inductive OverrideCall (Engine : Type) where
  | register (algorithm : CipherAlgorithm Engine)
  | unregister (name : String)

inductive OverrideAnswer (Engine : Type) where
  | registered (outcome : Except Error Unit) (records : List LogRecord)
  | removed (found : Option (CipherAlgorithm Engine))

variable {Engine : Type}

def OverrideCall.key : OverrideCall Engine → String
  | register algorithm => Name.fold algorithm.name
  | unregister name => Name.fold name

namespace OverrideRegistry

/-- A refused registration leaves its caller with the registry as it was. -/
def serve (registry : OverrideRegistry Engine) :
    OverrideCall Engine → OverrideAnswer Engine × OverrideRegistry Engine
  | .register algorithm =>
      let attempt := (registry.register algorithm).run
      match attempt.value with
      | .error cause => (.registered (.error cause) attempt.records, registry)
      | .ok after => (.registered (.ok ()) attempt.records, after)
  | .unregister name =>
      let (found, after) := registry.unregister name
      (.removed found, after)

/-- The records of an accepted registration: whether the name is that of a built-in cipher, whether
something stands under it, and that it is registered. -/
def registrationLog (algorithm : CipherAlgorithm Engine) (found : Bool) : List LogRecord :=
  let name := algorithm.name
  (if (CipherAlgorithm.find? name : Option (CipherAlgorithm Engine)).isSome then
      [⟨.warn, "Cipher " ++ name ++ " overridden by accelerated implementation"⟩] else []) ++
    (if found then [⟨.warn, "Replaced existing override for " ++ name⟩] else []) ++
    [⟨.info, "Registered cipher override: " ++ name⟩]

theorem serve_plain (registry : OverrideRegistry Engine) (algorithm : CipherAlgorithm Engine)
    (plain : algorithm.flags.accelerated = false) :
    registry.serve (.register algorithm) =
      (.registered (.error .invalidParameter) [], registry) := by
  rw [serve, register, plain]
  rfl

theorem serve_accelerated (registry : OverrideRegistry Engine) (algorithm : CipherAlgorithm Engine)
    (accelerated : algorithm.flags.accelerated = true) :
    registry.serve (.register algorithm) =
      (.registered (.ok ())
          (registrationLog algorithm (registry.entries.contains (Name.fold algorithm.name))),
        { entries := registry.entries.insert (Name.fold algorithm.name) algorithm }) := by
  rw [serve, register, registrationLog, accelerated]
  cases (CipherAlgorithm.find? algorithm.name : Option (CipherAlgorithm Engine)).isSome <;>
    cases registry.entries.contains (Name.fold algorithm.name) <;> rfl

theorem serve_unregister (registry : OverrideRegistry Engine) (name : String) :
    registry.serve (.unregister name) =
      (.removed (registry.get? name), { entries := registry.entries.erase (Name.fold name) }) := rfl

theorem get_exact (registry : OverrideRegistry Engine) (name : String) :
    registry.get? name = registry.entries[Name.fold name]? := rfl

theorem insert_at (registry : OverrideRegistry Engine) (algorithm : CipherAlgorithm Engine)
    (key : String) :
    (registry.entries.insert (Name.fold algorithm.name) algorithm)[key]? =
      if Name.fold algorithm.name = key then some algorithm else registry.entries[key]? := by
  simp only [Std.TreeMap.getElem?_insert, Std.LawfulEqOrd.compare_eq_iff_eq]

theorem erase_at (registry : OverrideRegistry Engine) (name key : String) :
    (registry.entries.erase (Name.fold name))[key]? =
      if Name.fold name = key then none else registry.entries[key]? := by
  simp only [Std.TreeMap.getElem?_erase, Std.LawfulEqOrd.compare_eq_iff_eq]

/-- A call leaves alone what stands under other names. -/
theorem serve_other (registry : OverrideRegistry Engine) (call : OverrideCall Engine) (key : String)
    (other : call.key ≠ key) :
    (registry.serve call).2.entries[key]? = registry.entries[key]? := by
  cases call with
  | register algorithm =>
      cases accelerated : algorithm.flags.accelerated with
      | false => rw [serve_plain registry algorithm accelerated]
      | true =>
          rw [serve_accelerated registry algorithm accelerated, insert_at]
          exact if_neg other
  | unregister name =>
      rw [serve_unregister, erase_at]
      exact if_neg other

/-- The folded name under which an accepted call changed something. -/
def changed : OverrideCall Engine × OverrideAnswer Engine → Option String
  | (.register algorithm, .registered (.ok ()) _) => some (Name.fold algorithm.name)
  | (.unregister name, _) => some (Name.fold name)
  | _ => none

/-- The algorithm was accepted under the folded name, and nothing changed there since. -/
def Stands (history : List (OverrideCall Engine × OverrideAnswer Engine)) (key : String)
    (algorithm : CipherAlgorithm Engine) : Prop :=
  ∃ earlier records later,
    history = earlier ++ (.register algorithm, .registered (.ok ()) records) :: later ∧
      Name.fold algorithm.name = key ∧ ∀ entry ∈ later, changed entry ≠ some key

theorem stands_snoc (history : List (OverrideCall Engine × OverrideAnswer Engine))
    (entry : OverrideCall Engine × OverrideAnswer Engine) (key : String)
    (algorithm : CipherAlgorithm Engine) :
    Stands (history ++ [entry]) key algorithm ↔
      (∃ records, entry = (.register algorithm, .registered (.ok ()) records)) ∧
          Name.fold algorithm.name = key ∨
        changed entry ≠ some key ∧ Stands history key algorithm := by
  constructor
  · rintro ⟨earlier, records, later, parted, same, untouched⟩
    rcases List.eq_nil_or_concat later with rfl | ⟨front, last, rfl⟩
    · have ends := List.append_inj' parted rfl
      exact Or.inl ⟨⟨records, List.singleton_inj.mp ends.2⟩, same⟩
    · rw [List.concat_eq_append, ← List.cons_append, ← List.append_assoc] at parted
      rw [List.concat_eq_append] at untouched
      have ends := List.append_inj' parted rfl
      have entry_last := List.singleton_inj.mp ends.2
      refine Or.inr ⟨?_, earlier, records, front, ends.1, same, fun other member =>
        untouched other (List.mem_append_left _ member)⟩
      rw [entry_last]
      exact untouched last (List.mem_append_right _ (List.mem_singleton_self last))
  · rintro (⟨⟨records, rfl⟩, same⟩ | ⟨apart, earlier, records, later, rfl, same, untouched⟩)
    · exact ⟨history, records, [], rfl, same, fun _ none => absurd none List.not_mem_nil⟩
    · refine ⟨earlier, records, later ++ [entry], by simp, same, fun other member => ?_⟩
      rcases List.mem_append.mp member with before | last
      · exact untouched other before
      · rw [List.mem_singleton.mp last]
        exact apart

/-- The registry holds what stands under each name and nothing else. -/
def Follows (history : List (OverrideCall Engine × OverrideAnswer Engine))
    (registry : OverrideRegistry Engine) : Prop :=
  ∀ key algorithm, registry.entries[key]? = some algorithm ↔ Stands history key algorithm

theorem empty_follows : Follows [] (empty : OverrideRegistry Engine) := by
  intro key algorithm
  have nothing : (empty : OverrideRegistry Engine).entries[key]? = none :=
    Std.TreeMap.getElem?_emptyc
  rw [nothing]
  constructor
  · intro found
    cases found
  · rintro ⟨earlier, _, _, parted, _⟩
    cases earlier <;> cases parted

theorem serve_follows (history : List (OverrideCall Engine × OverrideAnswer Engine))
    (registry : OverrideRegistry Engine) (call : OverrideCall Engine)
    (follows : Follows history registry) :
    Follows (history ++ [(call, (registry.serve call).1)]) (registry.serve call).2 := by
  intro key algorithm
  rw [stands_snoc, ← follows key algorithm]
  -- A key other than that of the call keeps what stands for it.
  cases call with
  | register candidate =>
      cases accelerated : candidate.flags.accelerated with
      | false =>
          rw [serve_plain registry candidate accelerated]
          simp [changed]
      | true =>
          rw [serve_accelerated registry candidate accelerated, insert_at]
          by_cases same : Name.fold candidate.name = key
          · rw [if_pos same]
            constructor
            · rintro ⟨rfl⟩
              exact Or.inl ⟨⟨_, rfl⟩, same⟩
            · rintro (⟨⟨_, entry⟩, _⟩ | ⟨apart, _⟩)
              · cases entry
                rfl
              · exact absurd (congrArg some same) apart
          · rw [if_neg same]
            constructor
            · intro found
              exact Or.inr ⟨fun here => same (Option.some.inj here), found⟩
            · rintro (⟨⟨_, entry⟩, here⟩ | ⟨_, found⟩)
              · cases entry
                exact absurd here same
              · exact found
  | unregister name =>
      rw [serve_unregister, erase_at]
      by_cases same : Name.fold name = key
      · simp [same, changed]
      · simp [same, changed]

theorem run_follows (calls : List (OverrideCall Engine)) :
    Follows (CallRun.run serve (empty : OverrideRegistry Engine) calls).1
      (CallRun.run serve (empty : OverrideRegistry Engine) calls).2 :=
  CallRun.run_keeps serve Follows
    (fun history registry call follows => serve_follows history registry call follows)
    empty empty_follows calls

theorem stands_name (history : List (OverrideCall Engine × OverrideAnswer Engine)) (key : String)
    (algorithm : CipherAlgorithm Engine) (stands : Stands history key algorithm) :
    Name.fold algorithm.name = key := by
  obtain ⟨_, _, _, _, same, _⟩ := stands
  exact same

section Listed
variable (history : List (OverrideCall Engine × OverrideAnswer Engine))
  (registry : OverrideRegistry Engine) (follows : Follows history registry)
include follows

theorem listed_keys : registry.listed.map (fun algorithm => Name.fold algorithm.name) =
    registry.entries.toList.map (·.1) := by
  rw [listed, List.map_map]
  apply List.map_congr_left
  rintro ⟨key, algorithm⟩ member
  exact stands_name history key algorithm
    ((follows key algorithm).mp (Std.TreeMap.mem_toList_iff_getElem?_eq_some.mp member))

theorem mem_listed_iff (algorithm : CipherAlgorithm Engine) :
    algorithm ∈ registry.listed ↔ registry.get? algorithm.name = some algorithm := by
  rw [get_exact, ← Std.TreeMap.mem_toList_iff_getElem?_eq_some, listed, List.mem_map]
  constructor
  · rintro ⟨⟨key, _⟩, member, rfl⟩
    have here := stands_name history key _
      ((follows key _).mp (Std.TreeMap.mem_toList_iff_getElem?_eq_some.mp member))
    rw [here]
    exact member
  · intro member
    exact ⟨_, member, rfl⟩

theorem listed_ascends : (registry.listed.map fun algorithm =>
    Name.bytes (Name.fold algorithm.name)).Pairwise (· < ·) := by
  have keys := congrArg (List.map Name.bytes) (listed_keys history registry follows)
  rw [List.map_map, List.map_map] at keys
  change (registry.listed.map (Name.bytes ∘ _)).Pairwise (· < ·)
  rw [keys, List.pairwise_map]
  refine List.Pairwise.imp (fun ordered => ?_)
    (Std.TreeMap.ordered_keys_toList (t := registry.entries))
  exact (Name.lt_iff_bytes_lt _ _).mp (compareOfLessAndEq_eq_lt.mp ordered)

theorem keys_exact : (registry.entries.toList.map (·.1)).Nodup ∧
    ∀ key, key ∈ registry.entries.toList.map (·.1) ↔ ∃ algorithm, Stands history key algorithm := by
  constructor
  · rw [List.Nodup, List.pairwise_map]
    refine List.Pairwise.imp (fun ordered same => ?_)
      (Std.TreeMap.ordered_keys_toList (t := registry.entries))
    have level : compare _ _ = Ordering.eq := Std.LawfulEqOrd.compare_eq_iff_eq.mpr same
    rw [level] at ordered
    cases ordered
  · intro key
    constructor
    · intro listed
      obtain ⟨⟨_, algorithm⟩, member, rfl⟩ := List.mem_map.mp listed
      exact ⟨algorithm, (follows _ _).mp (Std.TreeMap.mem_toList_iff_getElem?_eq_some.mp member)⟩
    · rintro ⟨algorithm, stands⟩
      have member := Std.TreeMap.mem_toList_iff_getElem?_eq_some.mpr
        ((follows key algorithm).mpr stands)
      exact List.mem_map.mpr ⟨_, member, rfl⟩

theorem size_exact : registry.size = {key | ∃ algorithm, Stands history key algorithm}.ncard := by
  obtain ⟨nodup, member⟩ := keys_exact history registry follows
  have present : {key | ∃ algorithm, Stands history key algorithm} =
      ↑(registry.entries.toList.map (·.1)).toFinset := by
    ext key
    rw [List.coe_toFinset, Set.mem_ofPred_eq, Set.mem_ofPred_eq, member]
  rw [present, Set.ncard_coe_finset, List.toFinset_card_of_nodup nodup, List.length_map,
    Std.TreeMap.length_toList]
  rfl

end Listed

/-- Nothing that can be asked tells the two registries apart. -/
structure Alike (left right : OverrideRegistry Engine) : Prop where
  get : ∀ name, left.get? name = right.get? name
  resolve : ∀ name, left.resolve? name = right.resolve? name
  size : left.size = right.size
  listed : left.listed = right.listed
  describe : left.describe = right.describe

theorem entries_alike (left right : OverrideRegistry Engine)
    (same : ∀ key : String, left.entries[key]? = right.entries[key]?) : Alike left right := by
  have tree : left.entries.Equiv right.entries := Std.TreeMap.Equiv.of_forall_constGet?_eq same
  have get : ∀ name, left.get? name = right.get? name := fun name => same (Name.fold name)
  have listed : left.listed = right.listed := congrArg (List.map _) tree.toList_eq
  refine ⟨get, fun name => ?_, tree.size_eq, listed, ?_⟩
  · rw [resolve?, resolve?, get]
  · rw [describe, describe, listed]

theorem serve_answer (left right : OverrideRegistry Engine) (call : OverrideCall Engine)
    (same : left.entries[call.key]? = right.entries[call.key]?) :
    (left.serve call).1 = (right.serve call).1 := by
  cases call with
  | register algorithm =>
      cases accelerated : algorithm.flags.accelerated with
      | false =>
          rw [serve_plain left algorithm accelerated, serve_plain right algorithm accelerated]
      | true =>
          have found : left.entries.contains (Name.fold algorithm.name) =
              right.entries.contains (Name.fold algorithm.name) := by
            rw [Std.TreeMap.contains_eq_isSome_getElem?, Std.TreeMap.contains_eq_isSome_getElem?]
            exact congrArg Option.isSome same
          rw [serve_accelerated left algorithm accelerated,
            serve_accelerated right algorithm accelerated, found]
  | unregister name => exact congrArg OverrideAnswer.removed same

-- What a call leaves under its name depends on what stood there.
theorem serve_here (left right : OverrideRegistry Engine) (call : OverrideCall Engine)
    (same : left.entries[call.key]? = right.entries[call.key]?) :
    (left.serve call).2.entries[call.key]? = (right.serve call).2.entries[call.key]? := by
  cases call with
  | register algorithm =>
      cases accelerated : algorithm.flags.accelerated with
      | false =>
          rw [serve_plain left algorithm accelerated, serve_plain right algorithm accelerated]
          exact same
      | true =>
          rw [serve_accelerated left algorithm accelerated,
            serve_accelerated right algorithm accelerated, insert_at, insert_at]
          exact (if_pos rfl).trans (if_pos rfl).symm
  | unregister name =>
      rw [serve_unregister, serve_unregister, erase_at, erase_at]
      exact (if_pos rfl).trans (if_pos rfl).symm

theorem serve_commutes (registry : OverrideRegistry Engine) (first second : OverrideCall Engine)
    (apart : first.key ≠ second.key) :
    ((registry.serve second).2.serve first).1 = (registry.serve first).1 ∧
      ((registry.serve first).2.serve second).1 = (registry.serve second).1 ∧
      Alike ((registry.serve first).2.serve second).2
        ((registry.serve second).2.serve first).2 := by
  have before := serve_other registry second first.key apart.symm
  have behind := serve_other registry first second.key apart
  refine ⟨serve_answer _ _ first before, serve_answer _ _ second behind,
    entries_alike _ _ fun key => ?_⟩
  by_cases here : first.key = key
  · rw [serve_other _ second key (here ▸ apart.symm), ← here]
    exact serve_here _ _ first before.symm
  · rw [serve_other _ first key here]
    by_cases there : second.key = key
    · rw [← there]
      exact serve_here _ _ second behind
    · rw [serve_other _ second key there, serve_other _ first key here,
        serve_other _ second key there]

-- No two built-in ciphers have names that fold alike.
theorem built_in_apart : ((CipherAlgorithm.builtIn : List (CipherAlgorithm Engine)).map
    fun algorithm => Name.fold algorithm.name).Nodup := by
  have names : ((CipherAlgorithm.builtIn : List (CipherAlgorithm Engine)).map
      fun algorithm => Name.fold algorithm.name) = List.map Name.fold
      ["AES", "ARIA", "CAST-128", "CAST-256", "Serpent", "Twofish", "SM4", "TEA", "XTEA"] := rfl
  rw [names]
  decide +kernel

theorem find_same_iff (algorithms : List (CipherAlgorithm Engine))
    (apart : (algorithms.map fun algorithm => Name.fold algorithm.name).Nodup) (name : String)
    (algorithm : CipherAlgorithm Engine) :
    (algorithms.find? fun candidate => Name.same candidate.name name) = some algorithm ↔
      algorithm ∈ algorithms ∧ Name.EqualUpToCase algorithm.name name := by
  rw [← Name.same_iff]
  constructor
  · intro found
    exact ⟨List.mem_of_find?_eq_some found,
      List.find?_some (p := fun candidate : CipherAlgorithm Engine =>
        Name.same candidate.name name) found⟩
  · rintro ⟨member, same⟩
    cases found : algorithms.find? fun candidate => Name.same candidate.name name with
    | none => exact absurd same (List.find?_eq_none.mp found algorithm member)
    | some other =>
        have alike : Name.same other.name name = true := List.find?_some
          (p := fun candidate : CipherAlgorithm Engine => Name.same candidate.name name) found
        have folds : Name.fold other.name = Name.fold algorithm.name := by
          rw [Name.same, beq_iff_eq] at alike same
          rw [alike, same]
        rw [List.inj_on_of_nodup_map apart (List.mem_of_find?_eq_some found) member folds]

theorem find_iff (name : String) (algorithm : CipherAlgorithm Engine) :
    CipherAlgorithm.find? name = some algorithm ↔
      algorithm ∈ CipherAlgorithm.builtIn ∧ Name.EqualUpToCase algorithm.name name :=
  find_same_iff CipherAlgorithm.builtIn built_in_apart name algorithm

/-- Behind every run of calls, where names are folded byte by byte: under a name stands the last
algorithm accepted under it and not taken away or replaced since, else the built-in cipher of the
name, if there is one. Taking away gives back what stood there and touches no other name; an
algorithm that is not accelerated is refused. The entries are counted and listed in the order of the
bytes of their folded names, and calls about different names may change places. -/
theorem stands_as_last_accepted (calls : List (OverrideCall Engine))
    (history : List (OverrideCall Engine × OverrideAnswer Engine))
    (registry : OverrideRegistry Engine)
    (served : CallRun.run serve empty calls = (history, registry)) :
    (∀ name, Name.bytes (Name.fold name) = (Name.bytes name).map Name.foldByte) ∧
      (∀ name algorithm, registry.get? name = some algorithm ↔
        Stands history (Name.fold name) algorithm) ∧
      (∀ name algorithm, registry.get? name = some algorithm →
        registry.resolve? name = some algorithm) ∧
      (∀ name, registry.get? name = none → ∀ algorithm, registry.resolve? name = some algorithm ↔
        algorithm ∈ CipherAlgorithm.builtIn ∧ Name.EqualUpToCase algorithm.name name) ∧
      (∀ name, (registry.serve (.unregister name)).1 = .removed (registry.get? name) ∧
        ∀ other, (registry.serve (.unregister name)).2.get? other =
          if Name.fold name = Name.fold other then none else registry.get? other) ∧
      (∀ algorithm, algorithm.flags.accelerated = true →
        ∃ records, (registry.serve (.register algorithm)).1 = .registered (.ok ()) records) ∧
      (∀ algorithm, algorithm.flags.accelerated = false →
        registry.serve (.register algorithm) =
          (.registered (.error .invalidParameter) [], registry)) ∧
      registry.size = {key | ∃ algorithm, Stands history key algorithm}.ncard ∧
      registry.describe = Description.listed (registry.listed.map fun algorithm =>
        Description.quoted algorithm.name) ∧
      (∀ algorithm, algorithm ∈ registry.listed ↔ registry.get? algorithm.name = some algorithm) ∧
      (registry.listed.map fun algorithm => Name.bytes (Name.fold algorithm.name)).Pairwise
        (· < ·) ∧
      ∀ first second : OverrideCall Engine, first.key ≠ second.key →
        ((registry.serve second).2.serve first).1 = (registry.serve first).1 ∧
          ((registry.serve first).2.serve second).1 = (registry.serve second).1 ∧
          Alike ((registry.serve first).2.serve second).2
            ((registry.serve second).2.serve first).2 := by
  have follows : Follows history registry := by
    have run := run_follows calls
    rwa [served] at run
  refine ⟨Name.fold_bytes, fun name => follows (Name.fold name), fun name algorithm found => ?_,
    fun name none algorithm => ?_, fun name => ⟨rfl, fun other => ?_⟩,
    fun algorithm accelerated => ?_, serve_plain registry, size_exact history registry follows, rfl,
    mem_listed_iff history registry follows, listed_ascends history registry follows,
    serve_commutes registry⟩
  · rw [resolve?, found]
    rfl
  · rw [resolve?, none, ← find_iff]
    rfl
  · rw [get_exact, serve_unregister, erase_at]
    rfl
  · rw [serve_accelerated registry algorithm accelerated]
    exact ⟨_, rfl⟩

def sampleCipher (name : String) : CipherAlgorithm Empty where
  name := name
  oid := []
  blockSize := 16
  keySizes := .fixed [16]
  flags := { CipherFlags.none with accelerated := true }
  expand _ := .error .failure

/-- A letter beyond A to Z keeps its case, so the name that is taken away is another one. -/
theorem other_letter_left_standing : ∃ history registry,
    CallRun.run serve empty [.register (sampleCipher "ÅES"), .unregister "åES"] =
        (history, registry) ∧
      registry.get? "Åes" = some (sampleCipher "ÅES") ∧
      (registry.serve (.unregister "åES")).2.get? "Åes" = some (sampleCipher "ÅES") := by
  obtain ⟨_, stands, _, _, removed, _⟩ := stands_as_last_accepted
    [.register (sampleCipher "ÅES"), .unregister "åES"] _ _ rfl
  have apart : some (Name.fold "åES") ≠ some (Name.fold "Åes") := by decide +kernel
  have standing := (stands "Åes" (sampleCipher "ÅES")).mpr ⟨[], _, _, by
    rw [CallRun.run, serve_accelerated empty (sampleCipher "ÅES") rfl]
    rfl, by decide +kernel, fun entry member => by
    rw [List.mem_singleton.mp member]
    exact apart⟩
  refine ⟨_, _, rfl, standing, ?_⟩
  rw [(removed "åES").2 "Åes", if_neg fun same => apart (congrArg some same)]
  exact standing

end OverrideRegistry

end SymmetricKey
