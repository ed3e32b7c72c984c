/-
Module: SuperCalls.Proofs.Batch.Recovery
Purpose: Batches that were cut short are made good by running again.  Whatever fails on the way,
  every text is at all times the one at the beginning or the patched one, and patching brings both
  to the same text.
Main exports: MemoryStore.Fallible, MemoryStore.Underway, Attempted,
  interrupted_batches_recover
-/
import SuperCalls.Proofs.Batch.Course
import SuperCalls.Proofs.Batch.OncePerPath

namespace SuperCalls

namespace MemoryStore

/-!
### Sandboxes on which calls fail
-/

/-- A sandbox over memory stores on which any call may fail at any time, for whatever reason.  All
that can be relied on is that a text which was read is the one that is there, and that nothing but a
write changes a text; of a write that fails it is not known whether it was made. -/
structure Fallible (sandbox : Sandbox (StateM MemoryStore)) : Prop where
  isFile : ∀ path store, ((sandbox.isFile path).run store).2.get? = store.get?
  read : ∀ path store, ((sandbox.read path).run store).2.get? = store.get?
  content : ∀ {path store text after},
    (sandbox.read path).run store = (.ok text, after) → store.get? path = some text
  write : ∀ path text store,
    ((sandbox.write path text).run store).2.get? = store.get? ∨
      ∀ other, ((sandbox.write path text).run store).2.get? other =
        if other = path then some text else store.get? other

/-- The sandbox over a store is one of them, whatever faults are set. -/
theorem fallible_sandbox : Fallible sandbox where
  isFile path store := by
    rcases called : (sandbox.isFile path).run store with ⟨answer, after⟩
    rw [isFile_recording called]
    rfl
  read path store := by
    rcases called : (sandbox.read path).run store with ⟨answer, after⟩
    rw [read_recording called]
    rfl
  content := by
    intro path store text after called
    cases present : store.get? path with
    | none =>
        have absent : (store.recording [.read path]).get? path = none := present
        simp only [sandbox, attempt_eq, absent] at called
        split at called <;> cases called
    | some content =>
        rw [run_read store path content present] at called
        split at called
        · cases called
        · cases called
          rfl
  write path text store := by
    rw [run_write]
    cases store.fault? .write path with
    | some failure => exact Or.inl rfl
    | none => exact Or.inr fun other => get?_put _ path text other

/-- A store on which no fault is set any more. -/
def healed (store : MemoryStore) : MemoryStore :=
  { store with faults := [] }

theorem faultless_healed (store : MemoryStore) : store.healed.Faultless :=
  fun _ _ => rfl

/-!
### Between the beginning and the end

The invariant of all runs, also of those that are cut short: no text is ever left half patched, or
patched twice.
-/

/-- A store in which some of the texts under some paths were patched. -/
def Underway (rules : List Rule) (paths : List String) (before now : MemoryStore) : Prop :=
  ∀ path, now.get? path = before.get? path ∨
    path ∈ paths ∧
      now.get? path = (before.get? path).map fun content => (applyRules rules content).content

end MemoryStore

/-- A patched text is patched to itself. -/
theorem Lasting.map_map {rules : List Rule} (lasting : Lasting rules) (text : Option String) :
    (text.map fun content => (applyRules rules content).content).map
        (fun content => (applyRules rules content).content) =
      text.map fun content => (applyRules rules content).content := by
  cases text with
  | none => rfl
  | some content =>
      apply congrArg some
      by_contra other
      have changed := (changed_iff_content_ne rules _).mpr other
      rw [lasting content] at changed
      cases changed

namespace MemoryStore.Underway

variable {rules : List Rule} {paths : List String} {before middle now : MemoryStore}

theorem of_same (same : now.get? = before.get?) : Underway rules paths before now :=
  fun path => Or.inl (congrFun same path)

theorem mono {more : List String} (underway : Underway rules paths before now)
    (listed : paths ⊆ more) : Underway rules more before now := by
  intro path
  rcases underway path with same | ⟨member, patched⟩
  · exact Or.inl same
  · exact Or.inr ⟨listed member, patched⟩

theorem trans (lasting : Lasting rules) (first : Underway rules paths before middle)
    (second : Underway rules paths middle now) : Underway rules paths before now := by
  intro path
  rcases second path with same | ⟨member, patched⟩
  · rw [same]
    exact first path
  · refine Or.inr ⟨member, ?_⟩
    rw [patched]
    rcases first path with same | ⟨_, already⟩
    · rw [same]
    · rw [already, lasting.map_map]

/-- Patching a file leaves its text alone or replaces it by the patched one. -/
theorem of_patches {batch : Batch} {sandbox : Sandbox (StateM MemoryStore)}
    (fallible : Fallible sandbox) {path : String} {result : Except Failure Outcome}
    (patches : Batch.Patches batch sandbox path before result now) :
    Underway batch.rules [path] before now := by
  have asked {found : Except Failure Bool} {t : MemoryStore}
      (called : (sandbox.isFile path).run before = (found, t)) : t.get? = before.get? := by
    have texts := fallible.isFile path before
    rwa [called] at texts
  have looked {t u : MemoryStore} {text : Except Failure String}
      (called : (sandbox.read path).run t = (text, u)) : u.get? = t.get? := by
    have texts := fallible.read path t
    rwa [called] at texts
  have wrote {t u v : MemoryStore} {found : Except Failure Bool} {content : String}
      {done : Except Failure Unit}
      (isFile : (sandbox.isFile path).run before = (found, t))
      (read : (sandbox.read path).run t = (.ok content, u))
      (write : (sandbox.write path (applyRules batch.rules content).content).run u = (done, v)) :
      Underway batch.rules [path] before v := by
    have same : u.get? = before.get? := (looked read).trans (asked isFile)
    have there : before.get? path = some content := by
      rw [← asked isFile]
      exact fallible.content read
    have texts := fallible.write path (applyRules batch.rules content).content u
    rw [write, same] at texts
    rcases texts with kept | put
    · exact of_same kept
    · intro other
      rw [put]
      split
      · next own =>
          rw [own, there]
          exact Or.inr ⟨List.mem_singleton.mpr rfl, rfl⟩
      · exact Or.inl rfl
  cases patches with
  | unknown isFile | skipped isFile => exact of_same (asked isFile)
  | unreadable isFile read | unchanged isFile read | unwritten isFile read =>
      exact of_same ((looked read).trans (asked isFile))
  | unwritable isFile read _ _ write | written isFile read _ _ write =>
      exact wrote isFile read write

/-- So does a run, wherever it ends and whoever listens. -/
theorem of_run {batch : Batch} (lasting : Lasting batch.rules)
    {sandbox : Sandbox (StateM MemoryStore)} (fallible : Fallible sandbox) {ν : Type}
    (bus : Bus Event ν) (paths : List String) (store : MemoryStore) :
    Underway batch.rules paths store ((batch.run sandbox bus paths).run store).2 := by
  obtain ⟨done, begins, left⟩ := batch.course_of_run sandbox bus paths store
  rw [left]
  refine Batch.course_preserves done ?_ store (of_same rfl)
  intro path listed s underway
  apply underway.trans lasting
  apply (of_patches fallible (Batch.patches_patched batch sandbox path s)).mono
  intro other own
  rw [List.mem_singleton.mp own]
  exact begins.subset listed

/-- Patching what is left brings every listed text to its patched form. -/
theorem finish (lasting : Lasting rules) (underway : Underway rules paths before now)
    {last single : MemoryStore} (worked : now.Worked rules paths last)
    (alone : before.Worked rules paths single) (path : String) :
    last.get? path = single.get? path := by
  rw [worked path, alone path]
  split
  · rcases underway path with same | ⟨_, patched⟩
    · rw [same]
    · rw [patched, lasting.map_map]
  · next unlisted =>
      rcases underway path with same | ⟨listed, _⟩
      · exact same
      · exact absurd listed unlisted

end MemoryStore.Underway

/-- A run without faults works off the whole list. -/
theorem worked_memoryRun {rules : List Rule} (lasting : Lasting rules) (policy : ErrorPolicy)
    {ν : Type} {bus : Bus Event ν} (calm : bus.Calm) {store : MemoryStore}
    (faultless : store.Faultless) (paths : List String) :
    store.Worked rules paths (memoryRun rules false bus store policy paths).2 := by
  have left : (memoryRun rules false bus store policy paths).2 =
      ((Batch.going rules false).course MemoryStore.sandbox store paths).state := by
    unfold memoryRun
    rw [Batch.run_eq_of_calm _ _ calm, Batch.course_policy rules false policy paths faultless]
  rw [left]
  exact (Batch.course_worked lasting paths faultless (.nil rules store)).1

/-!
### Histories of runs
-/

/-- Stores that are left behind by earlier runs over paths of a list.  Before each run any faults
are set; calls may fail at other times as well, files may be written or not, the run may end at its
first failure or go on, and listeners may fail. -/
inductive Attempted (rules : List Rule) (paths : List String) (store : MemoryStore) :
    MemoryStore → Prop where
  | never : Attempted rules paths store store
  | again {left : MemoryStore} (earlier : Attempted rules paths store left)
      (faults : List ((Operation × String) × Failure))
      {sandbox : Sandbox (StateM MemoryStore)} (fallible : MemoryStore.Fallible sandbox)
      (dryRun : Bool) (policy : ErrorPolicy) {ν : Type} (bus : Bus Event ν) {chosen : List String}
      (drawn : chosen ⊆ paths) :
      Attempted rules paths store
        ((Batch.run ⟨rules, dryRun, policy⟩ sandbox bus chosen).run
          { left with faults := faults }).2

/-- All earlier runs together leave every text alone or patched. -/
theorem Attempted.underway {rules : List Rule} (lasting : Lasting rules) {paths : List String}
    {store left : MemoryStore} (attempted : Attempted rules paths store left) :
    store.Underway rules paths left := by
  induction attempted with
  | never => exact .of_same rfl
  | again _ faults fallible dryRun policy bus drawn ih =>
      apply ih.trans lasting
      have patching : Lasting (Batch.rules ⟨rules, dryRun, policy⟩) := lasting
      exact (MemoryStore.Underway.of_run patching fallible bus _ _).mono drawn

/-- After any earlier runs over paths of a list, however they failed, a run over the whole list on
which nothing fails ends with a report, and leaves under every path the text that a single such run
from the store at the beginning leaves there. -/
theorem interrupted_batches_recover {indent : String} (blank : isIndent indent)
    {paths : List String} {store left : MemoryStore}
    (attempted : Attempted (superCallRules indent) paths store left)
    (policy otherPolicy : ErrorPolicy) {ν μ : Type} {bus : Bus Event ν} {otherBus : Bus Event μ}
    (calm : bus.Calm) (otherCalm : otherBus.Calm) :
    let rules := superCallRules indent
    let last := memoryRun rules false bus left.healed policy paths
    let single := memoryRun rules false otherBus store.healed otherPolicy paths
    (∃ report, last.1.2 = .ok report) ∧ (∃ report, single.1.2 = .ok report) ∧
      ∀ path, last.2.get? path = single.2.get? path := by
  intro rules last single
  have lasting : Lasting rules := lasting_superCallRules (not_hasCall_of_isIndent blank)
  have now := left.faultless_healed
  have before := store.faultless_healed
  have underway : store.healed.Underway rules paths left.healed := attempted.underway lasting
  refine ⟨?_, ?_, ?_⟩
  · exact ⟨_, memoryRun_of_faultless rules false policy calm now paths⟩
  · exact ⟨_, memoryRun_of_faultless rules false otherPolicy otherCalm before paths⟩
  · apply underway.finish lasting
    · exact worked_memoryRun lasting policy calm now paths
    · exact worked_memoryRun lasting otherPolicy otherCalm before paths

/-- Of three files with a call, the first is patched before the run is ended by the second, which
cannot be written.  A listener ends the next run, which has patched the third file by then. -/
theorem interrupted_batches_recover_twice :
    let refusing : Listener Event Nat := fun _ => [.raise (.plain .error "no")]
    let raising : Bus Event Nat := Bus.empty.enrol Event.fixedTopic none false refusing
    let quiet : Bus Event Nat := Bus.empty
    let rules := superCallRules " "
    let paths := ["a", "b", "c"]
    let store : MemoryStore :=
      ⟨[("a", "super(1);"), ("b", "super(2);"), ("c", "super(3);")], [], [], []⟩
    let faults : List ((Operation × String) × Failure) := [((.write, "b"), .plain .error "full")]
    let first := memoryRun rules false quiet { store with faults := faults } .fail ["a", "b", "c"]
    let second := memoryRun rules false raising { first.2 with faults := [] } .continue ["c", "a"]
    first.1.2.toOption = none ∧ second.1.2.toOption = none ∧
      second.2.get? "a" ≠ store.get? "a" ∧ second.2.get? "b" = store.get? "b" ∧
      Attempted rules paths store second.2 ∧
      ∀ path, (memoryRun rules false quiet second.2.healed .fail paths).2.get? path =
        (memoryRun rules false quiet store.healed .fail paths).2.get? path := by
  intro refusing raising quiet rules paths store faults first second
  have attempted : Attempted rules paths store second.2 := by
    have once : Attempted rules paths store first.2 :=
      Attempted.never.again faults MemoryStore.fallible_sandbox false .fail quiet (by decide)
    exact once.again [] MemoryStore.fallible_sandbox false .continue raising (by decide)
  have calm : quiet.Calm := (Bus.Peaceful.of_nobody rfl).calm
  have recovered := interrupted_batches_recover (by decide : isIndent " ") attempted .fail .fail
    calm calm
  refine ⟨?_, ?_, ?_, ?_, attempted, recovered.2.2⟩
  all_goals decide +kernel

end SuperCalls
