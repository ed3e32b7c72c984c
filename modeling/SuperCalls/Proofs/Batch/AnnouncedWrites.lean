/-
Module: SuperCalls.Proofs.Batch.AnnouncedWrites
Purpose: Every write is announced.  Listeners may fail on any announcement and end the run there,
  but an announcement is on the timeline before anybody hears of it, and it is the next thing that
  happens behind a write.
Main exports: Bus.Contained, Bus.Contained.emit, MemoryStore.accepted?, writes_disclosed
-/
import SuperCalls.Proofs.Batch.MemoryVisits
import SuperCalls.Proofs.Batch.ReportAgreement
import SuperCalls.Proofs.Bus.Invariants

namespace SuperCalls

variable {ε ν : Type}

/-!
### Listeners that leave the bus alone
-/

/-- The action is about nothing but the listener itself: it neither resets the bus nor announces
anything. -/
def Action.Private : Action ε ν → Prop
  | .note _ | .raise _ => True
  | .reset | .relay .. => False

namespace Bus

/-- Listeners may fail, but they neither reset the bus nor announce anything.  That a listener is a
function of what it hears leaves room for one with a memory: on such a bus it hears every number
once at most. -/
def Contained (bus : Bus ε ν) : Prop :=
  ∀ topic, ∀ r ∈ bus.listeners topic, ∀ heard, ∀ action ∈ r.listener heard, action.Private

theorem Contained.strike {bus : Bus ε ν} (contained : bus.Contained) (topic : String)
    (serial : Nat) : (bus.strike topic serial).Contained := by
  intro other r member
  unfold Bus.strike at member
  rw [listeners_withListeners] at member
  split at member
  · exact contained topic r (List.mem_filter.mp member).1
  · exact contained other r member

/-- What contained listeners do leaves the timeline as it is. -/
theorem kept_timeline (cursor : Nat) (timeline : List (TimelineEntry ε)) :
    Kept Action.Private fun bus : Bus ε ν =>
      bus.Contained ∧ bus.cursor = cursor ∧ bus.timeline = timeline where
  permits holds := holds.1
  note _ holds := holds
  called _ holds := holds
  strike topic serial holds := ⟨holds.1.strike topic serial, holds.2⟩
  forget refused := refused.elim
  clear refused := refused.elim
  clearAll refused := refused.elim
  relay refused := refused.elim

/-- An announcement is on the timeline, whether or not a listener fails on it. -/
theorem Contained.emit [HasTopic ε] {bus : Bus ε ν} (contained : bus.Contained) (event : ε) :
    (bus.emit event).1.Contained ∧ (bus.emit event).1.cursor = bus.cursor + 1 ∧
      (bus.emit event).1.timeline = bus.timeline ++ [⟨bus.cursor, bus.cursor, event⟩] :=
  (kept_timeline _ _).emit ⟨contained, rfl, rfl⟩

end Bus

/-!
### Writes
-/

/-- The path that an announcement says was fixed. -/
def Event.fixedPath? : Event → Option String
  | .fixed path _ _ => some path
  | _ => none

namespace MemoryStore

/-- The write that was made by a call: its path and its text, unless a fault struck. -/
def accepted? (store : MemoryStore) : Call → Option (String × String)
  | .write path content => if (store.fault? .write path).isNone then some (path, content) else none
  | _ => none

/-- The store behind some writes. -/
def putAll (store : MemoryStore) (writes : List (String × String)) : MemoryStore :=
  writes.foldl (fun store write => store.put write.1 write.2) store

theorem putAll_append (store : MemoryStore) (writes more : List (String × String)) :
    store.putAll (writes ++ more) = (store.putAll writes).putAll more :=
  List.foldl_append

theorem recording_putAll (store : MemoryStore) (writes : List (String × String))
    (calls : List Call) :
    (store.putAll writes).recording calls = (store.recording calls).putAll writes := by
  induction writes generalizing store with
  | nil => rfl
  | cons write writes ih => exact ih (store.put write.1 write.2)

/-- Writes change the texts of a store only. -/
theorem putAll_eq (store : MemoryStore) (writes : List (String × String)) :
    ∃ files, store.putAll writes = { store with files := files } := by
  induction writes generalizing store with
  | nil => exact ⟨store.files, rfl⟩
  | cons write writes ih => exact ih (store.put write.1 write.2)

theorem calls_putAll (store : MemoryStore) (writes : List (String × String)) :
    (store.putAll writes).calls = store.calls := by
  obtain ⟨files, left⟩ := store.putAll_eq writes
  rw [left]

theorem faults_putAll (store : MemoryStore) (writes : List (String × String)) :
    (store.putAll writes).faults = store.faults := by
  obtain ⟨files, left⟩ := store.putAll_eq writes
  rw [left]

theorem accepted?_congr {store other : MemoryStore} (same : store.faults = other.faults) :
    store.accepted? = other.accepted? := by
  unfold accepted? fault?
  rw [same]

/-- Between two states of the bus and the store, the writes that got through are the ones that were
announced as fixes. -/
def Disclosed (bus : Bus Event ν) (store : MemoryStore) (told : Bus Event ν) (left : MemoryStore) :
    Prop :=
  ∃ calls added, told.timeline = bus.timeline ++ added ∧
    left = (store.recording calls).putAll (calls.filterMap store.accepted?) ∧
    added.filterMap (·.event.event.fixedPath?) = (calls.filterMap store.accepted?).map Prod.fst

namespace Disclosed

variable {bus told heard : Bus Event ν} {store left last : MemoryStore}

theorem refl (bus : Bus Event ν) (store : MemoryStore) : Disclosed bus store bus store := by
  refine ⟨[], [], (List.append_nil _).symm, ?_, rfl⟩
  simp [putAll, recording]

theorem trans (first : Disclosed bus store told left) (second : Disclosed told left heard last) :
    Disclosed bus store heard last := by
  obtain ⟨calls, added, timeline, rfl, fixes⟩ := first
  obtain ⟨more, later, timeline', rfl, fixes'⟩ := second
  have same : ((store.recording calls).putAll (calls.filterMap store.accepted?)).accepted? =
      store.accepted? := accepted?_congr (faults_putAll _ _)
  rw [same] at fixes' ⊢
  refine ⟨calls ++ more, added ++ later, ?_, ?_, ?_⟩
  · rw [timeline', timeline, List.append_assoc]
  · rw [recording_putAll, recording_recording, List.filterMap_append, putAll_append]
  · rw [List.filterMap_append, List.filterMap_append, List.map_append, fixes, fixes']

/-- An announcement that is no fix. -/
theorem of_other {event : Event}
    (added : told.timeline = bus.timeline ++ [⟨bus.cursor, bus.cursor, event⟩])
    (other : event.fixedPath? = none) (store : MemoryStore) :
    Disclosed bus store told store := by
  refine ⟨[], _, added, ?_, by simp [other]⟩
  simp [putAll, recording]

end Disclosed

end MemoryStore

/-!
### Visits
-/

namespace Batch

/-- The writes of a visit to a path: there is one at most. -/
def visitWrites (path : String) (visit : Visit) : List (String × String) :=
  (visit.written.map fun content => (path, content)).toList

theorem visited_eq_putAll (store : MemoryStore) (path : String) (visit : Visit) :
    store.visited path visit = (store.recording visit.calls).putAll (visitWrites path visit) := by
  unfold MemoryStore.visited visitWrites
  cases visit.written <;> rfl

section

variable {batch : Batch} (wet : batch.dryRun = false)

include wet

/-- The calls of a visit that write and get through are its write, and a visit that gets through is
announced as a fix exactly if it wrote. -/
theorem writes_of_visit (store : MemoryStore) (path : String) :
    let visit := batch.visit path (store.share path)
    visit.calls.filterMap store.accepted? = visitWrites path visit ∧
      match visit.result with
      | .ok outcome =>
          (outcome.event batch.dryRun).fixedPath?.toList = (visitWrites path visit).map Prod.fst
      | .error _ => visitWrites path visit = [] := by
  unfold visit MemoryStore.share
  simp only [wet]
  cases store.fault? .isFile path with
  | some failure => exact ⟨rfl, rfl⟩
  | none =>
      cases store.get? path with
      | none => exact ⟨rfl, rfl⟩
      | some content =>
          cases store.fault? .read path with
          | some failure => exact ⟨rfl, rfl⟩
          | none =>
              dsimp only
              split
              · exact ⟨rfl, rfl⟩
              · simp only [Bool.false_eq_true, if_false]
                cases struck : store.fault? .write path with
                | some failure =>
                    refine ⟨?_, rfl⟩
                    simp [List.filterMap_cons, MemoryStore.accepted?, struck, visitWrites]
                | none =>
                    refine ⟨?_, rfl⟩
                    simp [List.filterMap_cons, MemoryStore.accepted?, struck, visitWrites]

/-- A path is patched and announced, whether or not a listener fails on it. -/
theorem disclosed_visit {bus told : Bus Event ν} {store : MemoryStore} {path : String}
    {outcome : Outcome}
    (settled : batch.settle path (batch.patched MemoryStore.sandbox path store).1 = .ok outcome)
    (added : told.timeline = bus.timeline ++
      [⟨bus.cursor, bus.cursor, outcome.event batch.dryRun⟩]) :
    MemoryStore.Disclosed bus store told (batch.patched MemoryStore.sandbox path store).2 := by
  obtain ⟨writes, announced⟩ := writes_of_visit wet store path
  rw [MemoryStore.patched_eq] at settled ⊢
  generalize batch.visit path (store.share path) = visit at settled writes announced ⊢
  refine ⟨visit.calls, _, added, ?_, ?_⟩
  · rw [writes]
    exact visited_eq_putAll store path visit
  · rw [writes]
    cases result : visit.result with
    | ok done =>
        rw [result] at settled announced
        cases settled
        rw [← announced]
        simp only [List.filterMap_cons, List.filterMap_nil]
        cases (outcome.event batch.dryRun).fixedPath? <;> rfl
    | error failure =>
        rw [result] at settled announced
        obtain ⟨message, rfl⟩ : ∃ message, outcome = ⟨path, .failed message, []⟩ := by
          simp only [settle] at settled
          split at settled
          · cases settled
          · exact ⟨_, (Except.ok.inj settled).symm⟩
        rw [announced]
        rfl

/-- A path that ends the batch was not written. -/
theorem disclosed_of_stop (bus : Bus Event ν) {store : MemoryStore} {path : String}
    {failure : Failure}
    (settled :
      batch.settle path (batch.patched MemoryStore.sandbox path store).1 = .error failure) :
    MemoryStore.Disclosed bus store bus (batch.patched MemoryStore.sandbox path store).2 := by
  obtain ⟨writes, announced⟩ := writes_of_visit wet store path
  rw [MemoryStore.patched_eq] at settled ⊢
  generalize batch.visit path (store.share path) = visit at settled writes announced ⊢
  cases result : visit.result with
  | ok outcome =>
      rw [result] at settled
      cases settled
  | error failure =>
      rw [result] at announced
      refine ⟨visit.calls, [], (List.append_nil _).symm, ?_, ?_⟩
      · rw [writes]
        exact visited_eq_putAll store path visit
      · rw [writes, announced]
        rfl

/-!
### Runs
-/

/-- Wherever a run ends, its writes have been announced. -/
theorem disclosed_runFrom (paths : List String) :
    ∀ {bus : Bus Event ν}, bus.Contained → ∀ (tally : Tally) (store : MemoryStore),
      let ran := batch.runFrom MemoryStore.sandbox bus tally paths store
      MemoryStore.Disclosed bus store ran.1.1 ran.2 := by
  induction paths with
  | nil =>
      intro bus contained tally store
      obtain ⟨_, _, added⟩ := contained.emit
        (.batchDone tally.fixedCount tally.failedCount batch.dryRun)
      have disclosed := MemoryStore.Disclosed.of_other added rfl store
      simp only [runFrom]
      generalize bus.emit _ = step at disclosed ⊢
      rcases step with ⟨told, failure | cursor⟩ <;> exact disclosed
  | cons path paths ih =>
      intro bus contained tally store
      rw [runFrom_cons]
      cases settled : batch.settle path (batch.patched MemoryStore.sandbox path store).1 with
      | error failure => exact disclosed_of_stop wet bus settled
      | ok outcome =>
          obtain ⟨still, _, added⟩ := contained.emit (outcome.event batch.dryRun)
          have disclosed := disclosed_visit wet settled added
          dsimp only
          generalize bus.emit (outcome.event batch.dryRun) = step at still disclosed ⊢
          rcases step with ⟨told, failure | cursor⟩
          · exact disclosed
          · exact disclosed.trans (ih still (tally.record outcome) _)

end

end Batch

/-- Listeners may fail on any announcement and end the run there, and so may the files; wherever it
ends, the writes that got through are, one for one and in order, the fixes that it put on the
timeline, and the store holds what was written and nothing else is changed. -/
theorem writes_disclosed (rules : List Rule) (policy : ErrorPolicy) {bus : Bus Event ν}
    (contained : bus.Contained) (store : MemoryStore) (paths : List String) :
    let ran := memoryRun rules false bus store policy paths
    ∃ calls added,
      ran.2.calls = store.calls ++ calls ∧
      ran.1.1.timeline = bus.timeline ++ added ∧
      added.filterMap (·.event.event.fixedPath?) = (calls.filterMap store.accepted?).map Prod.fst ∧
      ran.2 = (store.recording calls).putAll (calls.filterMap store.accepted?) := by
  intro ran
  have wet : (⟨rules, false, policy⟩ : Batch).dryRun = false := rfl
  obtain ⟨calls, added, timeline, left, fixes⟩ :=
    Batch.disclosed_runFrom wet paths contained .start store
  refine ⟨calls, added, ?_, timeline, fixes, left⟩
  exact (congrArg MemoryStore.calls left).trans (MemoryStore.calls_putAll _ _)

/-- Three files hold a call.  Writing the second fails, and the listener to fixes fails on the one
of the third file, which ends the run behind its write. -/
theorem writes_disclosed_raising :
    let refusing : Listener Event Nat
      | .announced ⟨_, .fixed "c" _ _⟩ => [.note 1, .raise (.plain .error "no")]
      | _ => [.note 0]
    let bus : Bus Event Nat := Bus.empty.enrol Event.fixedTopic none false refusing
    let store : MemoryStore :=
      ⟨[("a", "super(1);"), ("b", "super(2);"), ("c", "super(3);"), ("d", "super(4);")],
        [((.write, "b"), .plain .error "full")], [], []⟩
    let ran := memoryRun (superCallRules "") false bus store .continue ["a", "b", "c", "d"]
    bus.Contained ∧ (ran.1.2.toOption = none ∧ ran.1.1.notes = [0, 1]) ∧
      ∃ calls added, ran.2.calls = calls ∧ ran.1.1.timeline = added ∧
        added.filterMap (·.event.event.fixedPath?) = (calls.filterMap store.accepted?).map Prod.fst ∧
        (calls.filterMap store.accepted?).map Prod.fst = ["a", "c"] := by
  intro refusing bus store ran
  have contained : bus.Contained := by
    refine Bus.forall_enrol (fun listener => ∀ heard, ∀ action ∈ listener heard, action.Private)
      (fun topic r member => (List.not_mem_nil member).elim) ?_ _ _ _
    intro heard action member
    unfold refusing at member
    split at member
    · rcases List.mem_cons.mp member with rfl | last
      · trivial
      · cases List.mem_singleton.mp last
        trivial
    · cases List.mem_singleton.mp member
      trivial
  have failed : ran.1.2.toOption = none ∧ ran.1.1.notes = [0, 1] := by decide +kernel
  obtain ⟨calls, added, called, timeline, fixes, _⟩ :=
    writes_disclosed (superCallRules "") .continue contained store ["a", "b", "c", "d"]
  replace timeline : ran.1.1.timeline = added := timeline
  refine ⟨contained, failed, calls, added, called, timeline, fixes, ?_⟩
  rw [← fixes, ← timeline]
  decide +kernel

end SuperCalls
