/-
Module: SuperCalls.Proofs.Batch.PathIndependence
Purpose: In a batch that goes on after failures, what becomes of a path depends on what the store
  holds about that path and on how often the path is listed, and on nothing else.  So the order of
  the paths decides nothing but the order of the report.
Main exports: Batch.course_own, Batch.perm_course, outcomes_depend_on_own_path
-/
import SuperCalls.Proofs.Batch.Course
import SuperCalls.Proofs.Batch.MemoryVisits

namespace SuperCalls

namespace Batch

/-- A visit is reported under the path that it was paid to. -/
theorem path_outcome (batch : Batch) (path : String) (share : MemoryStore.Share) :
    ((batch.visit path share).outcome path).path = path := by
  obtain ⟨content, isFileFault, readFault, writeFault⟩ := share
  cases isFileFault with
  | some failure => rfl
  | none =>
      cases content with
      | none => rfl
      | some content =>
          cases readFault with
          | some failure => rfl
          | none =>
              simp only [visit]
              split
              · rfl
              · split
                · rfl
                · cases writeFault <;> rfl

section Going

variable (rules : List Rule) (dryRun : Bool)

/-- The course of a batch that goes on, visit by visit. -/
theorem course_going_cons (store : MemoryStore) (path : String) (paths : List String) :
    let visit := (going rules dryRun).visit path (store.share path)
    (going rules dryRun).course MemoryStore.sandbox store (path :: paths) =
      ((going rules dryRun).course MemoryStore.sandbox (store.visited path visit) paths).cons
        (visit.outcome path) := by
  intro visit
  rw [course, MemoryStore.patched_eq]
  unfold Visit.outcome
  generalize visit.result = result
  cases result <;> rfl

/-!
### One path among others

The invariant is the share of the path: a visit to another path keeps it, and a visit to the path
itself changes it in the same way wherever it is the same.
-/

/-- The outcomes of a path in a course, and what the store holds about it in the end, are those of a
course of this path alone, from any store that holds the same about it. -/
theorem course_own (path : String) (paths : List String) :
    ∀ {store other : MemoryStore}, store.share path = other.share path →
      let whole := (going rules dryRun).course MemoryStore.sandbox store paths
      let own := (going rules dryRun).course MemoryStore.sandbox other
        (List.replicate (paths.count path) path)
      whole.outcomes.filter (·.path == path) = own.outcomes ∧
        whole.state.share path = own.state.share path := by
  induction paths with
  | nil =>
      intro store other agree
      exact ⟨rfl, agree⟩
  | cons next paths ih =>
      intro store other agree
      simp only [course_going_cons, Course.cons]
      by_cases mine : next = path
      · subst mine
        have after : (store.visited next ((going rules dryRun).visit next (store.share next))).share
              next =
            (other.visited next ((going rules dryRun).visit next (store.share next))).share next := by
          have content : store.get? next = other.get? next := congrArg MemoryStore.Share.content agree
          rw [MemoryStore.share_visited, MemoryStore.share_visited, if_pos rfl, if_pos rfl, agree,
            content]
        have own := path_outcome (going rules dryRun) next (store.share next)
        rw [List.filter_cons_of_pos (by simpa using own), List.count_cons_self,
          List.replicate_succ, course_going_cons, Course.cons]
        obtain ⟨outcomes, left⟩ := ih after
        rw [← agree]
        exact ⟨congrArg _ outcomes, left⟩
      · have kept : (store.visited next ((going rules dryRun).visit next (store.share next))).share
              path = other.share path := by
          rw [MemoryStore.share_visited, if_neg (Ne.symm mine), agree]
        have others := path_outcome (going rules dryRun) next (store.share next)
        rw [List.filter_cons_of_neg (by rw [others]; simpa using mine), List.count_cons_of_ne mine]
        exact ih kept

/-- Two courses agree on a path that is listed equally often, if their stores agree on it. -/
theorem course_agree {path : String} {paths others : List String} {store other : MemoryStore}
    (agree : store.share path = other.share path) (often : paths.count path = others.count path) :
    let one := (going rules dryRun).course MemoryStore.sandbox store paths
    let two := (going rules dryRun).course MemoryStore.sandbox other others
    one.outcomes.filter (·.path == path) = two.outcomes.filter (·.path == path) ∧
      one.state.share path = two.state.share path := by
  obtain ⟨outcomes, left⟩ := course_own rules dryRun path paths agree
  obtain ⟨outcomes', left'⟩ := course_own rules dryRun path others (Eq.refl (other.share path))
  rw [← often] at outcomes' left'
  exact ⟨outcomes.trans outcomes'.symm, left.trans left'.symm⟩

theorem faults_course (paths : List String) (store : MemoryStore) :
    ((going rules dryRun).course MemoryStore.sandbox store paths).state.faults = store.faults := by
  induction paths generalizing store with
  | nil => rfl
  | cons path paths ih =>
      rw [course_going_cons]
      exact (ih _).trans (store.faults_visited path _)

/-- Listing the paths in another order gives the same outcomes in another order, and the same texts. -/
theorem perm_course {paths others : List String} (perm : paths.Perm others) (store : MemoryStore) :
    let one := (going rules dryRun).course MemoryStore.sandbox store paths
    let two := (going rules dryRun).course MemoryStore.sandbox store others
    one.outcomes.Perm two.outcomes ∧ ∀ path, one.state.share path = two.state.share path := by
  have agree (path : String) := course_agree rules dryRun (Eq.refl (store.share path))
    (perm.count_eq path)
  refine ⟨?_, fun path => (agree path).2⟩
  apply List.perm_iff_count.mpr
  intro outcome
  have same := congrArg (List.count outcome) (agree outcome.path).1
  rwa [List.count_filter (by simp), List.count_filter (by simp)] at same

end Going

end Batch

/-!
### Runs
-/

open Batch

variable {ν μ : Type}

theorem course_of_memoryRun {rules : List Rule} {dryRun : Bool} {bus : Bus Event ν}
    {store : MemoryStore} {paths : List String} {report : Report}
    (reported : (memoryRun rules dryRun bus store .continue paths).1.2 = .ok report) :
    report = (going rules dryRun).report
        ((going rules dryRun).course MemoryStore.sandbox store paths).outcomes ∧
      (memoryRun rules dryRun bus store .continue paths).2 =
        ((going rules dryRun).course MemoryStore.sandbox store paths).state :=
  (report_of_run reported).2

/-- What is reported of a path and what is left under it depend on the share of the path and on how
often it is listed; listing the paths in another order changes the order of the report only.  Runs
on a bus on which no listener fails do end with a report. -/
theorem outcomes_depend_on_own_path (rules : List Rule) (dryRun : Bool) (bus : Bus Event ν)
    (otherBus : Bus Event μ) (store : MemoryStore) (paths : List String) :
    (bus.Calm → ∃ report, (memoryRun rules dryRun bus store .continue paths).1.2 = .ok report) ∧
    ∀ (other : MemoryStore) (others : List String) (report otherReport : Report),
      (memoryRun rules dryRun bus store .continue paths).1.2 = .ok report →
      (memoryRun rules dryRun otherBus other .continue others).1.2 = .ok otherReport →
      let left := (memoryRun rules dryRun bus store .continue paths).2
      let otherLeft := (memoryRun rules dryRun otherBus other .continue others).2
      (∀ path, store.share path = other.share path → paths.count path = others.count path →
        report.outcomes.filter (·.path == path) = otherReport.outcomes.filter (·.path == path) ∧
          left.get? path = otherLeft.get? path) ∧
      (store = other → paths.Perm others →
        report.outcomes.Perm otherReport.outcomes ∧
          report.fixedCount = otherReport.fixedCount ∧
          report.failedCount = otherReport.failedCount ∧
          left.faults = otherLeft.faults ∧ ∀ path, left.get? path = otherLeft.get? path) := by
  constructor
  · intro calm
    rw [memoryRun_continue rules dryRun calm, conclude_going]
    exact ⟨_, rfl⟩
  · intro other others report otherReport reported otherReported left otherLeft
    obtain ⟨rfl, state⟩ := course_of_memoryRun reported
    obtain ⟨rfl, otherState⟩ := course_of_memoryRun otherReported
    have lefts : left = _ := state
    have otherLefts : otherLeft = _ := otherState
    rw [lefts, otherLefts]
    simp only [outcomes_report, fixedCount_report, failedCount_report]
    constructor
    · intro path agree often
      obtain ⟨outcomes, share⟩ := course_agree rules dryRun agree often
      exact ⟨outcomes, congrArg MemoryStore.Share.content share⟩
    · rintro rfl perm
      obtain ⟨outcomes, shares⟩ := perm_course rules dryRun perm store
      refine ⟨outcomes, outcomes.countP_eq _, outcomes.countP_eq _, ?_, ?_⟩
      · rw [faults_course, faults_course]
      · intro path
        exact congrArg MemoryStore.Share.content (shares path)

/-- A path is listed twice, once among others of which one cannot be written; and its store is run
over in two orders. -/
theorem outcomes_depend_on_own_path_twice :
    let rules := superCallRules ""
    let bus : Bus Event Nat := Bus.empty
    let store : MemoryStore :=
      ⟨[("a", "super(1);"), ("b", "super(2);")], [((.write, "b"), .bare "42")], [], []⟩
    let other : MemoryStore := ⟨[("c", ""), ("a", "super(1);")], [], [], []⟩
    ∃ report otherReport swapped,
      (memoryRun rules false bus store .continue ["a", "b", "a"]).1.2 = .ok report ∧
      (memoryRun rules false bus other .continue ["a", "c", "a"]).1.2 = .ok otherReport ∧
      (memoryRun rules false bus store .continue ["b", "a", "a"]).1.2 = .ok swapped ∧
      report.outcomes.filter (·.path == "a") = otherReport.outcomes.filter (·.path == "a") ∧
      report.outcomes.Perm swapped.outcomes ∧ report.failedCount = swapped.failedCount := by
  intro rules bus store other
  have calm : bus.Calm := (Bus.Peaceful.of_nobody rfl).calm
  have run (store : MemoryStore) (paths : List String) :=
    (outcomes_depend_on_own_path rules false bus bus store paths).1 calm
  obtain ⟨report, reported⟩ := run store ["a", "b", "a"]
  obtain ⟨otherReport, otherReported⟩ := run other ["a", "c", "a"]
  obtain ⟨swapped, swappedReported⟩ := run store ["b", "a", "a"]
  have compared := (outcomes_depend_on_own_path rules false bus bus store ["a", "b", "a"]).2
  have outcomes := (compared other ["a", "c", "a"] report otherReport reported otherReported).1 "a"
    (by decide +kernel) (by decide)
  have orders := (compared store ["b", "a", "a"] report swapped reported swappedReported).2 rfl
    (List.Perm.swap "b" "a" ["a"])
  exact ⟨report, otherReport, swapped, reported, otherReported, swappedReported, outcomes.1,
    orders.1, orders.2.2.1⟩

end SuperCalls
