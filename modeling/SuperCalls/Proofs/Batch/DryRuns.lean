/-
Module: SuperCalls.Proofs.Batch.DryRuns
Purpose: What a dry run says about the run that writes.  A path that would change is reported as
  fixed each time it is listed, since nothing is written; so the two reports agree exactly if no
  such path is listed twice.
Main exports: MemoryStore.Faultless, ListsOnce, Batch.dry_course_iff, dryRun_predicts_iff_once
-/
import SuperCalls.Proofs.Batch.PathIndependence
import SuperCalls.Proofs.Workspace.ChangedFiles

namespace SuperCalls

/-- No call on a store fails because of a fault. -/
def MemoryStore.Faultless (store : MemoryStore) : Prop :=
  ∀ operation path, store.fault? operation path = none

/-- No path that patching would change is listed twice. -/
def ListsOnce (rules : List Rule) (store : MemoryStore) (paths : List String) : Prop :=
  ∀ path content, store.get? path = some content → (applyRules rules content).changed →
    paths.count path ≤ 1

namespace MemoryStore.Faultless

variable {store : MemoryStore}

theorem visited (faultless : store.Faultless) (path : String) (visit : Visit) :
    (store.visited path visit).Faultless := by
  intro operation other
  unfold MemoryStore.fault?
  rw [faults_visited]
  exact faultless operation other

/-- Only the text matters to a visit when nothing fails. -/
theorem share_eq (faultless : store.Faultless) (path : String) :
    store.share path = ⟨store.get? path, none, none, none⟩ := by
  unfold MemoryStore.share
  rw [faultless, faultless, faultless]

end MemoryStore.Faultless

namespace ListsOnce

variable {rules : List Rule} {store : MemoryStore} {path : String} {paths : List String}

theorem not_mem (once : ListsOnce rules store (path :: paths)) {content : String}
    (present : store.get? path = some content) (changed : (applyRules rules content).changed) :
    path ∉ paths := by
  intro again
  have twice := once path content present changed
  rw [List.count_cons_self] at twice
  exact absurd (List.count_pos_iff.mpr again) (Nat.not_lt.mpr (Nat.le_of_succ_le_succ twice))

/-- It holds of the paths behind a visit, if a path that was written does not come again. -/
theorem visited (once : ListsOnce rules store (path :: paths)) {visit : Visit}
    (last : visit.written ≠ none → path ∉ paths) :
    ListsOnce rules (store.visited path visit) paths := by
  intro other content present changed
  rw [MemoryStore.get?_visited] at present
  by_cases own : other = path
  · subst own
    by_cases kept : visit.written = none
    · rw [if_pos rfl, kept] at present
      have count := once other content present changed
      rw [List.count_cons_self] at count
      exact Nat.le_of_succ_le count
    · rw [List.count_eq_zero_of_not_mem (last kept)]
      exact Nat.zero_le 1
  · rw [if_neg own] at present
    have count := once other content present changed
    rwa [List.count_cons_of_ne (Ne.symm own)] at count

end ListsOnce

/-- Stores that agree on some paths still do behind a visit that wrote nothing and one that may have
written, if what was written does not come again. -/
theorem agree_visited {dry real : MemoryStore} {path : String} {paths : List String}
    (agree : ∀ other ∈ path :: paths, dry.get? other = real.get? other) {visit otherVisit : Visit}
    (unwritten : visit.written = none) (last : otherVisit.written ≠ none → path ∉ paths) :
    ∀ other ∈ paths, (dry.visited path visit).get? other =
      (real.visited path otherVisit).get? other := by
  intro other listed
  have before := agree other (List.mem_cons_of_mem _ listed)
  rw [MemoryStore.get?_visited, MemoryStore.get?_visited, unwritten]
  by_cases own : other = path
  · subst own
    have kept : otherVisit.written = none := by
      by_contra written
      exact last written listed
    rw [kept, before]
  · rw [if_neg own, if_neg own, before]

/-!
### Visits without faults
-/

namespace Batch

theorem visit_unchanged (batch : Batch) (path : String) {content : String}
    (same : (applyRules batch.rules content).changed = false) :
    batch.visit path ⟨some content, none, none, none⟩ =
      ⟨.ok ⟨path, .unchanged, (applyRules batch.rules content).counts⟩,
        [.isFile path, .read path], none⟩ := by
  simp only [visit, if_pos same]

/-- A text that changes is written unless the run is dry. -/
theorem visit_changed (batch : Batch) (path : String) {content : String}
    (changed : (applyRules batch.rules content).changed = true) :
    (batch.visit path ⟨some content, none, none, none⟩).result =
        .ok ⟨path, .fixed, (applyRules batch.rules content).counts⟩ ∧
      (batch.visit path ⟨some content, none, none, none⟩).written =
        if batch.dryRun then none else some (applyRules batch.rules content).content := by
  simp only [visit, changed, Bool.true_eq_false, if_false]
  cases batch.dryRun with
  | true => exact ⟨rfl, rfl⟩
  | false => exact ⟨rfl, rfl⟩

/-- A visit that meets no fault comes to an outcome that is no failure, dry or not. -/
theorem result_visit (rules : List Rule) (path : String) (content : Option String) :
    ∃ outcome, outcome.isFailed = false ∧ ∀ dryRun policy,
      (Batch.visit ⟨rules, dryRun, policy⟩ path ⟨content, none, none, none⟩).result =
        .ok outcome := by
  cases content with
  | none => exact ⟨⟨path, .skipped, []⟩, rfl, fun _ _ => rfl⟩
  | some content =>
      cases changed : (applyRules rules content).changed with
      | false =>
          refine ⟨⟨path, .unchanged, (applyRules rules content).counts⟩, rfl, ?_⟩
          intro dryRun policy
          rw [visit_unchanged ⟨rules, dryRun, policy⟩ path changed]
      | true =>
          refine ⟨⟨path, .fixed, (applyRules rules content).counts⟩, rfl, ?_⟩
          intro dryRun policy
          exact (visit_changed ⟨rules, dryRun, policy⟩ path changed).1

/-- Without faults the policy decides nothing. -/
theorem course_policy (rules : List Rule) (dryRun : Bool) (policy : ErrorPolicy)
    (paths : List String) {store : MemoryStore} (faultless : store.Faultless) :
    Batch.course ⟨rules, dryRun, policy⟩ MemoryStore.sandbox store paths =
      (going rules dryRun).course MemoryStore.sandbox store paths := by
  induction paths generalizing store with
  | nil => rfl
  | cons path paths ih =>
      obtain ⟨outcome, _, result⟩ := result_visit rules path (store.get? path)
      have patched (policy : ErrorPolicy) :
          (Batch.patched ⟨rules, dryRun, policy⟩ MemoryStore.sandbox path store).1 =
            .ok outcome := by
        rw [MemoryStore.patched_eq, faultless.share_eq]
        exact result dryRun policy
      rw [course_cons_of_ok (patched policy), course_cons_of_ok (patched .continue)]
      simp only [MemoryStore.patched_eq]
      exact congrArg (Course.cons outcome) (ih (faultless.visited path _))

/-- Only a run that is not dry writes, and only a text that changes. -/
theorem changed_of_written {batch : Batch} {path patched : String} {content : Option String}
    (written : (batch.visit path ⟨content, none, none, none⟩).written = some patched) :
    batch.dryRun = false ∧
      ∃ text, content = some text ∧ (applyRules batch.rules text).changed := by
  cases content with
  | none => cases written
  | some text =>
      cases changed : (applyRules batch.rules text).changed with
      | false =>
          rw [visit_unchanged batch path changed] at written
          cases written
      | true =>
          rw [(visit_changed batch path changed).2] at written
          split at written
          · cases written
          · next wet => exact ⟨Bool.eq_false_iff.mpr wet, text, rfl, changed⟩

/-!
### The two courses

The stores of the two runs part as soon as the real one writes.  What they still have in common is
the text under every path that is left, as long as no changed path comes again.
-/

/-- A dry run reports what the real run reports, if no path that changes is listed twice. -/
theorem dry_course (rules : List Rule) (paths : List String) :
    ∀ {dry real : MemoryStore}, dry.Faultless → real.Faultless →
      (∀ path ∈ paths, dry.get? path = real.get? path) → ListsOnce rules real paths →
      ((going rules true).course MemoryStore.sandbox dry paths).outcomes =
        ((going rules false).course MemoryStore.sandbox real paths).outcomes := by
  induction paths with
  | nil => exact fun _ _ _ _ => rfl
  | cons path paths ih =>
      intro dry real dryFaultless realFaultless agree once
      have here : dry.share path = real.share path := by
        rw [dryFaultless.share_eq, realFaultless.share_eq, agree path List.mem_cons_self]
      obtain ⟨outcome, _, result⟩ := result_visit rules path (real.get? path)
      rw [course_going_cons, course_going_cons, here, realFaultless.share_eq]
      simp only [Course.cons, Visit.outcome, result]
      generalize dryVisit : (going rules true).visit path _ = visit
      generalize realVisit : (going rules false).visit path _ = otherVisit
      have unwritten : visit.written = none := by
        rw [← dryVisit]
        by_contra some
        obtain ⟨text, written⟩ := Option.ne_none_iff_exists'.mp some
        cases (changed_of_written written).1
      have last : otherVisit.written ≠ none → path ∉ paths := by
        intro some
        obtain ⟨patched, written⟩ := Option.ne_none_iff_exists'.mp some
        rw [← realVisit] at written
        obtain ⟨_, text, present, changed⟩ := changed_of_written written
        exact once.not_mem present changed
      apply congrArg (List.cons outcome)
      apply ih (dryFaultless.visited path visit) (realFaultless.visited path otherVisit)
      · exact agree_visited agree unwritten last
      · exact once.visited last

/-- A path that changes is fixed again when it is visited again, just if the run is dry. -/
theorem repeated_course {rules : List Rule} (lasting : Lasting rules) (dryRun : Bool)
    {store : MemoryStore} (faultless : store.Faultless) {path content : String}
    (present : store.get? path = some content) (changed : (applyRules rules content).changed)
    (more : Nat) :
    (((going rules dryRun).course MemoryStore.sandbox store
      (List.replicate (more + 2) path)).outcomes[1]?).map Outcome.isFixed = some dryRun := by
  rw [List.replicate_succ, List.replicate_succ, course_going_cons, course_going_cons]
  simp only [Course.cons, List.getElem?_cons_succ, List.getElem?_cons_zero, Option.map_some]
  rw [(faultless.visited path _).share_eq, MemoryStore.get?_visited, if_pos rfl,
    faultless.share_eq, present, (visit_changed (going rules dryRun) path changed).2]
  cases dryRun with
  | true =>
      have again := (visit_changed (going rules true) path changed).1
      simp only [if_true, Option.none_or, Visit.outcome, again]
      rfl
  | false =>
      have same := visit_unchanged (going rules false) path (lasting content)
      simp only [Bool.false_eq_true, if_false, Option.some_or, same]
      rfl

/-- The reports of a dry run and of the real one agree exactly if no path that changes is listed
twice. -/
theorem dry_course_iff {rules : List Rule} (lasting : Lasting rules) {store : MemoryStore}
    (faultless : store.Faultless) (paths : List String) :
    ((going rules true).course MemoryStore.sandbox store paths).outcomes =
        ((going rules false).course MemoryStore.sandbox store paths).outcomes ↔
      ListsOnce rules store paths := by
  constructor
  · intro same path content present changed
    by_contra twice
    obtain ⟨more, count⟩ : ∃ more, paths.count path = more + 2 := ⟨paths.count path - 2, by omega⟩
    have dry := (course_own rules true path paths (Eq.refl (store.share path))).1
    have real := (course_own rules false path paths (Eq.refl (store.share path))).1
    rw [count] at dry real
    have second := repeated_course lasting true faultless present changed more
    rw [← dry, same, real, repeated_course lasting false faultless present changed more] at second
    cases second
  · intro once
    exact dry_course rules paths faultless faultless (fun _ _ => rfl) once

/-- Nothing fails where no fault is set. -/
theorem failed_of_faultless (rules : List Rule) (dryRun : Bool) (paths : List String) :
    ∀ {store : MemoryStore}, store.Faultless →
      ((going rules dryRun).course MemoryStore.sandbox store paths).outcomes.countP
        Outcome.isFailed = 0 := by
  induction paths with
  | nil => exact fun _ => rfl
  | cons path paths ih =>
      intro store faultless
      obtain ⟨outcome, fine, result⟩ := result_visit rules path (store.get? path)
      rw [course_going_cons, Course.cons, List.countP_cons, ih (faultless.visited path _),
        faultless.share_eq]
      simp only [Visit.outcome, result, fine]
      rfl

end Batch

/-!
### Runs
-/

open Batch

variable {ν μ : Type}

theorem memoryRun_of_faultless (rules : List Rule) (dryRun : Bool) (policy : ErrorPolicy)
    {bus : Bus Event ν} (calm : bus.Calm) {store : MemoryStore} (faultless : store.Faultless)
    (paths : List String) :
    (memoryRun rules dryRun bus store policy paths).1.2 =
      .ok ((going rules dryRun).report
        ((going rules dryRun).course MemoryStore.sandbox store paths).outcomes) := by
  unfold memoryRun
  rw [run_eq_of_calm _ _ calm, course_policy rules dryRun policy paths faultless, conclude,
    stop_going]
  rfl

/-- Where nothing fails, a dry run reports what the real run from the same store reports, exactly if
no path whose text would change is listed twice. -/
theorem dryRun_predicts_iff_once {indent : String} (blank : isIndent indent)
    (policy : ErrorPolicy) {bus : Bus Event ν} {otherBus : Bus Event μ} (calm : bus.Calm)
    (otherCalm : otherBus.Calm) {store : MemoryStore} (faultless : store.Faultless)
    (paths : List String) :
    ∃ dry real,
      (memoryRun (superCallRules indent) true bus store policy paths).1.2 = .ok dry ∧
      (memoryRun (superCallRules indent) false otherBus store policy paths).1.2 = .ok real ∧
      dry.failedCount = real.failedCount ∧
      (dry.outcomes = real.outcomes ∧ dry.fixedCount = real.fixedCount ↔
        ListsOnce (superCallRules indent) store paths) := by
  have lasting := lasting_superCallRules (not_hasCall_of_isIndent blank)
  refine ⟨_, _, memoryRun_of_faultless _ true policy calm faultless paths,
    memoryRun_of_faultless _ false policy otherCalm faultless paths, ?_, ?_⟩
  · simp only [failedCount_report, failed_of_faultless _ _ paths faultless]
  · rw [← dry_course_iff lasting faultless paths]
    simp only [outcomes_report, fixedCount_report]
    constructor
    · rintro ⟨same, _⟩
      exact same
    · intro same
      exact ⟨same, congrArg (List.countP Outcome.isFixed) same⟩

/-- A file without calls is listed twice, and a file with one only once. -/
theorem dryRun_predicts_iff_once_unchanged :
    let bus : Bus Event Nat := Bus.empty
    let store : MemoryStore := ⟨[("a", "super(1);"), ("b", "super();")], [], [], []⟩
    let paths := ["b", "a", "x", "b"]
    ∃ dry real,
      (memoryRun (superCallRules "  ") true bus store .fail paths).1.2 = .ok dry ∧
      (memoryRun (superCallRules "  ") false bus store .fail paths).1.2 = .ok real ∧
      dry.outcomes = real.outcomes := by
  intro bus store paths
  have calm : bus.Calm := (Bus.Peaceful.of_nobody rfl).calm
  have faultless : store.Faultless := fun _ _ => rfl
  obtain ⟨dry, real, ranDry, ranReal, _, agree⟩ :=
    dryRun_predicts_iff_once (by decide : isIndent "  ") .fail calm calm faultless paths
  have once : ListsOnce (superCallRules "  ") store paths := by
    intro path content present changed
    by_cases second : path = "b"
    · subst second
      cases present
      have same : (applyRules (superCallRules "  ") "super();").changed = false := by
        decide +kernel
      rw [same] at changed
      cases changed
    · by_cases first : path = "a"
      · subst first
        decide
      · have absent : store.get? path = none := by
          simp [store, MemoryStore.get?, List.lookup_cons, beq_false_of_ne first,
            beq_false_of_ne second]
        rw [absent] at present
        cases present
  exact ⟨dry, real, ranDry, ranReal, (agree.mpr once).1⟩

/-- A file with a call is listed twice: the dry run counts it twice. -/
theorem dryRun_overcounts_repeated :
    let bus : Bus Event Nat := Bus.empty
    let store : MemoryStore := ⟨[("a", "super(1);")], [], [], []⟩
    store.Faultless ∧ isIndent "" ∧ ∃ dry real,
      (memoryRun (superCallRules "") true bus store .fail ["a", "a"]).1.2 = .ok dry ∧
      (memoryRun (superCallRules "") false bus store .fail ["a", "a"]).1.2 = .ok real ∧
      dry.outcomes ≠ real.outcomes ∧ dry.fixedCount = 2 ∧ real.fixedCount = 1 := by
  intro bus store
  have calm : bus.Calm := (Bus.Peaceful.of_nobody rfl).calm
  have faultless : store.Faultless := fun _ _ => rfl
  refine ⟨faultless, by decide, _, _, memoryRun_of_faultless _ true .fail calm faultless _,
    memoryRun_of_faultless _ false .fail calm faultless _, ?_, ?_, ?_⟩
  · decide +kernel
  · decide +kernel
  · decide +kernel

end SuperCalls
