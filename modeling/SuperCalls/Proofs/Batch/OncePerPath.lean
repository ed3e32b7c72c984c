/-
Module: SuperCalls.Proofs.Batch.OncePerPath
Purpose: What a batch comes to where nothing fails.  It is told by the texts at the beginning alone:
  every listed path is left with its patched text, and is reported as fixed where it is listed
  first, if patching changes it.
Main exports: dueStatus, MemoryStore.Worked, Batch.course_worked, batch_patches_each_path_once
-/
import Mathlib.Data.Finset.Card
import Mathlib.Data.Finset.Dedup
import SuperCalls.Proofs.Batch.DryRuns

namespace SuperCalls

/-- What is to be reported of a path where some paths were listed earlier. -/
def dueStatus (rules : List Rule) (store : MemoryStore) (earlier : List String) (path : String) :
    Status :=
  match store.get? path with
  | none => .skipped
  | some content =>
      if path ∉ earlier ∧ (applyRules rules content).content ≠ content then .fixed else .unchanged

/-- A store in which the texts under some paths were patched. -/
def MemoryStore.Worked (rules : List Rule) (before : MemoryStore) (paths : List String)
    (now : MemoryStore) : Prop :=
  ∀ path, now.get? path =
    if path ∈ paths then (before.get? path).map fun content => (applyRules rules content).content
    else before.get? path

section

variable {rules : List Rule} {before now : MemoryStore} {earlier : List String} {path : String}

theorem dueStatus_eq_fixed_iff :
    dueStatus rules before earlier path = .fixed ↔
      path ∉ earlier ∧ ∃ content, before.get? path = some content ∧
        (applyRules rules content).content ≠ content := by
  unfold dueStatus
  cases before.get? path with
  | none => simp
  | some content =>
      simp only [Option.some.injEq, exists_eq_left']
      split
      · next due => simp [due]
      · next idle => simp [idle]

/-- A path is not due a second time. -/
theorem dueStatus_concat_eq_fixed_iff (other : String) :
    dueStatus rules before (earlier ++ [path]) other = .fixed ↔
      other ≠ path ∧ dueStatus rules before earlier other = .fixed := by
  rw [dueStatus_eq_fixed_iff, dueStatus_eq_fixed_iff]
  simp only [List.mem_append, List.mem_singleton, not_or]
  tauto

/-!
### One visit

The invariant is that the paths visited so far were worked, and no others.
-/

namespace MemoryStore.Worked

theorem nil (rules : List Rule) (store : MemoryStore) : store.Worked rules [] store := by
  intro path
  rfl

/-- A path that was worked has a text that stays as it is. -/
theorem visit_eq (lasting : Lasting rules) (worked : before.Worked rules earlier now)
    (faultless : now.Faultless) :
    let visit := (Batch.going rules false).visit path (now.share path)
    (visit.outcome path).status = dueStatus rules before earlier path ∧
      visit.written.or (now.get? path) =
        (before.get? path).map fun content => (applyRules rules content).content := by
  intro visit
  have share : now.share path = ⟨now.get? path, none, none, none⟩ := faultless.share_eq path
  have here := worked path
  unfold visit dueStatus
  rw [share]
  cases found : before.get? path with
  | none =>
      have absent : now.get? path = none := by rw [here, found]; simp
      rw [absent]
      exact ⟨rfl, rfl⟩
  | some content =>
      rw [found] at here
      by_cases again : path ∈ earlier
      · rw [if_pos again] at here
        have same := (Batch.going rules false).visit_unchanged path (lasting content)
        rw [here, Option.map_some, same]
        exact ⟨by simp [Visit.outcome, again], rfl⟩
      · rw [if_neg again] at here
        rw [here]
        cases changed : (applyRules rules content).changed with
        | false =>
            have same : (applyRules rules content).content = content := by
              by_contra other
              rw [(changed_iff_content_ne rules content).mpr other] at changed
              cases changed
            rw [(Batch.going rules false).visit_unchanged path changed]
            exact ⟨by simp [Visit.outcome, same], by simp [same]⟩
        | true =>
            have other := (changed_iff_content_ne rules content).mp changed
            obtain ⟨result, written⟩ := (Batch.going rules false).visit_changed path changed
            rw [written]
            exact ⟨by simp [Visit.outcome, result, again, other], rfl⟩

theorem visited (worked : before.Worked rules earlier now) {visit : Visit}
    (written : visit.written.or (now.get? path) =
      (before.get? path).map fun content => (applyRules rules content).content) :
    before.Worked rules (earlier ++ [path]) (now.visited path visit) := by
  intro other
  rw [MemoryStore.get?_visited]
  by_cases own : other = path
  · subst own
    rw [if_pos rfl, if_pos (List.mem_append_right _ (List.mem_singleton.mpr rfl)), written]
  · rw [if_neg own, worked other]
    simp [own]

end MemoryStore.Worked

end

/-!
### The whole list
-/

namespace Batch

/-- The listed texts are patched, and each path has the status that is due at its place. -/
theorem course_worked {rules : List Rule} (lasting : Lasting rules) {before : MemoryStore}
    (paths : List String) :
    ∀ {now : MemoryStore} {earlier : List String}, now.Faultless →
      before.Worked rules earlier now →
      let course := (going rules false).course MemoryStore.sandbox now paths
      before.Worked rules (earlier ++ paths) course.state ∧
        course.outcomes.map Outcome.status =
          paths.mapIdx fun i path => dueStatus rules before (earlier ++ paths.take i) path := by
  induction paths with
  | nil =>
      intro now earlier _ worked
      rw [List.append_nil]
      exact ⟨worked, rfl⟩
  | cons path paths ih =>
      intro now earlier faultless worked
      obtain ⟨status, written⟩ := worked.visit_eq lasting faultless
      obtain ⟨left, statuses⟩ := ih (faultless.visited path _) (worked.visited written)
      rw [course_going_cons, List.mapIdx_cons]
      refine ⟨?_, ?_⟩
      · rw [List.append_assoc] at left
        exact left
      · simp only [Course.cons, List.map_cons, List.take_zero, List.append_nil, List.take_succ_cons,
          status, statuses, List.append_assoc, List.singleton_append]

end Batch

/-- Where paths are listed again, the ones that are due are counted once. -/
theorem countP_due (rules : List Rule) (store : MemoryStore) (paths : List String) :
    ∀ earlier : List String,
      (paths.mapIdx fun i path => dueStatus rules store (earlier ++ paths.take i) path).countP
          (· == .fixed) =
        (paths.toFinset.filter fun path => dueStatus rules store earlier path = .fixed).card := by
  induction paths with
  | nil => exact fun _ => rfl
  | cons path paths ih =>
      intro earlier
      have rest := ih (earlier ++ [path])
      simp only [List.append_assoc, List.singleton_append] at rest
      have others :
          (paths.toFinset.filter fun other =>
            dueStatus rules store (earlier ++ [path]) other = .fixed) =
          (paths.toFinset.filter fun other => dueStatus rules store earlier other = .fixed).erase
            path := by
        ext other
        simp only [Finset.mem_filter, Finset.mem_erase, dueStatus_concat_eq_fixed_iff]
        tauto
      rw [others] at rest
      rw [List.mapIdx_cons, List.countP_cons, List.toFinset_cons, Finset.filter_insert]
      simp only [List.take_succ_cons, List.take_zero, List.append_nil, rest]
      by_cases due : dueStatus rules store earlier path = .fixed
      · rw [if_pos due, if_pos (beq_iff_eq.mpr due), ← Finset.erase_insert_eq_erase,
          Finset.card_erase_add_one (Finset.mem_insert_self _ _)]
      · rw [if_neg due, if_neg (by simpa using due), Nat.add_zero, Finset.erase_eq_of_notMem]
        simp [due]

/-!
### Runs
-/

open Batch

variable {ν : Type}

/-- Where nothing fails, a run ends with a report.  The paths that are listed are left with their
patched texts, and all other texts stay.  A path is reported as skipped if there is nothing under
it, as fixed where it is listed first if patching changes its text, and as unchanged otherwise; so
as many files are counted as fixed as listed paths have another text than before. -/
theorem batch_patches_each_path_once {indent : String} (blank : isIndent indent)
    (policy : ErrorPolicy) {bus : Bus Event ν} (calm : bus.Calm) {store : MemoryStore}
    (faultless : store.Faultless) (paths : List String) :
    let rules := superCallRules indent
    let ran := memoryRun rules false bus store policy paths
    ∃ report, ran.1.2 = .ok report ∧
      (∀ path ∈ paths, ∀ content, store.get? path = some content →
        ran.2.get? path = some (applyRules rules content).content) ∧
      (∀ path, path ∉ paths ∨ store.get? path = none → ran.2.get? path = store.get? path) ∧
      report.outcomes.map Outcome.path = paths ∧
      (∀ i path, paths[i]? = some path → ∃ outcome, report.outcomes[i]? = some outcome ∧
        outcome.status = dueStatus rules store (paths.take i) path) ∧
      report.fixedCount =
        (paths.toFinset.filter fun path => ran.2.get? path ≠ store.get? path).card := by
  intro rules ran
  have lasting : Lasting rules := lasting_superCallRules (not_hasCall_of_isIndent blank)
  have reported := memoryRun_of_faultless rules false policy calm faultless paths
  have left : ran.2 = ((going rules false).course MemoryStore.sandbox store paths).state := by
    unfold ran memoryRun
    rw [run_eq_of_calm _ _ calm, course_policy rules false policy paths faultless]
  obtain ⟨worked, statuses⟩ := course_worked lasting paths faultless (.nil rules store)
  simp only [List.nil_append] at worked statuses
  rw [← left] at worked
  refine ⟨_, reported, ?_, ?_, ?_, ?_, ?_⟩
  · intro path listed content present
    rw [worked, if_pos listed, present]
    rfl
  · rintro path (unlisted | absent)
    · rw [worked, if_neg unlisted]
    · rw [worked, absent]
      simp
  · rw [outcomes_report]
    exact paths_going rules false MemoryStore.sandbox paths store
  · intro i path there
    rw [outcomes_report]
    have status := congrArg (fun statuses : List Status => statuses[i]?) statuses
    simp only [List.getElem?_map, List.getElem?_mapIdx, there, Option.map_some,
      Option.map_eq_some_iff] at status
    exact status
  · rw [fixedCount_report]
    have counted := countP_due rules store paths []
    simp only [List.nil_append, ← statuses, List.countP_map] at counted
    refine Eq.trans counted (congrArg Finset.card (Finset.filter_congr ?_))
    intro path listed
    rw [dueStatus_eq_fixed_iff, worked, if_pos (List.mem_toFinset.mp listed)]
    cases store.get? path <;> simp

/-- One file is listed three times and holds a call, one holds none, and one is not there. -/
theorem batch_patches_each_path_once_thrice :
    let bus : Bus Event Nat := Bus.empty
    let store : MemoryStore :=
      ⟨[("a", "super(1);"), ("b", "super();"), ("c", "super(2);")], [], [], []⟩
    let paths := ["a", "b", "a", "x", "a"]
    let ran := memoryRun (superCallRules " \t") false bus store .fail paths
    ∃ report, ran.1.2 = .ok report ∧
      ran.2.get? "a" = some (applyRules (superCallRules " \t") "super(1);").content ∧
      ran.2.get? "c" = some "super(2);" ∧ report.fixedCount = 1 ∧
      ∃ outcome, report.outcomes[2]? = some outcome ∧ outcome.status = .unchanged := by
  intro bus store paths
  have calm : bus.Calm := (Bus.Peaceful.of_nobody rfl).calm
  have faultless : store.Faultless := fun _ _ => rfl
  obtain ⟨report, reported, patched, kept, _, statuses, count⟩ :=
    batch_patches_each_path_once (by decide : isIndent " \t") .fail calm faultless paths
  obtain ⟨outcome, there, status⟩ := statuses 2 "a" rfl
  refine ⟨report, reported, patched "a" (by decide) _ rfl, kept "c" (Or.inl (by decide)), ?_,
    outcome, there, ?_⟩
  · rw [count]
    decide +kernel
  · rw [status]
    decide +kernel

end SuperCalls
