/-
Module: SuperCalls.Proofs.Batch.ErrorPolicies
Purpose: A batch that ends at its first failure is a batch that goes on, cut there.
Main exports: Batch.course_cut, MemoryStore.recording_of_failed, fail_cuts_continue
-/
import SuperCalls.Proofs.Batch.Course
import SuperCalls.Sandbox.Memory

namespace SuperCalls

variable {σ ν : Type}

namespace Failure

/-- The failure that leaves a batch has a known cause and the message of the one that ended it. -/
theorem about_eq (path : String) (failure : Failure) :
    (failure.about path).isCoded ∧ (failure.about path).message = failure.message ∧
      (failure.isCoded → failure.about path = failure) ∧
      (¬ failure.isCoded → failure.about path = .coded .readFailed failure.message (some path)) := by
  cases failure <;> simp [about, isCoded, message]

end Failure

/-- An outcome that is no failure is announced neither as one nor as the end of a batch. -/
theorem Outcome.topic_ne (outcome : Outcome) (fine : outcome.isFailed = false) (dryRun : Bool) :
    (outcome.event dryRun).topic ≠ Event.failedTopic ∧
      (outcome.event dryRun).topic ≠ Event.batchDoneTopic := by
  obtain ⟨path, status, counts⟩ := outcome
  cases status with
  | failed message => cases fine
  | skipped | fixed | unchanged =>
      simp [Outcome.event, Event.topic, Event.skippedTopic, Event.fixedTopic,
        Event.unchangedTopic, Event.failedTopic, Event.batchDoneTopic]

/-!
### The two policies

Both policies make the same of a path up to the first failure.
-/

namespace Batch

theorem not_isFailed_of_patches {batch : Batch} {sandbox : Sandbox (StateM σ)} {path : String}
    {s t : σ} {outcome : Outcome} (patches : Patches batch sandbox path s (.ok outcome) t) :
    outcome.isFailed = false := by
  cases patches <;> rfl

section Policies

variable (rules : List Rule) (dryRun : Bool) (sandbox : Sandbox (StateM σ))

/-- A batch that goes on after failures. -/
abbrev going : Batch := ⟨rules, dryRun, .continue⟩

/-- A batch that ends at the first failure. -/
abbrev stopping : Batch := ⟨rules, dryRun, .fail⟩

theorem stop_going (paths : List String) (s : σ) :
    ((going rules dryRun).course sandbox s paths).stop = none := by
  induction paths generalizing s with
  | nil => rfl
  | cons path paths ih =>
      rw [course]
      cases ((going rules dryRun).patched sandbox path s).1 with
      | error failure => exact ih _
      | ok outcome => exact ih _

theorem paths_going (paths : List String) (s : σ) :
    ((going rules dryRun).course sandbox s paths).outcomes.map Outcome.path = paths :=
  (paths_course (going rules dryRun) sandbox paths s).2 (stop_going rules dryRun sandbox paths s)

theorem length_going (paths : List String) (s : σ) :
    ((going rules dryRun).course sandbox s paths).outcomes.length = paths.length := by
  have own := congrArg List.length (paths_going rules dryRun sandbox paths s)
  rwa [List.length_map] at own

/-- Either no path fails and both policies run the same course, or they do so up to the first path
that fails. -/
theorem course_cut (paths : List String) (s : σ) :
    ((∀ outcome ∈ ((going rules dryRun).course sandbox s paths).outcomes,
        outcome.isFailed = false) ∧
      (stopping rules dryRun).course sandbox s paths =
        (going rules dryRun).course sandbox s paths) ∨
    ∃ done path rest failure, paths = done ++ path :: rest ∧
      (∀ outcome ∈ ((going rules dryRun).course sandbox s done).outcomes,
        outcome.isFailed = false) ∧
      (stopping rules dryRun).course sandbox s done = (going rules dryRun).course sandbox s done ∧
      ((going rules dryRun).patched sandbox path
        ((going rules dryRun).course sandbox s done).state).1 = .error failure := by
  induction paths generalizing s with
  | nil => exact Or.inl ⟨fun outcome member => (List.not_mem_nil member).elim, rfl⟩
  | cons path paths ih =>
      have patches := patches_patched (going rules dryRun) sandbox path s
      cases result : ((going rules dryRun).patched sandbox path s).1 with
      | error failure =>
          exact Or.inr ⟨[], path, paths, failure, rfl,
            fun outcome member => (List.not_mem_nil member).elim, rfl, result⟩
      | ok outcome =>
          have fine : outcome.isFailed = false := by
            rw [result] at patches
            exact not_isFailed_of_patches patches
          have going_cons := fun paths => course_cons_of_ok result paths
          have stopping_cons := fun paths =>
            @course_cons_of_ok σ (stopping rules dryRun) sandbox path s outcome result paths
          rcases ih ((going rules dryRun).patched sandbox path s).2 with
            ⟨noneFailed, same⟩ | ⟨done, next, rest, failure, rfl, noneFailed, same, failed⟩
          · refine Or.inl ⟨?_, ?_⟩
            · rw [going_cons]
              exact List.forall_mem_cons.mpr ⟨fine, noneFailed⟩
            · rw [going_cons, stopping_cons, ← same]
              rfl
          · refine Or.inr ⟨path :: done, next, rest, failure, rfl, ?_, ?_, ?_⟩
            · rw [going_cons]
              exact List.forall_mem_cons.mpr ⟨fine, noneFailed⟩
            · rw [going_cons, stopping_cons, ← same]
              rfl
            · rw [going_cons]
              exact failed

/-- The course that goes on behind a path that fails. -/
theorem going_of_failed {done : List String} {path : String} {s : σ} {failure : Failure}
    (rest : List String)
    (failed : ((going rules dryRun).patched sandbox path
      ((going rules dryRun).course sandbox s done).state).1 = .error failure) :
    let before := (going rules dryRun).course sandbox s done
    let later := (going rules dryRun).course sandbox
      ((going rules dryRun).patched sandbox path before.state).2 rest
    (going rules dryRun).course sandbox s (done ++ path :: rest) =
      ⟨before.outcomes ++ ⟨path, .failed failure.message, []⟩ :: later.outcomes, later.stop,
        later.state⟩ := by
  intro before later
  rw [course_append, Course.andThen, stop_going]
  simp only [course, failed]
  rfl

/-- The course that ends at a path that fails. -/
theorem stopping_of_failed {done : List String} {path : String} {s : σ} {failure : Failure}
    (rest : List String)
    (same : (stopping rules dryRun).course sandbox s done =
      (going rules dryRun).course sandbox s done)
    (failed : ((going rules dryRun).patched sandbox path
      ((going rules dryRun).course sandbox s done).state).1 = .error failure) :
    (stopping rules dryRun).course sandbox s (done ++ path :: rest) =
      ⟨((going rules dryRun).course sandbox s done).outcomes, some (failure.about path),
        ((going rules dryRun).patched sandbox path
          ((going rules dryRun).course sandbox s done).state).2⟩ := by
  have ended : ((stopping rules dryRun).patched sandbox path
      ((going rules dryRun).course sandbox s done).state).1 = .error failure := failed
  rw [course_append, Course.andThen, same, stop_going]
  simp only [course, ended]
  simp only [settle, List.append_nil]
  rfl

theorem conclude_going (bus : Bus Event ν) (paths : List String) (s : σ) :
    (going rules dryRun).conclude bus [] ((going rules dryRun).course sandbox s paths) =
      let report := (going rules dryRun).report
        ((going rules dryRun).course sandbox s paths).outcomes
      (bus.after ((going rules dryRun).announcements report.outcomes ++ [doneEvent report]),
        .ok report) := by
  rw [conclude, stop_going]
  simp only [outcomes_report, List.nil_append]

end Policies

theorem findIdx?_isFailed {before later : List Outcome} {outcome : Outcome}
    (noneFailed : ∀ earlier ∈ before, earlier.isFailed = false) (failed : outcome.isFailed) :
    (before ++ outcome :: later).findIdx? Outcome.isFailed = some before.length := by
  rw [List.findIdx?_append, List.findIdx?_eq_none_iff.mpr noneFailed, List.findIdx?_cons, failed]
  simp

end Batch

/-!
### The store

A path that fails leaves a store as it was, but for the calls that were written down.
-/

namespace MemoryStore

/-- A store with more calls written down. -/
def recording (store : MemoryStore) (calls : List Call) : MemoryStore :=
  { store with calls := store.calls ++ calls }

theorem recording_recording (store : MemoryStore) (calls more : List Call) :
    (store.recording calls).recording more = store.recording (calls ++ more) := by
  simp only [recording, List.append_assoc]

/-- A call is written down before anything else happens. -/
theorem attempt_eq {α : Type} (call : Call) (operation : Operation) (path : String)
    (act : MemoryStore → Except Failure α × MemoryStore) (store : MemoryStore) :
    (attempt call operation path act).run store =
      match store.fault? operation path with
      | some failure => (.error failure, store.recording [call])
      | none => act (store.recording [call]) :=
  rfl

variable {store after : MemoryStore} {path content : String}

theorem isFile_recording {result : Except Failure Bool}
    (called : (sandbox.isFile path).run store = (result, after)) :
    after = store.recording [.isFile path] := by
  simp only [sandbox, attempt_eq] at called
  split at called <;> cases called <;> rfl

theorem read_recording {result : Except Failure String}
    (called : (sandbox.read path).run store = (result, after)) :
    after = store.recording [.read path] := by
  simp only [sandbox, attempt_eq] at called
  split at called
  · cases called
    rfl
  · split at called <;> cases called <;> rfl

theorem write_recording {result : Except Failure Unit}
    (called : (sandbox.write path content).run store = (result, after)) :
    after = store.recording [.write path content] ∨
      result = .ok () ∧ after = (store.recording [.write path content]).put path content := by
  simp only [sandbox, attempt_eq] at called
  split at called
  · cases called
    exact Or.inl rfl
  · cases called
    exact Or.inr ⟨rfl, rfl⟩

/-- A path that fails changes nothing but the calls. -/
theorem recording_of_failed {batch : Batch} {failure : Failure}
    (patches : Batch.Patches batch sandbox path store (.error failure) after) :
    ∃ calls, after = store.recording calls := by
  cases patches with
  | unknown isFile => exact ⟨_, isFile_recording isFile⟩
  | unreadable isFile read =>
      rw [read_recording read, isFile_recording isFile, recording_recording]
      exact ⟨_, rfl⟩
  | unwritable isFile read _ _ write =>
      rcases write_recording write with recorded | ⟨done, _⟩
      · rw [recorded, read_recording read, isFile_recording isFile, recording_recording,
          recording_recording]
        exact ⟨_, rfl⟩
      · cases done

/-- Patching a file adds calls behind those that were made. -/
theorem calls_prefix_of_patches {batch : Batch} {result : Except Failure Outcome}
    (patches : Batch.Patches batch sandbox path store result after) :
    store.calls <+: after.calls := by
  cases patches with
  | unknown isFile | skipped isFile =>
      rw [isFile_recording isFile]
      exact List.prefix_append _ _
  | unreadable isFile read | unchanged isFile read | unwritten isFile read =>
      rw [read_recording read, isFile_recording isFile, recording_recording]
      exact List.prefix_append _ _
  | unwritable isFile read _ _ write | written isFile read _ _ write =>
      rcases write_recording write with recorded | ⟨_, recorded⟩
      all_goals
        rw [recorded, read_recording read, isFile_recording isFile, recording_recording]
        simp only [put, recording_recording]
        exact List.prefix_append _ _

theorem calls_prefix_of_course (batch : Batch) (paths : List String) (store : MemoryStore) :
    store.calls <+: (batch.course sandbox store paths).state.calls := by
  induction paths generalizing store with
  | nil => exact List.prefix_refl _
  | cons path paths ih =>
      have first := calls_prefix_of_patches (Batch.patches_patched batch sandbox path store)
      rw [Batch.course]
      split
      · exact first
      · exact first.trans (ih _)

end MemoryStore

/-!
### The cut
-/

open Batch

/-- Run a batch over a store under one of the policies. -/
def memoryRun (rules : List Rule) (dryRun : Bool) (bus : Bus Event ν) (store : MemoryStore)
    (policy : ErrorPolicy) (paths : List String) :
    (Bus Event ν × Except Failure Report) × MemoryStore :=
  (Batch.run ⟨rules, dryRun, policy⟩ MemoryStore.sandbox bus paths).run store

/-- The batch that ends at the first failure is the one that goes on, cut at a position: the path
there fails with a failure and leaves a store behind. -/
structure CutAt (rules : List Rule) (dryRun : Bool) (bus : Bus Event ν) (store : MemoryStore)
    (paths : List String) (report : Report) (k : Nat) (path : String) (failure : Failure)
    (stopped : MemoryStore) : Prop where
  there : paths[k]? = some path
  failed : report.outcomes[k]? = some ⟨path, .failed failure.message, []⟩
  earlier : ∀ outcome ∈ report.outcomes.take k, outcome.isFailed = false
  /-- What is announced is neither a failure nor the end of the batch. -/
  announced : ∀ event ∈ (report.outcomes.take k).map fun outcome => outcome.event dryRun,
    event.topic ≠ Event.failedTopic ∧ event.topic ≠ Event.batchDoneTopic
  thrown :
    (Batch.patchFile ⟨rules, dryRun, .fail⟩ MemoryStore.sandbox path).run
      (memoryRun rules dryRun bus store .fail (paths.take k)).2 = (.error failure, stopped)
  /-- Only the outcomes before the position are announced. -/
  ended :
    memoryRun rules dryRun bus store .fail paths =
      ((bus.after ((report.outcomes.take k).map fun outcome => outcome.event dryRun),
        .error (failure.about path)), stopped)
  calls : stopped.calls = (memoryRun rules dryRun bus store .continue (paths.take (k + 1))).2.calls
  calls_prefix : stopped.calls <+: (memoryRun rules dryRun bus store .continue paths).2.calls
  alone :
    memoryRun rules dryRun bus store .fail (paths.take k) =
      memoryRun rules dryRun bus store .continue (paths.take k)
  /-- The path that fails leaves the store as the paths before it did. -/
  untouched :
    stopped =
      { (memoryRun rules dryRun bus store .fail (paths.take k)).2 with calls := stopped.calls }

section Runs

variable (rules : List Rule) (dryRun : Bool) {bus : Bus Event ν} (calm : bus.Calm)
  (store : MemoryStore)

include calm

theorem memoryRun_continue (paths : List String) :
    memoryRun rules dryRun bus store .continue paths =
      ((going rules dryRun).conclude bus []
          ((going rules dryRun).course MemoryStore.sandbox store paths),
        ((going rules dryRun).course MemoryStore.sandbox store paths).state) :=
  run_eq_of_calm (going rules dryRun) MemoryStore.sandbox calm paths store

theorem memoryRun_fail (paths : List String) :
    memoryRun rules dryRun bus store .fail paths =
      ((stopping rules dryRun).conclude bus []
          ((stopping rules dryRun).course MemoryStore.sandbox store paths),
        ((stopping rules dryRun).course MemoryStore.sandbox store paths).state) :=
  run_eq_of_calm (stopping rules dryRun) MemoryStore.sandbox calm paths store

theorem memoryRun_eq_of_course_eq {paths : List String}
    (same : (stopping rules dryRun).course MemoryStore.sandbox store paths =
      (going rules dryRun).course MemoryStore.sandbox store paths) :
    memoryRun rules dryRun bus store .fail paths =
      memoryRun rules dryRun bus store .continue paths := by
  rw [memoryRun_fail rules dryRun calm, memoryRun_continue rules dryRun calm, same]
  rfl

theorem cutAt_of_failed {done : List String} {path : String} {failure : Failure}
    (rest : List String)
    (noneFailed : ∀ outcome ∈ ((going rules dryRun).course MemoryStore.sandbox store done).outcomes,
      outcome.isFailed = false)
    (same : (stopping rules dryRun).course MemoryStore.sandbox store done =
      (going rules dryRun).course MemoryStore.sandbox store done)
    (failed : ((going rules dryRun).patched MemoryStore.sandbox path
      ((going rules dryRun).course MemoryStore.sandbox store done).state).1 = .error failure) :
    CutAt rules dryRun bus store (done ++ path :: rest)
      ((going rules dryRun).report ((going rules dryRun).course MemoryStore.sandbox store
        (done ++ path :: rest)).outcomes) done.length path failure
      ((going rules dryRun).patched MemoryStore.sandbox path
        ((going rules dryRun).course MemoryStore.sandbox store done).state).2 := by
  have continued := fun more => going_of_failed rules dryRun MemoryStore.sandbox more failed
  have position := length_going rules dryRun MemoryStore.sandbox done store
  have alone : memoryRun rules dryRun bus store .fail done =
      memoryRun rules dryRun bus store .continue done :=
    memoryRun_eq_of_course_eq rules dryRun calm store same
  have left : (memoryRun rules dryRun bus store .fail done).2 =
      ((going rules dryRun).course MemoryStore.sandbox store done).state := by
    rw [alone, memoryRun_continue rules dryRun calm]
  have before : (done ++ path :: rest).take done.length = done := List.take_left
  have first : ((going rules dryRun).course MemoryStore.sandbox store
      (done ++ path :: rest)).outcomes.take done.length =
        ((going rules dryRun).course MemoryStore.sandbox store done).outcomes := by
    rw [continued, ← position, List.take_left]
  constructor
  · rw [List.getElem?_append_right (Nat.le_refl _), Nat.sub_self]
    rfl
  · simp only [outcomes_report, continued]
    rw [← position, List.getElem?_append_right (Nat.le_refl _), Nat.sub_self]
    rfl
  · simp only [outcomes_report, first]
    exact noneFailed
  · simp only [outcomes_report, first]
    intro event member
    obtain ⟨outcome, here, rfl⟩ := List.mem_map.mp member
    exact outcome.topic_ne (noneFailed outcome here) dryRun
  · rw [before, left]
    exact Prod.ext failed rfl
  · rw [memoryRun_fail rules dryRun calm,
      stopping_of_failed rules dryRun MemoryStore.sandbox rest same failed]
    simp only [outcomes_report, first]
    rfl
  · have including : (done ++ path :: rest).take (done.length + 1) = done ++ [path] :=
      List.take_length_add_append 1
    rw [including, memoryRun_continue rules dryRun calm, continued]
    rfl
  · rw [memoryRun_continue rules dryRun calm, continued]
    exact MemoryStore.calls_prefix_of_course _ rest _
  · rw [before]
    exact alone
  · have patches := patches_patched (going rules dryRun) MemoryStore.sandbox path
      ((going rules dryRun).course MemoryStore.sandbox store done).state
    rw [failed] at patches
    obtain ⟨calls, recorded⟩ := MemoryStore.recording_of_failed patches
    rw [before, left, recorded]
    rfl

end Runs

/-- A batch that ends at its first failure is one that goes on, cut there, if no listener fails.  If
no path fails in the batch that goes on, both do the same. -/
theorem fail_cuts_continue (rules : List Rule) (dryRun : Bool) {bus : Bus Event ν}
    (calm : bus.Calm) (store : MemoryStore) (paths : List String) :
    ∃ report,
      (memoryRun rules dryRun bus store .continue paths).1 =
        (bus.after ((report.outcomes.map fun outcome => outcome.event dryRun) ++
          [.batchDone report.fixedCount report.failedCount dryRun]), .ok report) ∧
      report.outcomes.map Outcome.path = paths ∧
      (report.outcomes.findIdx? Outcome.isFailed = none →
        memoryRun rules dryRun bus store .fail paths =
          memoryRun rules dryRun bus store .continue paths) ∧
      ∀ k, report.outcomes.findIdx? Outcome.isFailed = some k →
        ∃ path failure stopped,
          CutAt rules dryRun bus store paths report k path failure stopped ∧
          (failure.about path).isCoded ∧ (failure.about path).message = failure.message ∧
          (failure.isCoded → failure.about path = failure) ∧
          (¬ failure.isCoded →
            failure.about path = .coded .readFailed failure.message (some path)) := by
  refine ⟨(going rules dryRun).report
    ((going rules dryRun).course MemoryStore.sandbox store paths).outcomes, ?_, ?_, ?_, ?_⟩
  · rw [memoryRun_continue rules dryRun calm, conclude_going]
    rfl
  · rw [outcomes_report]
    exact paths_going rules dryRun MemoryStore.sandbox paths store
  · intro absent
    rcases course_cut rules dryRun MemoryStore.sandbox paths store with
      ⟨_, same⟩ | ⟨done, path, rest, failure, rfl, _, _, failed⟩
    · exact memoryRun_eq_of_course_eq rules dryRun calm store same
    · have all := List.findIdx?_eq_none_iff.mp absent
      simp only [outcomes_report, going_of_failed rules dryRun MemoryStore.sandbox rest failed] at all
      have bad := all _ (List.mem_append_right _ List.mem_cons_self)
      cases bad
  · intro k first
    rcases course_cut rules dryRun MemoryStore.sandbox paths store with
      ⟨noneFailed, _⟩ | ⟨done, path, rest, failure, rfl, noneFailed, same, failed⟩
    · have absent := List.findIdx?_eq_none_iff.mpr noneFailed
      simp only [outcomes_report, absent] at first
      cases first
    · have cut := cutAt_of_failed rules dryRun calm store rest noneFailed same failed
      have position : ((going rules dryRun).report ((going rules dryRun).course MemoryStore.sandbox
          store (done ++ path :: rest)).outcomes).outcomes.findIdx? Outcome.isFailed =
            some done.length := by
        simp only [outcomes_report, going_of_failed rules dryRun MemoryStore.sandbox rest failed]
        rw [findIdx?_isFailed noneFailed rfl, length_going]
      rw [position] at first
      cases first
      exact ⟨path, failure, _, cut, failure.about_eq path⟩

/-- A file that cannot be written is met third, and a listener resets the bus. -/
theorem fail_cuts_continue_unwritable :
    let bus : Bus Event Nat := (Bus.empty.once Event.fixedTopic none fun _ => [.reset]).1
    let store : MemoryStore :=
      ⟨[("a", "super(1);"), ("b", "super(2);")], [((.write, "b"), .bare "42")], [], []⟩
    bus.Calm ∧ ∃ report failure stopped,
      CutAt (superCallRules "") false bus store ["a", "x", "b", "a"] report 2 "b" failure stopped ∧
      (failure.about "b").message = "42" := by
  intro bus store
  have peaceful : bus.Peaceful := by
    constructor
    · intro topic r member heard failure
      have listeners := Bus.empty.listeners_enrol Event.fixedTopic topic none true
        fun _ : Heard Event => [(.reset : Action Event Nat)]
      rw [show bus = Bus.empty.enrol Event.fixedTopic none true fun _ => [.reset] from rfl,
        listeners] at member
      split at member
      · cases List.mem_singleton.mp member
        simp
      · cases member
    · rfl
  obtain ⟨report, ran, _, _, cuts⟩ := fail_cuts_continue (superCallRules "") false peaceful.calm
    store ["a", "x", "b", "a"]
  have reported : (memoryRun (superCallRules "") false bus store .continue
      ["a", "x", "b", "a"]).1.2.toOption.map Report.outcomes = some
        [⟨"a", .fixed, [("two-argument", 0), ("one-argument", 1)]⟩, ⟨"x", .skipped, []⟩,
          ⟨"b", .failed "42", []⟩, ⟨"a", .unchanged, [("two-argument", 0), ("one-argument", 0)]⟩] := by
    decide +kernel
  rw [ran] at reported
  have outcomes := Option.some.inj reported
  obtain ⟨path, failure, stopped, cut, _, message, _⟩ := cuts 2 (by rw [outcomes]; rfl)
  have there : "b" = path := Option.some.inj cut.there
  subst there
  refine ⟨peaceful.calm, report, failure, stopped, cut, ?_⟩
  have failed := cut.failed
  rw [outcomes] at failed
  have same : Status.failed "42" = .failed failure.message :=
    congrArg Outcome.status (Option.some.inj failed)
  rw [message]
  exact (Status.failed.inj same).symm

end SuperCalls
