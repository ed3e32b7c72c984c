/-
Module: SuperCalls.Proofs.Batch.Course
Purpose: The course of a batch: what becomes of its paths, one after the other, apart from the
  announcements.  On a calm bus a run is its course, announced.  Whatever the listeners do, a run
  follows the course of some first paths, and of all paths if it ends with a report.
Main exports: Tally.exact_after, Course, Batch.patched, Batch.patched_of_patches, Batch.course,
  Batch.course_append, Batch.runFrom_simulates, Batch.run_eq_of_calm, Batch.follows_runFrom,
  Batch.course_of_run, Batch.report_of_run
-/
import SuperCalls.Batch
import SuperCalls.Proofs.Bus.Calm

namespace SuperCalls

variable {σ ν : Type}

/-!
### Tallies

A batch counts as it goes on, by the status of each outcome.  That its counts are those of the
outcomes is kept by each outcome that is recorded.
-/

namespace Tally

theorem outcomes_record (tally : Tally) (outcome : Outcome) :
    (tally.record outcome).outcomes = tally.outcomes ++ [outcome] := by
  unfold record
  split <;> rfl

theorem fixedCount_record (tally : Tally) (outcome : Outcome) :
    (tally.record outcome).fixedCount = tally.fixedCount + if outcome.isFixed then 1 else 0 := by
  obtain ⟨path, status, counts⟩ := outcome
  cases status <;> rfl

theorem failedCount_record (tally : Tally) (outcome : Outcome) :
    (tally.record outcome).failedCount = tally.failedCount + if outcome.isFailed then 1 else 0 := by
  obtain ⟨path, status, counts⟩ := outcome
  cases status <;> rfl

/-- The counts are those of the outcomes. -/
structure Exact (tally : Tally) : Prop where
  fixed : tally.fixedCount = tally.outcomes.countP Outcome.isFixed
  failed : tally.failedCount = tally.outcomes.countP Outcome.isFailed

theorem exact_start : Exact start :=
  ⟨rfl, rfl⟩

theorem Exact.record {tally : Tally} (exact : tally.Exact) (outcome : Outcome) :
    (tally.record outcome).Exact where
  fixed := by
    rw [fixedCount_record, outcomes_record, List.countP_append, exact.fixed, List.countP_singleton]
  failed := by
    rw [failedCount_record, outcomes_record, List.countP_append, exact.failed,
      List.countP_singleton]

/-- What a batch has come to when it has recorded some outcomes. -/
def after (outcomes : List Outcome) : Tally :=
  outcomes.foldl record start

theorem after_concat (outcomes : List Outcome) (outcome : Outcome) :
    after (outcomes ++ [outcome]) = (after outcomes).record outcome :=
  List.foldl_append

theorem outcomes_foldl_record (outcomes : List Outcome) (tally : Tally) :
    (outcomes.foldl record tally).outcomes = tally.outcomes ++ outcomes := by
  induction outcomes generalizing tally with
  | nil => exact (List.append_nil _).symm
  | cons outcome outcomes ih =>
      rw [List.foldl_cons, ih, outcomes_record, List.append_assoc, List.singleton_append]

@[simp] theorem outcomes_after (outcomes : List Outcome) : (after outcomes).outcomes = outcomes :=
  outcomes_foldl_record outcomes start

/-- What a batch has counted in the course of its run are its outcomes. -/
theorem exact_after (outcomes : List Outcome) : (after outcomes).Exact :=
  List.foldlRecOn outcomes record (motive := Exact) exact_start
    fun _ exact outcome _ => exact.record outcome

end Tally

/-!
### Courses
-/

/-- What became of some paths: the outcomes, the failure that ended the batch, and the state of
the files. -/
structure Course (σ : Type) where
  outcomes : List Outcome
  stop : Option Failure
  state : σ

namespace Course

/-- A course with an outcome in front. -/
def cons (outcome : Outcome) (course : Course σ) : Course σ :=
  ⟨outcome :: course.outcomes, course.stop, course.state⟩

/-- Go on with more paths unless the batch has ended. -/
def andThen (course : Course σ) (more : σ → Course σ) : Course σ :=
  match course.stop with
  | some _ => course
  | none =>
      let rest := more course.state
      ⟨course.outcomes ++ rest.outcomes, rest.stop, rest.state⟩

theorem andThen_cons (outcome : Outcome) (course : Course σ) (more : σ → Course σ) :
    (course.cons outcome).andThen more = (course.andThen more).cons outcome := by
  obtain ⟨outcomes, stop, s⟩ := course
  cases stop <;> rfl

end Course

namespace Batch

/-- A file is patched from a state of the files. -/
def patched (batch : Batch) (sandbox : Sandbox (StateM σ)) (path : String) (s : σ) :
    Except Failure Outcome × σ :=
  (batch.patchFile sandbox path).run s

/-- What patching a file comes to, by the calls that are made for it. -/
inductive Patches (batch : Batch) (sandbox : Sandbox (StateM σ)) (path : String) :
    σ → Except Failure Outcome → σ → Prop where
  /-- It cannot be told whether there is a file. -/
  | unknown {s t : σ} {failure : Failure}
      (isFile : (sandbox.isFile path).run s = (.error failure, t)) :
      Patches batch sandbox path s (.error failure) t
  | skipped {s t : σ} (isFile : (sandbox.isFile path).run s = (.ok false, t)) :
      Patches batch sandbox path s (.ok ⟨path, .skipped, []⟩) t
  | unreadable {s t u : σ} {failure : Failure}
      (isFile : (sandbox.isFile path).run s = (.ok true, t))
      (read : (sandbox.read path).run t = (.error failure, u)) :
      Patches batch sandbox path s (.error failure) u
  | unchanged {s t u : σ} {content : String}
      (isFile : (sandbox.isFile path).run s = (.ok true, t))
      (read : (sandbox.read path).run t = (.ok content, u))
      (same : (applyRules batch.rules content).changed = false) :
      Patches batch sandbox path s
        (.ok ⟨path, .unchanged, (applyRules batch.rules content).counts⟩) u
  | unwritten {s t u : σ} {content : String}
      (isFile : (sandbox.isFile path).run s = (.ok true, t))
      (read : (sandbox.read path).run t = (.ok content, u))
      (changed : (applyRules batch.rules content).changed = true) (dry : batch.dryRun = true) :
      Patches batch sandbox path s (.ok ⟨path, .fixed, (applyRules batch.rules content).counts⟩) u
  | unwritable {s t u v : σ} {content : String} {failure : Failure}
      (isFile : (sandbox.isFile path).run s = (.ok true, t))
      (read : (sandbox.read path).run t = (.ok content, u))
      (changed : (applyRules batch.rules content).changed = true) (wet : batch.dryRun = false)
      (write : (sandbox.write path (applyRules batch.rules content).content).run u =
        (.error failure, v)) :
      Patches batch sandbox path s (.error failure) v
  | written {s t u v : σ} {content : String}
      (isFile : (sandbox.isFile path).run s = (.ok true, t))
      (read : (sandbox.read path).run t = (.ok content, u))
      (changed : (applyRules batch.rules content).changed = true) (wet : batch.dryRun = false)
      (write : (sandbox.write path (applyRules batch.rules content).content).run u = (.ok (), v)) :
      Patches batch sandbox path s (.ok ⟨path, .fixed, (applyRules batch.rules content).counts⟩) v

theorem patches_patched (batch : Batch) (sandbox : Sandbox (StateM σ)) (path : String) (s : σ) :
    Patches batch sandbox path s (batch.patched sandbox path s).1
      (batch.patched sandbox path s).2 := by
  unfold patched patchFile
  rw [run_bind]
  rcases isFile : (sandbox.isFile path).run s with ⟨failure | found, t⟩
  · exact .unknown isFile
  cases found with
  | false => exact .skipped isFile
  | true =>
      simp only [Bool.not_true, Bool.false_eq_true, if_false]
      rw [run_bind]
      rcases read : (sandbox.read path).run t with ⟨failure | content, u⟩
      · exact .unreadable isFile read
      cases changed : (applyRules batch.rules content).changed with
      | false =>
          simp only [changed]
          exact .unchanged isFile read changed
      | true =>
          simp only [changed]
          cases dry : batch.dryRun with
          | true => exact .unwritten isFile read changed dry
          | false =>
              simp only [Bool.not_true, Bool.false_eq_true, if_false, Bool.not_false, if_true]
              rw [run_bind]
              rcases write : (sandbox.write path (applyRules batch.rules content).content).run u with
                ⟨failure | _, v⟩
              · exact .unwritable isFile read changed dry write
              · exact .written isFile read changed dry write

/-- What becomes of a file that can be read. -/
theorem patched_of_read {batch : Batch} {sandbox : Sandbox (StateM σ)} {path content : String}
    {s t u : σ} (isFile : (sandbox.isFile path).run s = (.ok true, t))
    (read : (sandbox.read path).run t = (.ok content, u)) :
    let done := applyRules batch.rules content
    batch.patched sandbox path s =
      if done.changed = false then (.ok ⟨path, .unchanged, done.counts⟩, u)
      else if batch.dryRun then (.ok ⟨path, .fixed, done.counts⟩, u)
      else
        match (sandbox.write path done.content).run u with
        | (.ok (), v) => (.ok ⟨path, .fixed, done.counts⟩, v)
        | (.error failure, v) => (.error failure, v) := by
  intro done
  unfold patched patchFile
  rw [run_bind, isFile]
  simp only [Bool.not_true, Bool.false_eq_true, if_false]
  rw [run_bind, read]
  cases changed : done.changed with
  | false =>
      simp only [show (applyRules batch.rules content).changed = false from changed]
      rfl
  | true =>
      simp only [show (applyRules batch.rules content).changed = true from changed]
      cases batch.dryRun with
      | true => rfl
      | false =>
          simp only [Bool.not_true, Bool.false_eq_true, if_false, Bool.not_false, if_true]
          rw [run_bind]
          rcases (sandbox.write path done.content).run u with ⟨failure | _, v⟩ <;> rfl

/-- The calls that are made for a file tell what patching it comes to. -/
theorem patched_of_patches {batch : Batch} {sandbox : Sandbox (StateM σ)} {path : String} {s t : σ}
    {result : Except Failure Outcome} (patches : Patches batch sandbox path s result t) :
    batch.patched sandbox path s = (result, t) := by
  cases patches with
  | unknown isFile =>
      unfold patched patchFile
      rw [run_bind, isFile]
  | skipped isFile =>
      unfold patched patchFile
      rw [run_bind, isFile]
      rfl
  | unreadable isFile read =>
      unfold patched patchFile
      rw [run_bind, isFile]
      simp only [Bool.not_true, Bool.false_eq_true, if_false]
      rw [run_bind, read]
  | unchanged isFile read same => simp [patched_of_read isFile read, same]
  | unwritten isFile read changed dry => simp [patched_of_read isFile read, changed, dry]
  | unwritable isFile read changed wet write
    | written isFile read changed wet write =>
      simp [patched_of_read isFile read, changed, wet, write]

/-- What the batch makes of a patched file: a failure ends it or is an outcome too. -/
def settle (batch : Batch) (path : String) : Except Failure Outcome → Except Failure Outcome
  | .ok outcome => .ok outcome
  | .error failure =>
      match batch.errorPolicy with
      | .fail => .error (failure.about path)
      | .continue => .ok ⟨path, .failed failure.message, []⟩

/-- The course of a batch from a state of the files. -/
def course (batch : Batch) (sandbox : Sandbox (StateM σ)) : σ → List String → Course σ
  | s, [] => ⟨[], none, s⟩
  | s, path :: paths =>
      match batch.settle path (batch.patched sandbox path s).1 with
      | .error failure => ⟨[], some failure, (batch.patched sandbox path s).2⟩
      | .ok outcome => (batch.course sandbox (batch.patched sandbox path s).2 paths).cons outcome

/-- What each visit of a batch preserves, the whole course does. -/
theorem course_preserves {batch : Batch} {sandbox : Sandbox (StateM σ)}
    {p : σ → Prop} (paths : List String)
    (step : ∀ path ∈ paths, ∀ s, p s → p (batch.patched sandbox path s).2) :
    ∀ s, p s → p (batch.course sandbox s paths).state := by
  induction paths with
  | nil => exact fun _ holds => holds
  | cons path paths ih =>
      intro s holds
      have next := step path List.mem_cons_self s holds
      rw [Batch.course]
      split
      · exact next
      · exact ih (fun other member => step other (List.mem_cons_of_mem _ member)) _ next

theorem course_cons_of_settled {batch : Batch} {sandbox : Sandbox (StateM σ)} {path : String} {s : σ}
    {outcome : Outcome} (settled : batch.settle path (batch.patched sandbox path s).1 = .ok outcome)
    (paths : List String) :
    batch.course sandbox s (path :: paths) =
      (batch.course sandbox (batch.patched sandbox path s).2 paths).cons outcome := by
  rw [course, settled]

theorem course_cons_of_ok {batch : Batch} {sandbox : Sandbox (StateM σ)} {path : String} {s : σ}
    {outcome : Outcome} (done : (batch.patched sandbox path s).1 = .ok outcome)
    (paths : List String) :
    batch.course sandbox s (path :: paths) =
      (batch.course sandbox (batch.patched sandbox path s).2 paths).cons outcome :=
  course_cons_of_settled (by rw [done]; rfl) paths

theorem course_append (batch : Batch) (sandbox : Sandbox (StateM σ)) (more : List String) :
    ∀ (paths : List String) (s : σ),
      batch.course sandbox s (paths ++ more) =
        (batch.course sandbox s paths).andThen fun s => batch.course sandbox s more
  | [], _ => rfl
  | path :: paths, s => by
      rw [List.cons_append, course, course]
      cases batch.settle path (batch.patched sandbox path s).1 with
      | error failure => rfl
      | ok outcome =>
          simp only [Course.andThen_cons, course_append batch sandbox more paths]

theorem path_of_patches {batch : Batch} {sandbox : Sandbox (StateM σ)} {path : String}
    {s t : σ} {outcome : Outcome} (patches : Patches batch sandbox path s (.ok outcome) t) :
    outcome.path = path := by
  cases patches <;> rfl

theorem outcome_of_settle {batch : Batch} {path : String} {result : Except Failure Outcome}
    {outcome : Outcome} (settled : batch.settle path result = .ok outcome) :
    result = .ok outcome ∨
      ∃ failure, result = .error failure ∧ outcome = ⟨path, .failed failure.message, []⟩ := by
  cases result with
  | ok done => exact Or.inl settled
  | error failure =>
      unfold settle at settled
      simp only at settled
      split at settled
      · cases settled
      · cases settled
        exact Or.inr ⟨failure, rfl, rfl⟩

/-- The outcomes of a course belong to the paths in order, and to all of them unless it was ended. -/
theorem paths_course (batch : Batch) (sandbox : Sandbox (StateM σ)) (paths : List String) (s : σ) :
    let course := batch.course sandbox s paths
    course.outcomes.map Outcome.path <+: paths ∧
      (course.stop = none → course.outcomes.map Outcome.path = paths) := by
  induction paths generalizing s with
  | nil => exact ⟨List.prefix_refl _, fun _ => rfl⟩
  | cons path paths ih =>
      have patches := patches_patched batch sandbox path s
      simp only [course]
      cases settled : batch.settle path (batch.patched sandbox path s).1 with
      | error failure => exact ⟨List.nil_prefix, nofun⟩
      | ok outcome =>
          have own : outcome.path = path := by
            rcases outcome_of_settle settled with done | ⟨failure, _, rfl⟩
            · rw [done] at patches
              exact path_of_patches patches
            · rfl
          obtain ⟨earlier, all⟩ := ih (batch.patched sandbox path s).2
          simp only [Course.cons, List.map_cons, own]
          exact ⟨List.cons_prefix_cons.mpr ⟨rfl, earlier⟩, fun finished => by rw [all finished]⟩

/-!
### The run along a course
-/

/-- The announcements of outcomes. -/
def announcements (batch : Batch) (outcomes : List Outcome) : List Event :=
  outcomes.map fun outcome => outcome.event batch.dryRun

/-- The report that a batch makes of outcomes. -/
def report (batch : Batch) (outcomes : List Outcome) : Report :=
  (Tally.after outcomes).report batch.dryRun

section Report

variable (batch : Batch) (outcomes : List Outcome)

@[simp] theorem outcomes_report : (batch.report outcomes).outcomes = outcomes :=
  Tally.outcomes_after outcomes

@[simp] theorem fixedCount_report :
    (batch.report outcomes).fixedCount = outcomes.countP Outcome.isFixed :=
  (Tally.exact_after outcomes).fixed.trans (by rw [Tally.outcomes_after])

@[simp] theorem failedCount_report :
    (batch.report outcomes).failedCount = outcomes.countP Outcome.isFailed :=
  (Tally.exact_after outcomes).failed.trans (by rw [Tally.outcomes_after])

@[simp] theorem dryRun_report : (batch.report outcomes).dryRun = batch.dryRun :=
  rfl

end Report

/-- The announcement of the end of a batch. -/
def doneEvent (report : Report) : Event :=
  .batchDone report.fixedCount report.failedCount report.dryRun

/-- What a run makes of a course that begins behind some outcomes. -/
def conclude (batch : Batch) (bus : Bus Event ν) (earlier : List Outcome) (course : Course σ) :
    Bus Event ν × Except Failure Report :=
  match course.stop with
  | some failure => (bus.after (batch.announcements course.outcomes), .error failure)
  | none =>
      let report := batch.report (earlier ++ course.outcomes)
      (bus.after (batch.announcements course.outcomes ++ [doneEvent report]), .ok report)

theorem runFrom_cons (batch : Batch) (sandbox : Sandbox (StateM σ)) (bus : Bus Event ν)
    (tally : Tally) (path : String) (paths : List String) (s : σ) :
    batch.runFrom sandbox bus tally (path :: paths) s =
      match batch.settle path (batch.patched sandbox path s).1 with
      | .error failure => ((bus, .error failure), (batch.patched sandbox path s).2)
      | .ok outcome =>
          match bus.emit (outcome.event batch.dryRun) with
          | (bus, .error failure) => ((bus, .error failure), (batch.patched sandbox path s).2)
          | (bus, .ok _) =>
              batch.runFrom sandbox bus (tally.record outcome) paths
                (batch.patched sandbox path s).2 := by
  rw [runFrom]
  simp only [bind, StateT.bind]
  rw [show (batch.patchFile sandbox path).run s = batch.patched sandbox path s from rfl]
  obtain ⟨result, s⟩ := batch.patched sandbox path s
  cases result with
  | error failure =>
      unfold settle
      cases batch.errorPolicy with
      | fail => rfl
      | «continue» =>
          simp only
          rcases bus.emit _ with ⟨told, failure | cursor⟩ <;> rfl
  | ok outcome =>
      simp only [settle]
      rcases bus.emit _ with ⟨told, failure | cursor⟩ <;> rfl

/-- Where each path comes to the same over two sandboxes, and leaves states that are related again, the
whole run tells the same and ends in related states. -/
theorem runFrom_simulates {τ : Type} (batch : Batch) {sandbox : Sandbox (StateM σ)}
    {other : Sandbox (StateM τ)} {related : σ → τ → Prop} {paths : List String}
    (step : ∀ path ∈ paths, ∀ s u, related s u →
      (batch.patched sandbox path s).1 = (batch.patched other path u).1 ∧
        related (batch.patched sandbox path s).2 (batch.patched other path u).2) :
    ∀ (bus : Bus Event ν) (tally : Tally) (s : σ) (u : τ), related s u →
      (batch.runFrom sandbox bus tally paths s).1 = (batch.runFrom other bus tally paths u).1 ∧
        related (batch.runFrom sandbox bus tally paths s).2
          (batch.runFrom other bus tally paths u).2 := by
  induction paths with
  | nil =>
      intro bus tally s u start
      unfold runFrom
      rcases bus.emit _ with ⟨told, failure | _⟩ <;> exact ⟨rfl, start⟩
  | cons path paths ih =>
      intro bus tally s u start
      obtain ⟨same, next⟩ := step path List.mem_cons_self s u start
      have later := ih fun other member => step other (List.mem_cons_of_mem path member)
      rw [runFrom_cons, runFrom_cons, same]
      cases batch.settle path (batch.patched other path u).1 with
      | error failure => exact ⟨rfl, next⟩
      | ok outcome =>
          simp only
          rcases bus.emit (outcome.event batch.dryRun) with ⟨told, failure | _⟩
          · exact ⟨rfl, next⟩
          · exact later told (tally.record outcome) _ _ next

theorem conclude_cons (batch : Batch) {bus : Bus Event ν} (calm : bus.Calm)
    (earlier : List Outcome) (outcome : Outcome) (course : Course σ) :
    batch.conclude bus earlier (course.cons outcome) =
      batch.conclude (bus.after [outcome.event batch.dryRun]) (earlier ++ [outcome]) course := by
  obtain ⟨outcomes, stop, s⟩ := course
  cases stop with
  | some failure =>
      simp only [conclude, Course.cons, announcements, List.map_cons]
      rw [calm.after_cons]
  | none =>
      simp only [conclude, Course.cons, announcements, List.map_cons, List.cons_append,
        List.append_assoc, List.nil_append]
      rw [calm.after_cons]

theorem runFrom_eq_of_calm (batch : Batch) (sandbox : Sandbox (StateM σ)) :
    ∀ (paths : List String) {bus : Bus Event ν} (_ : bus.Calm) (earlier : List Outcome) (s : σ),
      batch.runFrom sandbox bus (.after earlier) paths s =
        (batch.conclude bus earlier (batch.course sandbox s paths),
          (batch.course sandbox s paths).state)
  | [], bus, calm, earlier, s => by
      obtain ⟨cursor, emitted⟩ := calm.emit_eq (doneEvent (batch.report earlier))
      simp only [doneEvent, report, Tally.report] at emitted
      simp only [runFrom, emitted, course, conclude, announcements, doneEvent, report, Tally.report,
        List.append_nil, List.map_nil, List.nil_append]
      rfl
  | path :: paths, bus, calm, earlier, s => by
      rw [runFrom_cons, course]
      cases batch.settle path (batch.patched sandbox path s).1 with
      | error failure => rfl
      | ok outcome =>
          obtain ⟨cursor, emitted⟩ := calm.emit_eq (outcome.event batch.dryRun)
          simp only [emitted]
          rw [← Tally.after_concat, runFrom_eq_of_calm batch sandbox paths (calm.next _),
            conclude_cons batch calm]
          rfl

/-- On a calm bus a run is its course, announced. -/
theorem run_eq_of_calm (batch : Batch) (sandbox : Sandbox (StateM σ)) {bus : Bus Event ν}
    (calm : bus.Calm) (paths : List String) (s : σ) :
    (batch.run sandbox bus paths).run s =
      (batch.conclude bus [] (batch.course sandbox s paths),
        (batch.course sandbox s paths).state) :=
  batch.runFrom_eq_of_calm sandbox paths calm [] s

/-!
### Listeners of any kind
-/

theorem course_singleton_state (batch : Batch) (sandbox : Sandbox (StateM σ)) (path : String)
    (s : σ) : (batch.course sandbox s [path]).state = (batch.patched sandbox path s).2 := by
  rw [course]
  cases batch.settle path (batch.patched sandbox path s).1 <;> rfl

/-- What a run comes to, behind some outcomes, leaves the files as the course of some first paths does.
If it is a report, these are all paths and the report is that of the course. -/
def Follows (batch : Batch) (sandbox : Sandbox (StateM σ)) (s : σ) (earlier : List Outcome)
    (paths : List String) (ran : (Bus Event ν × Except Failure Report) × σ) : Prop :=
  ∃ done, done <+: paths ∧ ran.2 = (batch.course sandbox s done).state ∧
    ∀ report, ran.1.2 = .ok report →
      done = paths ∧ (batch.course sandbox s paths).stop = none ∧
        report = batch.report (earlier ++ (batch.course sandbox s paths).outcomes)

section Following

variable {batch : Batch} {sandbox : Sandbox (StateM σ)} {path : String} {paths : List String} {s : σ}
  {earlier : List Outcome}

/-- A run that a failure ends at its first path has followed the course of this path. -/
theorem follows_of_failed (told : Bus Event ν) (failure : Failure) :
    batch.Follows sandbox s earlier (path :: paths)
      ((told, .error failure), (batch.patched sandbox path s).2) :=
  ⟨[path], ⟨paths, rfl⟩, (batch.course_singleton_state sandbox path s).symm, nofun⟩

/-- A run that goes on behind its first path follows the course of it and of what it goes on with. -/
theorem Follows.cons {ran : (Bus Event ν × Except Failure Report) × σ} {outcome : Outcome}
    (settled : batch.settle path (batch.patched sandbox path s).1 = .ok outcome)
    (follows : batch.Follows sandbox (batch.patched sandbox path s).2 (earlier ++ [outcome]) paths ran) :
    batch.Follows sandbox s earlier (path :: paths) ran := by
  obtain ⟨done, begins, state, reports⟩ := follows
  refine ⟨path :: done, List.cons_prefix_cons.mpr ⟨rfl, begins⟩, ?_, ?_⟩
  · rw [course_cons_of_settled settled]
    exact state
  · intro report reported
    obtain ⟨rfl, unstopped, rfl⟩ := reports report reported
    rw [course_cons_of_settled settled]
    refine ⟨rfl, unstopped, ?_⟩
    simp only [Course.cons, List.append_assoc, List.singleton_append]

end Following

theorem follows_runFrom (batch : Batch) (sandbox : Sandbox (StateM σ)) (paths : List String)
    (bus : Bus Event ν) (earlier : List Outcome) (s : σ) :
    batch.Follows sandbox s earlier paths (batch.runFrom sandbox bus (.after earlier) paths s) := by
  induction paths generalizing bus earlier s with
  | nil =>
      refine ⟨[], List.prefix_refl _, ?_, ?_⟩
      · simp only [runFrom]
        rcases bus.emit _ with ⟨told, failure | cursor⟩ <;> rfl
      · intro report reported
        refine ⟨rfl, rfl, ?_⟩
        simp only [runFrom] at reported
        generalize bus.emit _ = emitted at reported
        rcases emitted with ⟨told, failure | cursor⟩
        · cases reported
        · cases reported
          simp only [course, List.append_nil]
          rfl
  | cons path paths ih =>
      rw [runFrom_cons]
      cases settled : batch.settle path (batch.patched sandbox path s).1 with
      | error failure => exact follows_of_failed bus failure
      | ok outcome =>
          simp only [← Tally.after_concat]
          rcases bus.emit (outcome.event batch.dryRun) with ⟨told, failure | cursor⟩
          · exact follows_of_failed told failure
          · exact (ih told (earlier ++ [outcome]) (batch.patched sandbox path s).2).cons settled

/-- A run leaves the files as the course of some first paths does. -/
theorem course_of_run (batch : Batch) (sandbox : Sandbox (StateM σ)) (bus : Bus Event ν)
    (paths : List String) (s : σ) :
    ∃ done, done <+: paths ∧
      ((batch.run sandbox bus paths).run s).2 = (batch.course sandbox s done).state := by
  obtain ⟨done, begins, state, _⟩ := batch.follows_runFrom sandbox paths bus [] s
  exact ⟨done, begins, state⟩

/-- A run that ends with a report has followed the course of its paths. -/
theorem report_of_run {batch : Batch} {sandbox : Sandbox (StateM σ)} {bus : Bus Event ν}
    {paths : List String} {s : σ} {report : Report}
    (reported : ((batch.run sandbox bus paths).run s).1.2 = .ok report) :
    (batch.course sandbox s paths).stop = none ∧
      report = batch.report (batch.course sandbox s paths).outcomes ∧
      ((batch.run sandbox bus paths).run s).2 = (batch.course sandbox s paths).state := by
  obtain ⟨done, _, state, reports⟩ := batch.follows_runFrom sandbox paths bus [] s
  obtain ⟨rfl, unstopped, same⟩ := reports report reported
  exact ⟨unstopped, same, state⟩

end Batch

end SuperCalls
