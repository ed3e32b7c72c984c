/-
Module: SuperCalls.Proofs.Command.ExitCodes
Purpose: The ways in which a run of the command ends, and how the code that it exits with agrees
  with what it wrote on its two streams.
Main exports: Reporter.ReportsOn, Command.Informs, Command.Completes, Command.Refuses,
  Command.ends_of_exit, Command.run_ends_in_one_way
-/
import SuperCalls.Proofs.Batch.ReportAgreement
import SuperCalls.Proofs.Command.ReportedChanges

namespace SuperCalls

/-!
### Batches that are ended

Only the policy to end at failures ends a batch.  It is then ended by the first one, so that no
outcome before it is a failure, and for a reason that the library knows.
-/

theorem Batch.ended_of_stop {σ : Type} {batch : Batch} {sandbox : Sandbox (StateM σ)}
    {failure : Failure} (paths : List String) (s : σ)
    (stop : (batch.course sandbox s paths).stop = some failure) :
    batch.errorPolicy = .fail ∧ failure.isCoded ∧
      ∀ outcome ∈ (batch.course sandbox s paths).outcomes, outcome.isFailed = false := by
  induction paths generalizing s with
  | nil => cases stop
  | cons path paths ih =>
      have patches := patches_patched batch sandbox path s
      rw [course] at stop ⊢
      cases result : (batch.patched sandbox path s).1 with
      | ok outcome =>
          rw [result] at stop patches
          obtain ⟨policy, known, fine⟩ := ih _ stop
          exact ⟨policy, known, List.forall_mem_cons.mpr ⟨not_isFailed_of_patches patches, fine⟩⟩
      | error reason =>
          cases policy : batch.errorPolicy with
          | fail =>
              have settled : batch.settle path (.error reason) = .error (reason.about path) := by
                unfold settle
                rw [policy]
              rw [result, settled] at stop
              cases stop
              rw [settled]
              exact ⟨rfl, (reason.about_eq path).1, fun _ member => (List.not_mem_nil member).elim⟩
          | «continue» =>
              -- a batch that goes on is not ended later either
              have settled : batch.settle path (.error reason) =
                  .ok ⟨path, .failed reason.message, []⟩ := by
                unfold settle
                rw [policy]
              rw [result, settled] at stop
              rw [policy] at ih
              cases (ih _ stop).1

namespace Reporter

/-!
### What a line says
-/

/-- Whether a line begins with a text. -/
def begins (start line : String) : Bool :=
  start.toList.isPrefixOf line.toList

/-- Whether a line says that a file was fixed, or would be. -/
def isFixedLine (line : String) : Bool :=
  begins "FIXED: " line || begins "[dry-run] FIXED: " line

/-- Whether a line says that a file failed. -/
def isFailedLine (line : String) : Bool :=
  begins "FAILED: " line

/-- Whether a line is the summary of a batch. -/
def isTotalLine (line : String) : Bool :=
  begins "Total files fixed: " line

/-- The lines that report what became of a path. -/
inductive ReportsOn (dryRun : Bool) (path : String) : String → Prop where
  | skipped : ReportsOn dryRun path ("SKIP: " ++ path ++ " not found")
  /-- The counts of the rules may be listed behind the path. -/
  | fixed (detail : String) :
      ReportsOn dryRun path (dryRunMark dryRun ++ "FIXED: " ++ path ++ detail)
  | unchanged : ReportsOn dryRun path (dryRunMark dryRun ++ "NO CHANGE: " ++ path)
  | failed (message : String) : ReportsOn dryRun path ("FAILED: " ++ path ++ " (" ++ message ++ ")")

theorem reportsOn_wording (reporter : Reporter) (dryRun : Bool) (outcome : Outcome) :
    ReportsOn dryRun outcome.path (reporter.wording dryRun outcome) := by
  unfold wording
  cases outcome.status with
  | skipped => exact .skipped
  | fixed => exact .fixed _
  | unchanged => exact .unchanged
  | failed message => exact .failed message

/-- The letters that a line begins with tell what it says. -/
theorem wording_kinds (reporter : Reporter) (dryRun : Bool) (outcome : Outcome) :
    isFixedLine (reporter.wording dryRun outcome) = outcome.isFixed ∧
      isFailedLine (reporter.wording dryRun outcome) = outcome.isFailed ∧
      isTotalLine (reporter.wording dryRun outcome) = false := by
  obtain ⟨path, status, counts⟩ := outcome
  unfold wording isFixedLine isFailedLine isTotalLine begins
  cases dryRun <;> cases status <;>
    simp [Outcome.isFixed, Outcome.isFailed, String.toList_append, List.isPrefixOf]

end Reporter

namespace Command

variable {validator : Validator} {finder : Finder}

/-!
### What is written behind a course
-/

/-- A run whose batch was ended has written the lines of the outcomes, and nothing else. -/
theorem transcriptOf_of_stop {σ : Type} {batch : Batch} (verbose : Bool) {course : Course σ}
    {failure : Failure} (stop : course.stop = some failure) :
    transcriptOf batch verbose course =
      .ended (course.outcomes.map (Reporter.wording ⟨verbose⟩ batch.dryRun)) failure := by
  unfold transcriptOf Batch.conclude
  rw [stop]
  simp only [notes_after, lines_announcements]
  rw [show Reporter.line ⟨verbose⟩ batch.dryRun = Reporter.wording ⟨verbose⟩ batch.dryRun from
    funext (Reporter.line_eq_wording ⟨verbose⟩ batch.dryRun)]

/-- A run that has gone through its batch has written the lines of the outcomes and a summary. -/
theorem transcriptOf_of_finished {σ : Type} {batch : Batch} (verbose : Bool) {course : Course σ}
    (finished : course.stop = none) :
    transcriptOf batch verbose course =
      ⟨course.outcomes.map (Reporter.wording ⟨verbose⟩ batch.dryRun) ++
          ["", "Total files fixed: " ++ toString (course.outcomes.countP Outcome.isFixed) ++
            (if batch.dryRun then " (dry run)" else "")],
        [], .ok (if 0 < course.outcomes.countP Outcome.isFailed then 1 else 0)⟩ := by
  unfold transcriptOf Batch.conclude
  rw [finished]
  simp only [notes_after, List.nil_append, Batch.failedCount_report, Batch.announcements,
    Batch.doneEvent, Batch.fixedCount_report, Batch.dryRun_report]
  rw [Reporter.lines_announced]

/-!
### Three ways to end
-/

/-- The settings that a run comes to know, whatever it does with them. -/
def effective (validator : Validator) (finder : Finder) (tree : Tree) (cwd : Location)
    (arguments : List String) : Option Config :=
  match Arguments.read arguments with
  | .error _ => none
  | .ok given => ((config validator finder.disk cwd given).run tree).1.toOption

/-- A run does nothing but say what it was asked to say, which is help or the version. -/
structure Informs (tree : Tree) (transcript : Transcript) (after : Tree) : Prop where
  exit : transcript.exit = .ok 0
  out : transcript.out = [helpText] ∨ transcript.out = ["super-patch v" ++ version]
  err : transcript.err = []
  unchanged : after = tree

/-- A run goes through its files: it writes a line for each of them, in order, then an empty line
and how many lines say that a file was fixed.  It exits with 1 if a line says that a file failed. -/
def Completes (validator : Validator) (finder : Finder) (tree : Tree) (cwd : Location)
    (arguments : List String) (transcript : Transcript) : Prop :=
  transcript.err = [] ∧ ∃ settings paths lines,
    planned validator finder tree cwd arguments = some (settings, paths) ∧
    List.Forall₂ (Reporter.ReportsOn settings.dryRun) paths lines ∧
    transcript.out = lines ++
      ["", "Total files fixed: " ++ toString (lines.countP Reporter.isFixedLine) ++
        (if settings.dryRun then " (dry run)" else "")] ∧
    transcript.exit = .ok (if lines.any Reporter.isFailedLine then 1 else 0)

/-- A run reports an error and exits with 1.  It writes no summary, and no line that says that a
file failed; it writes nothing at all unless its settings are to end at failures. -/
structure Refuses (validator : Validator) (finder : Finder) (tree : Tree) (cwd : Location)
    (arguments : List String) (transcript : Transcript) : Prop where
  exit : transcript.exit = .ok 1
  err : ∃ message, transcript.err = ["error: " ++ message]
  out : ∀ line ∈ transcript.out,
    Reporter.isTotalLine line = false ∧ Reporter.isFailedLine line = false
  silent : (effective validator finder tree cwd arguments).map Config.errorPolicy ≠ some .fail →
    transcript.out = []

section

variable {tree after : Tree} {cwd : Location} {arguments : List String} {transcript : Transcript}

theorem Informs.not_completes (informs : Informs tree transcript after) :
    ¬ Completes validator finder tree cwd arguments transcript := by
  rintro ⟨_, settings, paths, lines, _, _, out, _⟩
  have length := congrArg List.length out
  rw [List.length_append] at length
  rcases informs.out with said | said
  all_goals
    rw [said] at length
    simp at length

theorem Informs.not_refuses (informs : Informs tree transcript after) :
    ¬ Refuses validator finder tree cwd arguments transcript := by
  intro refuses
  have exits := informs.exit
  rw [refuses.exit] at exits
  cases exits

theorem Refuses.not_completes (refuses : Refuses validator finder tree cwd arguments transcript) :
    ¬ Completes validator finder tree cwd arguments transcript := by
  rintro ⟨silent, _⟩
  obtain ⟨message, err⟩ := refuses.err
  rw [silent] at err
  cases err

/-- An error that is reported before any file is looked at. -/
theorem refuses_failing (message : String) :
    Refuses validator finder tree cwd arguments (.failing [] message) where
  exit := rfl
  err := ⟨message, rfl⟩
  out _ member := (List.not_mem_nil member).elim
  silent _ := rfl

/-- A failure that is reported, and not one that breaks the run down, is known to the library. -/
theorem ended_of_exit {out : List String} {failure : Failure} {code : Nat}
    (exit : (Transcript.ended out failure).exit = .ok code) :
    Transcript.ended out failure = .failing out failure.message := by
  unfold Transcript.ended at exit ⊢
  split
  · rfl
  · next unknown =>
      rw [if_neg unknown] at exit
      cases exit

theorem ended_of_isCoded (out : List String) {failure : Failure} (known : failure.isCoded) :
    Transcript.ended out failure = .failing out failure.message :=
  if_pos known

end

/-- A run that comes to patch files goes through them or is ended by a failure. -/
theorem completes_or_refuses {tree : Tree} {cwd : Location} {arguments : List String}
    {given : Arguments} {settings : Config} {paths : List String} (asks : Asks arguments given)
    (asked : ((config validator finder.disk cwd given).run tree).1 = .ok settings)
    (found : ((settings.targets ((workspace settings).sandbox finder.disk)).run tree).1 =
      .ok paths) (verbose : Bool) :
    let course := (batchOf settings).course ((workspace settings).sandbox finder.disk) tree paths
    let transcript := transcriptOf (batchOf settings) verbose course
    Completes validator finder tree cwd arguments transcript ∨
      Refuses validator finder tree cwd arguments transcript := by
  intro course transcript
  let wording := Reporter.wording ⟨verbose⟩ (batchOf settings).dryRun
  have kinds (outcome : Outcome) :
      Reporter.isFixedLine (wording outcome) = outcome.isFixed ∧
        Reporter.isFailedLine (wording outcome) = outcome.isFailed ∧
        Reporter.isTotalLine (wording outcome) = false :=
    Reporter.wording_kinds ⟨verbose⟩ _ outcome
  cases stop : course.stop with
  | none =>
      left
      have written : transcript = _ := transcriptOf_of_finished verbose stop
      have own := ((batchOf settings).paths_course ((workspace settings).sandbox finder.disk)
        paths tree).2 stop
      have fixed : Reporter.isFixedLine ∘ wording = Outcome.isFixed :=
        funext fun outcome => (kinds outcome).1
      have failed : Reporter.isFailedLine ∘ wording = Outcome.isFailed :=
        funext fun outcome => (kinds outcome).2.1
      rw [written]
      refine ⟨rfl, settings, paths, course.outcomes.map wording, planned_eq_some asks asked found,
        ?_, ?_, ?_⟩
      · rw [← own, List.forall₂_map_left_iff, List.forall₂_map_right_iff, List.forall₂_same]
        exact fun outcome _ => Reporter.reportsOn_wording ⟨verbose⟩ _ outcome
      · rw [List.countP_map, fixed]
        rfl
      · rw [List.any_map, failed]
        simp only [List.countP_pos_iff, List.any_eq_true]
  | some failure =>
      right
      have written : transcript = _ := transcriptOf_of_stop verbose stop
      obtain ⟨policy, known, fine⟩ := Batch.ended_of_stop paths tree stop
      rw [written, ended_of_isCoded _ known]
      constructor
      · rfl
      · exact ⟨failure.message, rfl⟩
      · intro line member
        obtain ⟨outcome, there, rfl⟩ := List.mem_map.mp member
        exact ⟨(kinds outcome).2.2, (kinds outcome).2.1.trans (fine outcome there)⟩
      · intro other
        have settled : effective validator finder tree cwd arguments = some settings := by
          unfold effective
          rw [asks.read]
          exact congrArg Except.toOption asked
        rw [settled] at other
        exact absurd (congrArg some policy) other

/-- A run that does not break down ends in one of three ways: it says what it was asked to say, it
goes through its files, or it reports an error. -/
theorem ends_of_exit {tree : Tree} {cwd : Location} {arguments : List String} {code : Nat}
    (resolved : ((run validator finder.disk cwd arguments).run tree).1.exit = .ok code) :
    let transcript := ((run validator finder.disk cwd arguments).run tree).1
    let after := ((run validator finder.disk cwd arguments).run tree).2
    Informs tree transcript after ∨ Completes validator finder tree cwd arguments transcript ∨
      Refuses validator finder tree cwd arguments transcript := by
  have runs := runs_run validator finder tree cwd arguments
  generalize ((run validator finder.disk cwd arguments).run tree).1 = transcript at resolved runs
  generalize ((run validator finder.disk cwd arguments).run tree).2 = after at runs
  cases runs with
  | misused => exact Or.inr (Or.inr (refuses_failing _))
  | helped => exact Or.inl ⟨rfl, Or.inl rfl, rfl, rfl⟩
  | versioned => exact Or.inl ⟨rfl, Or.inr rfl, rfl, rfl⟩
  | unsettled | untargeted =>
      rw [ended_of_exit resolved]
      exact Or.inr (Or.inr (refuses_failing _))
  | patched asks asked found => exact Or.inr (completes_or_refuses asks asked found _)

/-- A run that does not break down ends in exactly one of the three ways, which its code and its two
streams agree on. -/
theorem run_ends_in_one_way (validator : Validator) (finder : Finder) (tree : Tree)
    (cwd : Location) (arguments : List String) {code : Nat}
    (resolved : ((run validator finder.disk cwd arguments).run tree).1.exit = .ok code) :
    let transcript := ((run validator finder.disk cwd arguments).run tree).1
    let after := ((run validator finder.disk cwd arguments).run tree).2
    (Informs tree transcript after ∧ ¬ Completes validator finder tree cwd arguments transcript ∧
        ¬ Refuses validator finder tree cwd arguments transcript) ∨
      (Completes validator finder tree cwd arguments transcript ∧ ¬ Informs tree transcript after ∧
        ¬ Refuses validator finder tree cwd arguments transcript) ∨
      (Refuses validator finder tree cwd arguments transcript ∧ ¬ Informs tree transcript after ∧
        ¬ Completes validator finder tree cwd arguments transcript) := by
  rcases ends_of_exit resolved with informs | completes | refuses
  · exact Or.inl ⟨informs, informs.not_completes, informs.not_refuses⟩
  · refine Or.inr (Or.inl ⟨completes, ?_, ?_⟩)
    · exact fun informs => informs.not_completes completes
    · exact fun refuses => refuses.not_completes completes
  · refine Or.inr (Or.inr ⟨refuses, ?_, refuses.not_completes⟩)
    exact fun informs => informs.not_refuses refuses

/-- A directory with a file to be patched and one that is no text. -/
def damagedTree : Tree :=
  ⟨[(["w"], .directory), (["w", "a"], .file (Text.Utf8.encode "super(1);")),
    (["w", "b"], .file [0xFF])]⟩

/-- A file is patched before the run is ended by one that cannot be read. -/
theorem run_ends_in_one_way_damaged :
    let transcript := ((run .standard Glob.finder.disk ["w"] ["a", "b", "a"]).run damagedTree).1
    transcript.exit.toOption = some 1 ∧ transcript.out = ["FIXED: a"] ∧
      transcript.err.length = 1 ∧
      Refuses .standard Glob.finder damagedTree ["w"] ["a", "b", "a"] transcript := by
  intro transcript
  have exit : transcript.exit.toOption = some 1 := by decide +kernel
  have err : transcript.err.length = 1 := by decide +kernel
  have resolved : transcript.exit = .ok 1 := by
    cases ended : transcript.exit with
    | error failure =>
        rw [ended] at exit
        cases exit
    | ok code =>
        rw [ended] at exit
        cases exit
        rfl
  refine ⟨exit, by decide +kernel, err, ?_⟩
  rcases run_ends_in_one_way .standard Glob.finder damagedTree ["w"] ["a", "b", "a"] resolved with
    ⟨informs, _⟩ | ⟨completes, _⟩ | ⟨refuses, _⟩
  · rw [informs.err] at err
    cases err
  · rw [completes.1] at err
    cases err
  · exact refuses

end Command

end SuperCalls
