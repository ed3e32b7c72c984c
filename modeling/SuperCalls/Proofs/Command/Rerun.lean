/-
Module: SuperCalls.Proofs.Command.Rerun
Purpose: Running the command again.  If the first run leaves the file alone that it read its
  settings from, the second one comes to the same settings and the same paths, and finds nothing to
  fix.
Main exports: Command.ReadsConfigAt, Command.planned_again, Command.TellsFixed,
  Command.rerun_changes_nothing
-/
import SuperCalls.Proofs.Command.ReportedChanges
import SuperCalls.Proofs.Workspace.Repetition

namespace SuperCalls.Command

variable {validator : Validator} {finder : Finder}

/-!
### The same plan
-/

/-- A run looks for its settings in the file at a location. -/
def ReadsConfigAt (tree : Tree) (cwd : Location) (arguments : List String) (location : Location) :
    Prop :=
  ∃ given, Arguments.read arguments = .ok given ∧
    tree.Reaches (configPath cwd given.config) location

section

variable {t u : Tree} {cwd : Location}

theorem targets_again (same : t.outline = u.outline) (config : Config) :
    ((config.targets ((workspace config).sandbox finder.disk)).run u).1 =
      ((config.targets ((workspace config).sandbox finder.disk)).run t).1 :=
  (Sees.composable.targets (finder.sees_search fun like => like) config (workspace config)).same same

theorem config_again (validator : Validator) (finder : Finder) (same : t.outline = u.outline)
    {given : Arguments}
    (read : u.read (configPath cwd given.config) = t.read (configPath cwd given.config)) :
    ((config validator finder.disk cwd given).run u).1 =
      ((config validator finder.disk cwd given).run t).1 := by
  let alike (t u : Tree) : Prop := t.outline = u.outline ∧
    u.read (configPath cwd given.config) = t.read (configPath cwd given.config)
  have file : Sees alike (liftM (finder.disk.read (configPath cwd given.config))) :=
    .lift (finder.still_disk.read _) fun like => like.2
  exact (Sees.composable.config (finder.sees_stat fun like => like.1) file).same ⟨same, read⟩

/-- Trees of the same outline and the same settings are about the same files. -/
theorem planned_again (same : t.outline = u.outline) {arguments : List String}
    (kept : ∀ location, ReadsConfigAt t cwd arguments location →
      u.entry? location = t.entry? location) :
    planned validator finder u cwd arguments = planned validator finder t cwd arguments := by
  unfold planned
  cases read : Arguments.read arguments with
  | error error => rfl
  | ok given =>
      have settings := config_again validator finder same (Tree.read_congr same fun location reaches =>
        kept location ⟨given, read, reaches⟩)
      simp only [settings, targets_again same]

end

/-!
### What a run exits with
-/

/-- The code that a run exits with behind a course. -/
def exitOf {σ : Type} (course : Course σ) : Except Failure Nat :=
  match course.stop with
  | some failure => (Transcript.ended [] failure).exit
  | none => .ok (if 0 < course.outcomes.countP Outcome.isFailed then 1 else 0)

theorem exit_ended (out : List String) (failure : Failure) :
    (Transcript.ended out failure).exit = (Transcript.ended [] failure).exit := by
  unfold Transcript.ended
  split <;> rfl

theorem exit_of_planned {tree : Tree} {cwd : Location} {arguments : List String} {settings : Config}
    {paths : List String}
    (plan : planned validator finder tree cwd arguments = some (settings, paths)) :
    ((run validator finder.disk cwd arguments).run tree).1.exit =
      exitOf ((batchOf settings).course ((workspace settings).sandbox finder.disk) tree paths) := by
  obtain ⟨given, asks, asked, found⟩ := exists_of_planned plan
  rw [run_of_targeted asks asked found]
  simp only
  unfold transcriptOf exitOf Batch.conclude
  cases ((batchOf settings).course ((workspace settings).sandbox finder.disk) tree paths).stop with
  | some failure => exact exit_ended _ failure
  | none =>
      simp only [Batch.failedCount_report]
      rfl

/-!
### Lines that say so
-/

/-- A line says that a file was fixed, or would be. -/
def TellsFixed (line : String) : Prop :=
  ∃ dryRun rest, line = Reporter.dryRunMark dryRun ++ ("FIXED: " ++ rest)

theorem TellsFixed.take_two {line : String} (tells : TellsFixed line) :
    line.toList.take 2 = ['F', 'I'] ∨ line.toList.take 2 = ['[', 'd'] := by
  obtain ⟨dryRun, rest, rfl⟩ := tells
  cases dryRun with
  | false =>
      refine Or.inl ?_
      simp [Reporter.dryRunMark]
  | true =>
      refine Or.inr ?_
      simp [Reporter.dryRunMark]

/-- The line of an outcome that is no fix does not say so. -/
theorem not_tellsFixed_line {verbose : Bool} {outcome : Outcome}
    (unfixed : outcome.isFixed = false) :
    ¬ TellsFixed (Reporter.line ⟨verbose⟩ false outcome) := by
  intro tells
  have letters := tells.take_two
  obtain ⟨path, status, counts⟩ := outcome
  cases status with
  | fixed => cases unfixed
  | skipped =>
      rw [Reporter.line_skipped] at letters
      simp at letters
  | unchanged =>
      rw [Reporter.line_unchanged] at letters
      simp [Reporter.dryRunMark] at letters
  | failed message =>
      rw [Reporter.line_failed] at letters
      simp at letters

theorem not_tellsFixed_summary (verbose : Bool) (report : Report) :
    ∀ line ∈ Reporter.lines ⟨verbose⟩ (Batch.doneEvent report), ¬ TellsFixed line := by
  intro line written tells
  have letters := tells.take_two
  have summary : line ∈ ["", "Total files fixed: " ++ toString report.fixedCount ++
      if report.dryRun then " (dry run)" else ""] := written
  rcases List.mem_cons.mp summary with rfl | last
  · simp at letters
  · rw [List.mem_singleton.mp last, String.append_assoc] at letters
    simp at letters

/-- Where no outcome is a fix, and it is no dry run, no line says so. -/
theorem not_tellsFixed_of_conclude {σ : Type} {batch : Batch} (wet : batch.dryRun = false)
    (verbose : Bool) {course : Course σ}
    (unfixed : ∀ outcome ∈ course.outcomes, outcome.isFixed = false) :
    ∀ line ∈ (batch.conclude (reportingBus verbose) [] course).1.notes, ¬ TellsFixed line := by
  have outcomes : ∀ line ∈ course.outcomes.map (Reporter.line ⟨verbose⟩ batch.dryRun),
      ¬ TellsFixed line := by
    intro line written
    obtain ⟨outcome, member, rfl⟩ := List.mem_map.mp written
    rw [wet]
    exact not_tellsFixed_line (unfixed outcome member)
  unfold Batch.conclude
  cases course.stop with
  | some failure =>
      simp only [notes_after, lines_announcements]
      exact outcomes
  | none =>
      simp only [notes_after, List.flatMap_append, lines_announcements, List.flatMap_singleton]
      exact List.forall_mem_append.mpr ⟨outcomes, not_tellsFixed_summary verbose _⟩

theorem toList_helpText : ∃ rest, helpText.toList = '\n' :: rest := by
  have first : "\n".toList = ['\n'] := rfl
  unfold helpText
  rw [String.toList_append, first, List.cons_append]
  exact ⟨_, Eq.refl _⟩

/-- A run that comes to patch nothing writes no such line. -/
theorem not_tellsFixed_of_not_planned {tree : Tree} {cwd : Location} {arguments : List String}
    (absent : planned validator finder tree cwd arguments = none) :
    ∀ line ∈ ((run validator finder.disk cwd arguments).run tree).1.out, ¬ TellsFixed line := by
  intro line written tells
  have letters := tells.take_two
  obtain ⟨_, out⟩ := idle_of_not_planned absent
  generalize ((run validator finder.disk cwd arguments).run tree).1.out = lines at written out
  simp only [List.mem_cons, List.not_mem_nil, or_false] at out
  rcases out with rfl | rfl | rfl
  · cases written
  · obtain ⟨rest, text⟩ := toList_helpText
    rw [List.mem_singleton.mp written, text] at letters
    simp at letters
  · rw [List.mem_singleton.mp written] at letters
    simp at letters

/-- The command is run twice with the same arguments, and the first run leaves the file alone that
it read its settings from.  Then the second run changes nothing on the disk, exits as the first one
did, and no line of it says that a file was fixed, unless it is a dry run. -/
theorem rerun_changes_nothing (validator : Validator) (finder : Finder) {tree : Tree}
    (distinct : tree.Distinct) (cwd : Location) (arguments : List String)
    (kept : ∀ location, ReadsConfigAt tree cwd arguments location →
      Tree.entry? ((run validator finder.disk cwd arguments).run tree).2 location =
        tree.entry? location) :
    let first := (run validator finder.disk cwd arguments).run tree
    let second := (run validator finder.disk cwd arguments).run first.2
    second.2 = first.2 ∧ second.1.exit = first.1.exit ∧
      ∀ line ∈ second.1.out, TellsFixed line →
        ∃ settings paths, planned validator finder first.2 cwd arguments = some (settings, paths) ∧
          settings.dryRun = true := by
  intro first second
  cases plan : planned validator finder tree cwd arguments with
  | none =>
      have left : first.2 = tree := run_of_not_planned plan
      have same : second = first := congrArg _ left
      rw [same]
      exact ⟨rfl, rfl, fun line written tells =>
        absurd tells (not_tellsFixed_of_not_planned plan line written)⟩
  | some chosen =>
      obtain ⟨settings, paths⟩ := chosen
      have left : first.2 = _ := (run_of_planned plan).1
      have outline : tree.outline = first.2.outline := by
        rw [left]
        exact (Workspace.outline_course finder _ (batchOf settings) paths distinct).symm
      have again := (planned_again outline kept).trans plan
      cases dry : settings.dryRun with
      | true =>
          have still : first.2 = tree :=
            left.trans (Workspace.state_of_dryRun finder (workspace settings) dry paths tree)
          have same : second = first := congrArg _ still
          rw [same]
          exact ⟨rfl, rfl, fun _ _ _ => ⟨settings, paths, again, dry⟩⟩
      | false =>
          have free := not_hasCall_of_isIndent (isIndent_of_planned plan)
          have lasting : Lasting (batchOf settings).rules := lasting_superCallRules free
          obtain ⟨state, stop, unfixed, failed⟩ :=
            Workspace.course_again finder (workspace settings) lasting dry paths distinct
          obtain ⟨left', verbose, out⟩ := run_of_planned again
          refine ⟨?_, ?_, ?_⟩
          · rw [show second.2 = _ from left', left]
            exact state
          · rw [show second.1.exit = _ from exit_of_planned again,
              show first.1.exit = _ from exit_of_planned plan, left]
            unfold exitOf
            rw [stop, failed]
          · intro line written tells
            rw [show second.1.out = _ from out, left] at written
            exact absurd tells (not_tellsFixed_of_conclude dry verbose unfixed line written)

/-- A directory with settings, a file, and a link to it. -/
def settledTree : Tree :=
  ⟨[(["w"], .directory), (["w", "a"], .file (Text.Utf8.encode "super(1);")),
    (["w", "b"], .link "a"),
    (["w", "super-patch.config.json"],
      .file (Text.Utf8.encode "\x7b\"files\":[\"b\",\"./a\",\"x\"]\x7d"))]⟩

/-- The settings name a file by a link and by its own path, and one that is not there. -/
theorem rerun_changes_nothing_link :
    let first := (run .standard Glob.finder.disk ["w"] []).run settledTree
    let second := (run .standard Glob.finder.disk ["w"] []).run first.2
    first.1.out =
        ["FIXED: b", "NO CHANGE: ./a", "SKIP: x not found", "", "Total files fixed: 1"] ∧
      first.1.exit.toOption = some 0 ∧ settledTree.Distinct ∧
      ReadsConfigAt settledTree ["w"] [] ["w", "super-patch.config.json"] ∧
      second.2 = first.2 ∧ second.1.exit = first.1.exit := by
  have wrote : ((run .standard Glob.finder.disk ["w"] []).run settledTree).1.out =
      ["FIXED: b", "NO CHANGE: ./a", "SKIP: x not found", "", "Total files fixed: 1"] := by
    decide +kernel
  have exit :
      ((run .standard Glob.finder.disk ["w"] []).run settledTree).1.exit.toOption = some 0 := by
    decide +kernel
  have distinct : settledTree.Distinct := by
    unfold Tree.Distinct
    decide
  have reaches : settledTree.Reaches (configPath ["w"] none) ["w", "super-patch.config.json"] :=
    ⟨Text.Utf8.encode "\x7b\"files\":[\"b\",\"./a\",\"x\"]\x7d", by decide +kernel⟩
  have there : Tree.entry? ((run .standard Glob.finder.disk ["w"] []).run settledTree).2
      ["w", "super-patch.config.json"] = settledTree.entry? ["w", "super-patch.config.json"] := by
    decide +kernel
  have read : Arguments.read [] = .ok ⟨none, [], none, none, [], []⟩ := rfl
  have kept : ∀ location, ReadsConfigAt settledTree ["w"] [] location →
      Tree.entry? ((run .standard Glob.finder.disk ["w"] []).run settledTree).2 location =
        settledTree.entry? location := by
    rintro location ⟨given, asked, also⟩
    rw [read] at asked
    cases asked
    obtain rfl := reaches.unique also
    exact there
  have again := rerun_changes_nothing .standard Glob.finder distinct ["w"] [] kept
  exact ⟨wrote, exit, distinct, ⟨_, read, reaches⟩, again.1, again.2.1⟩

end SuperCalls.Command
