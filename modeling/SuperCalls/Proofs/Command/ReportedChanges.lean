/-
Module: SuperCalls.Proofs.Command.ReportedChanges
Purpose: The report of a run accounts for what the run changes on the disk.
Main exports: Command.planned, Command.Runs, Command.runs_run, Command.ReportsFixed,
  Command.FixedAt, Command.report_accounts_for_changes
-/
import SuperCalls.Proofs.Command.ReportLines
import SuperCalls.Proofs.Search.Patterns
import SuperCalls.Proofs.Workspace.ChangedFiles

namespace SuperCalls.Command

open Text.Utf8 (decode? encode mark)

variable {validator : Validator} {finder : Finder}

/-!
### What a run sets out to do
-/

/-- The work directory that settings name. -/
def workspace (config : Config) : Workspace :=
  ⟨config.workDir, config.enforceBoundary, []⟩

/-- The batch that settings ask for. -/
def batchOf (config : Config) : Batch :=
  ⟨superCallRules config.indent, config.dryRun, config.errorPolicy⟩

/-- The settings that a run works with and the paths that it comes to patch.  There are none if
the arguments are no use, only ask for help or the version, or if the settings or the files that
they are about cannot be found out. -/
def planned (validator : Validator) (finder : Finder) (tree : Tree) (cwd : Location)
    (arguments : List String) :
    Option (Config × List String) :=
  match Arguments.read arguments with
  | .error _ => none
  | .ok arguments =>
      if arguments.has .help || arguments.has .version then none
      else
        match ((config validator finder.disk cwd arguments).run tree).1 with
        | .error _ => none
        | .ok config =>
            match ((config.targets ((workspace config).sandbox finder.disk)).run tree).1 with
            | .error _ => none
            | .ok paths => some (config, paths)

/-- The settings and the paths come from a tree that is left as it is. -/
theorem config_run (tree : Tree) (cwd : Location) (arguments : Arguments) :
    (config validator finder.disk cwd arguments).run tree =
      (((config validator finder.disk cwd arguments).run tree).1, tree) :=
  Prod.ext rfl (steady_config finder.still_disk cwd arguments tree)

theorem targets_run (tree : Tree) (config : Config) :
    (config.targets ((workspace config).sandbox finder.disk)).run tree =
      (((config.targets ((workspace config).sandbox finder.disk)).run tree).1, tree) :=
  Prod.ext rfl (config.steady_targets finder.still_disk (workspace config) tree)

theorem run_state_bind {σ α β : Type} (first : StateM σ α) (next : α → StateM σ β) (s : σ) :
    (first >>= next).run s = (next (first.run s).1).run (first.run s).2 :=
  rfl

/-- A run with neither of the flags that end it at once. -/
theorem runWith_eq (tree : Tree) (cwd : Location) {arguments : Arguments}
    (helpless : arguments.has .help = false) (unversioned : arguments.has .version = false) :
    (runWith validator finder.disk cwd arguments).run tree =
      match ((config validator finder.disk cwd arguments).run tree).1 with
      | .error failure => (.ended [] failure, tree)
      | .ok config =>
          match (patchFiles finder.disk (arguments.has .verbose) config).run tree with
          | ((out, .error failure), after) => (.ended out failure, after)
          | ((out, .ok report), after) =>
              (⟨out, [], .ok (if 0 < report.failedCount then 1 else 0)⟩, after) := by
  unfold runWith
  simp only [helpless, unversioned, Bool.false_eq_true, if_false]
  have asked : StateT.run (config validator finder.disk cwd arguments).run tree = _ :=
    config_run tree cwd arguments
  rw [run_state_bind, asked]
  cases ((config validator finder.disk cwd arguments).run tree).1 with
  | error failure => rfl
  | ok config =>
      simp only
      rw [run_state_bind]
      rcases (patchFiles finder.disk (arguments.has .verbose) config).run tree with
        ⟨⟨out, failure | report⟩, after⟩ <;> rfl

/-- What is patched when the settings are known: the course of the batch, announced to the
reporter. -/
theorem patchFiles_eq (tree : Tree) (verbose : Bool) (config : Config) :
    (patchFiles finder.disk verbose config).run tree =
      match ((config.targets ((workspace config).sandbox finder.disk)).run tree).1 with
      | .error failure => (([], .error failure), tree)
      | .ok paths =>
          let course := (batchOf config).course ((workspace config).sandbox finder.disk) tree paths
          let concluded := (batchOf config).conclude (reportingBus verbose) [] course
          ((concluded.1.notes, concluded.2), course.state) := by
  unfold patchFiles
  have asked : StateT.run (config.targets ((workspace config).sandbox finder.disk)).run tree = _ :=
    targets_run tree config
  unfold workspace at asked ⊢
  simp only
  rw [run_state_bind, asked]
  cases ((config.targets (Workspace.sandbox ⟨config.workDir, config.enforceBoundary, []⟩
    finder.disk)).run tree).1 with
  | error failure => rfl
  | ok paths =>
      simp only
      rw [run_state_bind]
      have ran := (batchOf config).run_eq_of_calm (Workspace.sandbox
        ⟨config.workDir, config.enforceBoundary, []⟩ finder.disk) (reporting_calm verbose) paths tree
      unfold batchOf at ran ⊢
      rw [ran]
      rfl

/-!
### How a run goes
-/

/-- Arguments that can be read and ask for more than help or the version. -/
structure Asks (arguments : List String) (given : Arguments) : Prop where
  read : Arguments.read arguments = .ok given
  helpless : given.has .help = false
  unversioned : given.has .version = false

/-- What a run writes and exits with behind the course of its batch. -/
def transcriptOf {σ : Type} (batch : Batch) (verbose : Bool) (course : Course σ) : Transcript :=
  match batch.conclude (reportingBus verbose) [] course with
  | (bus, .error failure) => .ended bus.notes failure
  | (bus, .ok report) => ⟨bus.notes, [], .ok (if 0 < report.failedCount then 1 else 0)⟩

section

variable {tree : Tree} {cwd : Location} {arguments : List String} {given : Arguments}

theorem run_of_unsettled {failure : Failure} (asks : Asks arguments given)
    (asked : ((config validator finder.disk cwd given).run tree).1 = .error failure) :
    (run validator finder.disk cwd arguments).run tree = (.ended [] failure, tree) := by
  unfold run
  rw [asks.read]
  simp only
  rw [runWith_eq tree cwd asks.helpless asks.unversioned, asked]

variable {settings : Config} (asks : Asks arguments given)
  (asked : ((config validator finder.disk cwd given).run tree).1 = .ok settings)

include asks asked

theorem run_of_untargeted {failure : Failure}
    (found : ((settings.targets ((workspace settings).sandbox finder.disk)).run tree).1 =
      .error failure) :
    (run validator finder.disk cwd arguments).run tree = (.ended [] failure, tree) := by
  unfold run
  rw [asks.read]
  simp only
  rw [runWith_eq tree cwd asks.helpless asks.unversioned, asked]
  simp only [patchFiles_eq, found]

theorem run_of_targeted {paths : List String}
    (found : ((settings.targets ((workspace settings).sandbox finder.disk)).run tree).1 =
      .ok paths) :
    let course := (batchOf settings).course ((workspace settings).sandbox finder.disk) tree paths
    (run validator finder.disk cwd arguments).run tree =
      (transcriptOf (batchOf settings) (given.has .verbose) course, course.state) := by
  intro course
  unfold run
  rw [asks.read]
  simp only
  rw [runWith_eq tree cwd asks.helpless asks.unversioned, asked]
  simp only [patchFiles_eq, found]
  unfold transcriptOf
  rcases (batchOf settings).conclude (reportingBus (given.has .verbose)) [] course with
    ⟨bus, failure | report⟩ <;> rfl

end

/-- The transcript of a run and the tree that it leaves, by how far it comes. -/
inductive Runs (validator : Validator) (finder : Finder) (tree : Tree) (cwd : Location)
    (arguments : List String) :
    Transcript → Tree → Prop where
  | misused {error : UsageError} (read : Arguments.read arguments = .error error) :
      Runs validator finder tree cwd arguments (.failing [] error.message) tree
  | helped {given : Arguments} (read : Arguments.read arguments = .ok given)
      (help : given.has .help = true) : Runs validator finder tree cwd arguments (.saying helpText) tree
  | versioned {given : Arguments} (read : Arguments.read arguments = .ok given)
      (version : given.has .version = true) :
      Runs validator finder tree cwd arguments (.saying ("super-patch v" ++ Command.version)) tree
  /-- The settings cannot be found out. -/
  | unsettled {given : Arguments} {failure : Failure} (asks : Asks arguments given)
      (asked : ((config validator finder.disk cwd given).run tree).1 = .error failure) :
      Runs validator finder tree cwd arguments (.ended [] failure) tree
  /-- The files that the settings are about cannot be found out. -/
  | untargeted {given : Arguments} {settings : Config} {failure : Failure}
      (asks : Asks arguments given)
      (asked : ((config validator finder.disk cwd given).run tree).1 = .ok settings)
      (found : ((settings.targets ((workspace settings).sandbox finder.disk)).run tree).1 =
        .error failure) :
      Runs validator finder tree cwd arguments (.ended [] failure) tree
  | patched {given : Arguments} {settings : Config} {paths : List String}
      (asks : Asks arguments given)
      (asked : ((config validator finder.disk cwd given).run tree).1 = .ok settings)
      (found : ((settings.targets ((workspace settings).sandbox finder.disk)).run tree).1 =
        .ok paths) :
      Runs validator finder tree cwd arguments
        (transcriptOf (batchOf settings) (given.has .verbose)
          ((batchOf settings).course ((workspace settings).sandbox finder.disk) tree paths))
        ((batchOf settings).course ((workspace settings).sandbox finder.disk) tree paths).state

theorem runs_run (validator : Validator) (finder : Finder) (tree : Tree) (cwd : Location)
    (arguments : List String) :
    Runs validator finder tree cwd arguments ((run validator finder.disk cwd arguments).run tree).1
      ((run validator finder.disk cwd arguments).run tree).2 := by
  cases read : Arguments.read arguments with
  | error error =>
      unfold run
      rw [read]
      exact .misused read
  | ok given =>
      cases help : given.has .help with
      | true =>
          unfold run runWith
          simp only [read, help]
          exact .helped read help
      | false =>
          cases version : given.has .version with
          | true =>
              unfold run runWith
              simp only [read, help, version]
              exact .versioned read version
          | false =>
              have asks : Asks arguments given := ⟨read, help, version⟩
              cases asked : ((config validator finder.disk cwd given).run tree).1 with
              | error failure =>
                  rw [run_of_unsettled asks asked]
                  exact .unsettled asks asked
              | ok settings =>
                  cases found :
                      ((settings.targets ((workspace settings).sandbox finder.disk)).run tree).1 with
                  | error failure =>
                      rw [run_of_untargeted asks asked found]
                      exact .untargeted asks asked found
                  | ok paths =>
                      rw [run_of_targeted asks asked found]
                      exact .patched asks asked found

theorem planned_eq_some {tree : Tree} {cwd : Location} {arguments : List String}
    {given : Arguments} {settings : Config} {paths : List String} (asks : Asks arguments given)
    (asked : ((config validator finder.disk cwd given).run tree).1 = .ok settings)
    (found : ((settings.targets ((workspace settings).sandbox finder.disk)).run tree).1 =
      .ok paths) :
    planned validator finder tree cwd arguments = some (settings, paths) := by
  unfold planned
  simp [asks.read, asks.helpless, asks.unversioned, asked, found]

theorem exists_of_planned {tree : Tree} {cwd : Location} {arguments : List String}
    {settings : Config} {paths : List String}
    (plan : planned validator finder tree cwd arguments = some (settings, paths)) :
    ∃ given, Asks arguments given ∧
      ((config validator finder.disk cwd given).run tree).1 = .ok settings ∧
      ((settings.targets ((workspace settings).sandbox finder.disk)).run tree).1 = .ok paths := by
  unfold planned at plan
  split at plan
  · cases plan
  · next given read =>
      split at plan
      · cases plan
      · next flags =>
          rw [Bool.or_eq_true, not_or, Bool.not_eq_true, Bool.not_eq_true] at flags
          split at plan
          · cases plan
          · next config asked =>
              split at plan
              · cases plan
              · next found =>
                  cases plan
                  exact ⟨given, ⟨read, flags.1, flags.2⟩, asked, found⟩

theorem out_ended (out : List String) (failure : Failure) :
    (Transcript.ended out failure).out = out := by
  unfold Transcript.ended Transcript.failing
  split <;> rfl

/-- A run that comes to patch nothing leaves the tree as it is, and writes what it was asked to say. -/
theorem idle_of_not_planned {tree : Tree} {cwd : Location} {arguments : List String}
    (absent : planned validator finder tree cwd arguments = none) :
    let ran := (run validator finder.disk cwd arguments).run tree
    ran.2 = tree ∧ ran.1.out ∈ [[], [helpText], ["super-patch v" ++ version]] := by
  have runs := runs_run validator finder tree cwd arguments
  generalize (run validator finder.disk cwd arguments).run tree = ran at runs ⊢
  obtain ⟨transcript, after⟩ := ran
  simp only at runs ⊢
  cases runs with
  | misused => exact ⟨rfl, List.mem_cons_self⟩
  | helped => exact ⟨rfl, List.mem_cons_of_mem _ List.mem_cons_self⟩
  | versioned => exact ⟨rfl, List.mem_cons_of_mem _ (List.mem_cons_of_mem _ List.mem_cons_self)⟩
  | unsettled | untargeted =>
      rw [out_ended]
      exact ⟨rfl, List.mem_cons_self⟩
  | patched asks asked found =>
      rw [planned_eq_some asks asked found] at absent
      cases absent

theorem run_of_not_planned {tree : Tree} {cwd : Location} {arguments : List String}
    (absent : planned validator finder tree cwd arguments = none) :
    ((run validator finder.disk cwd arguments).run tree).2 = tree :=
  (idle_of_not_planned absent).1

theorem out_transcriptOf {σ : Type} (batch : Batch) (verbose : Bool) (course : Course σ) :
    (transcriptOf batch verbose course).out =
      (batch.conclude (reportingBus verbose) [] course).1.notes := by
  unfold transcriptOf
  rcases batch.conclude (reportingBus verbose) [] course with ⟨bus, failure | report⟩
  · exact out_ended _ failure
  · rfl

/-- A run that comes to patch files leaves the tree to the course of its batch, and writes the lines of
what is announced. -/
theorem run_of_planned {tree : Tree} {cwd : Location} {arguments : List String} {settings : Config}
    {paths : List String} (plan : planned validator finder tree cwd arguments = some (settings, paths)) :
    let course := (batchOf settings).course ((workspace settings).sandbox finder.disk) tree paths
    let ran := (run validator finder.disk cwd arguments).run tree
    ran.2 = course.state ∧ ∃ verbose,
      ran.1.out = ((batchOf settings).conclude (reportingBus verbose) [] course).1.notes := by
  obtain ⟨given, asks, asked, found⟩ := exists_of_planned plan
  intro course ran
  rw [show ran = _ from run_of_targeted asks asked found]
  exact ⟨rfl, given.has .verbose, out_transcriptOf _ _ course⟩

theorem isIndent_of_planned {tree : Tree} {cwd : Location} {arguments : List String}
    {settings : Config} {paths : List String}
    (plan : planned validator finder tree cwd arguments = some (settings, paths)) :
    isIndent settings.indent := by
  obtain ⟨given, _, asked, _⟩ := exists_of_planned plan
  have ran : (config validator finder.disk cwd given).run tree = (.ok settings, tree) := by
    rw [config_run, asked]
  exact isIndent_of_config ran

/-!
### What the lines say
-/

/-- The line of a path says that it was fixed, without the mark of a dry run. -/
def ReportsFixed (out paths : List String) (path : String) : Prop :=
  ∃ (k : Nat) (rest : String), paths[k]? = some path ∧ out[k]? = some ("FIXED: " ++ path ++ rest)

theorem lines_announcements (batch : Batch) (verbose : Bool) (outcomes : List Outcome) :
    (batch.announcements outcomes).flatMap (Reporter.lines ⟨verbose⟩) =
      outcomes.map (Reporter.line ⟨verbose⟩ batch.dryRun) := by
  unfold Batch.announcements
  induction outcomes with
  | nil => rfl
  | cons outcome outcomes ih =>
      rw [List.map_cons, List.flatMap_cons, ih, Reporter.lines_eq]
      rfl

/-- The lines of a batch: one for each outcome, and a summary if it was not ended. -/
theorem notes_conclude {σ : Type} (batch : Batch) (verbose : Bool) (course : Course σ) :
    ∃ summary,
      (batch.conclude (reportingBus verbose) [] course).1.notes =
        course.outcomes.map (Reporter.line ⟨verbose⟩ batch.dryRun) ++ summary ∧
      (course.stop ≠ none → summary = []) := by
  unfold Batch.conclude
  cases stop : course.stop with
  | some failure =>
      refine ⟨[], ?_, fun _ => rfl⟩
      simp only [notes_after, lines_announcements, List.append_nil]
  | none =>
      refine ⟨Reporter.lines ⟨verbose⟩ (Batch.doneEvent (batch.report ([] ++ course.outcomes))), ?_,
        fun ended => absurd rfl ended⟩
      simp only [notes_after, List.flatMap_append, lines_announcements, List.flatMap_singleton]

/-- A path is reported as fixed exactly if it was, and not in a dry run. -/
theorem reportsFixed_iff {σ : Type} (batch : Batch) (sandbox : Sandbox (StateM σ)) (verbose : Bool)
    (paths : List String) (path : String) (s : σ) :
    let course := batch.course sandbox s paths
    ReportsFixed (batch.conclude (reportingBus verbose) [] course).1.notes paths path ↔
      batch.dryRun = false ∧
        ∃ outcome ∈ course.outcomes, outcome.isFixed ∧ outcome.path = path := by
  intro course
  obtain ⟨summary, notes, ended⟩ := notes_conclude batch verbose course
  obtain ⟨⟨later, split⟩, all⟩ := batch.paths_course sandbox paths s
  rw [notes]
  constructor
  · rintro ⟨k, rest, there, line⟩
    rw [List.getElem?_append, List.length_map] at line
    split at line
    · next short =>
        rw [List.getElem?_map, List.getElem?_eq_getElem short] at line
        rw [← split, List.getElem?_append_left (by simpa using short), List.getElem?_map,
          List.getElem?_eq_getElem short] at there
        have own : course.outcomes[k].path = path := Option.some.inj there
        rw [← own] at line
        have fixed := (Reporter.line_fixed_iff ⟨verbose⟩ batch.dryRun _).mp
          ⟨rest, Option.some.inj line⟩
        exact ⟨fixed.2, _, List.getElem_mem short, fixed.1, own⟩
    · next long =>
        -- behind the outcomes there is no path, or the batch was ended and there is no line
        cases stop : course.stop with
        | some failure =>
            rw [ended (by rw [stop]; nofun)] at line
            cases line
        | none =>
            rw [← all stop, List.getElem?_map, List.getElem?_eq_none (Nat.le_of_not_lt long)] at there
            cases there
  · rintro ⟨wet, outcome, member, fixed, rfl⟩
    obtain ⟨k, short, rfl⟩ := List.getElem_of_mem member
    obtain ⟨rest, line⟩ := (Reporter.line_fixed_iff ⟨verbose⟩ batch.dryRun _).mpr ⟨fixed, wet⟩
    refine ⟨k, rest, ?_, ?_⟩
    · rw [← split, List.getElem?_append_left (by simpa using short), List.getElem?_map,
        List.getElem?_eq_getElem short]
      rfl
    · rw [List.getElem?_append_left (by simpa using short), List.getElem?_map,
        List.getElem?_eq_getElem short]
      exact congrArg some line

/-!
### The account
-/

/-- A path that the report says was fixed leads to the file at a location. -/
def FixedAt (validator : Validator) (finder : Finder) (tree : Tree) (cwd : Location)
    (arguments : List String) (location : Location) : Prop :=
  ∃ settings paths path, planned validator finder tree cwd arguments = some (settings, paths) ∧
    ReportsFixed ((run validator finder.disk cwd arguments).run tree).1.out paths path ∧
    tree.Reaches ((workspace settings).resolve path) location

theorem accounts_run {tree : Tree} {cwd : Location} {arguments : List String} {settings : Config}
    {paths : List String} (plan : planned validator finder tree cwd arguments = some (settings, paths)) :
    Accounts (superCallRules settings.indent) tree ((run validator finder.disk cwd arguments).run tree).2
      (FixedAt validator finder tree cwd arguments) := by
  obtain ⟨left, verbose, out⟩ := run_of_planned plan
  have free := not_hasCall_of_isIndent (isIndent_of_planned plan)
  have lasting : Lasting (batchOf settings).rules := lasting_superCallRules free
  have accounts :=
    Workspace.accounts_course finder (workspace settings) lasting paths (Accounts.refl _ tree)
  rw [left]
  apply accounts.congr
  intro location
  have reports (path : String) := reportsFixed_iff (batchOf settings)
    ((workspace settings).sandbox finder.disk) verbose paths path tree
  constructor
  · rintro (impossible | ⟨wet, outcome, member, fixed, reaches⟩)
    · exact impossible.elim
    · refine ⟨settings, paths, outcome.path, plan, ?_, reaches⟩
      rw [out]
      exact (reports outcome.path).mpr ⟨wet, outcome, member, fixed, rfl⟩
  · rintro ⟨_, _, path, same, reported, reaches⟩
    rw [plan] at same
    cases same
    rw [out] at reported
    obtain ⟨wet, outcome, member, fixed, rfl⟩ := (reports path).mp reported
    exact Or.inr ⟨wet, outcome, member, fixed, reaches⟩

/-- The report of a run accounts for what changed on the disk.  The bytes of a file change exactly if
the line of a path that leads to it says that it was fixed; they are then the patched text, with
the byte-order mark in front if there was one.  Nothing else changes: nothing at all if there is
nothing to be patched, or in a dry run, and no file that is no text. -/
theorem report_accounts_for_changes (validator : Validator) (finder : Finder) (tree : Tree)
    (cwd : Location) (arguments : List String) :
    let after := ((run validator finder.disk cwd arguments).run tree).2
    (∀ location, (∀ bytes, tree.entry? location ≠ some (.file bytes)) →
      after.entry? location = tree.entry? location) ∧
    (∀ location bytes, tree.entry? location = some (.file bytes) →
      ∃ left, after.entry? location = some (.file left) ∧
        (left ≠ bytes ↔ FixedAt validator finder tree cwd arguments location) ∧
        (left ≠ bytes → ∃ settings paths content,
          planned validator finder tree cwd arguments = some (settings, paths) ∧
          decode? bytes = some content ∧
          left = encode (applyRules (superCallRules settings.indent) content).content ∧
          (mark <+: bytes → mark <+: left)) ∧
        (decode? bytes = none → left = bytes)) ∧
    (planned validator finder tree cwd arguments = none → after = tree) ∧
    ∀ settings paths, planned validator finder tree cwd arguments = some (settings, paths) →
      settings.dryRun = true → after = tree := by
  intro after
  cases plan : planned validator finder tree cwd arguments with
  | none =>
      have same : after = tree := run_of_not_planned plan
      rw [same]
      refine ⟨fun _ _ => rfl, ?_, fun _ => rfl, nofun⟩
      intro location bytes found
      have never : ¬ FixedAt validator finder tree cwd arguments location := by
        rintro ⟨_, _, _, planned, _⟩
        rw [plan] at planned
        cases planned
      exact ⟨bytes, found, iff_of_false (absurd rfl) never, absurd rfl, fun _ => rfl⟩
  | some chosen =>
      obtain ⟨settings, paths⟩ := chosen
      have accounts := accounts_run plan
      have free := not_hasCall_of_isIndent (isIndent_of_planned plan)
      refine ⟨?_, ?_, nofun, ?_⟩
      · intro location other
        rcases accounts.shape location with same | ⟨bytes, _, found, _⟩
        · exact same.symm
        · exact absurd found (other bytes)
      · intro location bytes found
        obtain ⟨left, now, changed, patched⟩ := accounts.file found
        refine ⟨left, now, changed, ?_, ?_⟩
        · intro differs
          obtain ⟨content, read, encoded⟩ := patched differs
          refine ⟨settings, paths, content, rfl, read, encoded, ?_⟩
          intro marked
          rw [encoded]
          apply Text.Utf8.mark_prefix_encode
          rw [head?_applyRules free]
          exact Text.Utf8.head?_of_mark marked read
        · intro unreadable
          by_contra differs
          obtain ⟨content, read, _⟩ := patched differs
          rw [unreadable] at read
          cases read
      · intro _ _ same dry
        cases same
        rw [show after = _ from (run_of_planned plan).1]
        exact Workspace.state_of_dryRun finder (workspace settings) dry paths tree

/-- A directory with a file and a link to it. -/
def linkedTree : Tree :=
  ⟨[(["w"], .directory), (["w", "a"], .file (encode "super(1);")), (["w", "b"], .link "a")]⟩

/-- A file is patched through a link, and then met again under its own path. -/
theorem report_accounts_for_changes_link :
    ((run .standard Glob.finder.disk ["w"] ["b", "./a"]).run linkedTree).1.out =
        ["FIXED: b", "NO CHANGE: ./a", "", "Total files fixed: 1"] ∧
      Tree.entry? ((run .standard Glob.finder.disk ["w"] ["b", "./a"]).run linkedTree).2 ["w", "a"] =
        some (.file (encode "super();\n        setWeight(1);")) ∧
      FixedAt .standard Glob.finder linkedTree ["w"] ["b", "./a"] ["w", "a"] := by
  have out : ((run .standard Glob.finder.disk ["w"] ["b", "./a"]).run linkedTree).1.out =
      ["FIXED: b", "NO CHANGE: ./a", "", "Total files fixed: 1"] := by
    decide +kernel
  have now :
      Tree.entry? ((run .standard Glob.finder.disk ["w"] ["b", "./a"]).run linkedTree).2 ["w", "a"] =
      some (.file (encode "super();\n        setWeight(1);")) := by
    decide +kernel
  have found : linkedTree.entry? ["w", "a"] = some (.file (encode "super(1);")) := by decide +kernel
  obtain ⟨left, here, changed, _⟩ :=
    (report_accounts_for_changes .standard Glob.finder linkedTree ["w"] ["b", "./a"]).2.1
      ["w", "a"] _ found
  rw [now] at here
  refine ⟨out, now, changed.mp ?_⟩
  rw [← Entry.file.inj (Option.some.inj here)]
  decide +kernel

end SuperCalls.Command
