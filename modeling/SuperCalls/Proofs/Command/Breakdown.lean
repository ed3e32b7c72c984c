/-
Module: SuperCalls.Proofs.Command.Breakdown
Purpose: When a run of the command breaks down.  Two things are not reported but leave the run as an
  error: an indent too wide to be made, and a pattern that cannot be searched for.
Main exports: Config.FirstFailing, Config.targets_eq_foreign_iff,
  Command.config_eq_foreign_iff, Command.Breaks, Command.Resolves, Command.run_breaks_iff
-/
import Mathlib.Control.Monad.Basic
import SuperCalls.Proofs.Command.ExitCodes

namespace SuperCalls

variable {σ α β : Type} {validator : Validator} {finder : Finder}

/-!
### The pattern that fails
-/

theorem Steady.fst_bind {first : ExceptT Failure (StateM σ) α}
    {next : α → ExceptT Failure (StateM σ) β} (steady : Steady first) (s : σ) :
    ((first >>= next).run s).1 = (first.run s).1 >>= fun value => ((next value).run s).1 := by
  have kept := steady s
  rw [run_bind]
  rcases ended : first.run s with ⟨failure | value, t⟩
  · rfl
  · rw [ended] at kept
    cases kept
    rfl

namespace Config

/-- The first of several patterns for which nothing can be found out. -/
inductive FirstFailing (find : String → Except Failure (List String)) (failure : Failure) :
    List String → Prop where
  | here {pattern : String} {later : List String} (failed : find pattern = .error failure) :
      FirstFailing find failure (pattern :: later)
  | there {pattern : String} {later found : List String} (fine : find pattern = .ok found)
      (failing : FirstFailing find failure later) : FirstFailing find failure (pattern :: later)

/-- What patterns find cannot be put together exactly if one of them fails. -/
theorem addFound_eq_error_iff {find : String → ExceptT Failure (StateM σ) (List String)}
    (steady : ∀ pattern, Steady (find pattern)) (s : σ) {failure : Failure}
    (patterns listed : List String) :
    ((addFound find listed patterns).run s).1 = .error failure ↔
      FirstFailing (fun pattern => ((find pattern).run s).1) failure patterns := by
  induction patterns generalizing listed with
  | nil => exact ⟨nofun, nofun⟩
  | cons pattern patterns ih =>
      rw [addFound, (steady pattern).fst_bind, bind_eq_error_iff]
      constructor
      · rintro (failed | ⟨found, fine, later⟩)
        · exact .here failed
        · exact .there fine ((ih _).mp later)
      · intro failing
        cases failing with
        | here failed => exact Or.inl failed
        | there fine later => exact Or.inr ⟨_, fine, (ih _).mpr later⟩

theorem exists_firstFailing {find : String → Except Failure (List String)} {failure : Failure}
    {pattern : String} (failed : find pattern = .error failure) {patterns : List String}
    (member : pattern ∈ patterns) : ∃ failure, FirstFailing find failure patterns := by
  induction patterns with
  | nil => exact (List.not_mem_nil member).elim
  | cons first patterns ih =>
      cases found : find first with
      | error own => exact ⟨own, .here found⟩
      | ok paths =>
          rcases List.mem_cons.mp member with rfl | later
          · rw [failed] at found
            cases found
          · obtain ⟨failure, failing⟩ := ih later
            exact ⟨failure, .there found failing⟩

theorem FirstFailing.kind {kind : Failure → Prop} {find : String → Except Failure (List String)}
    {failure : Failure} {patterns : List String}
    (failing : FirstFailing find failure patterns)
    (fails : ∀ pattern, FailsWith kind (find pattern)) : kind failure := by
  induction failing with
  | here failed => exact fails _ _ failed
  | there _ _ ih => exact ih

/-- The files that settings are about cannot be found out for a reason of unknown cause exactly if a
pattern cannot be searched for. -/
theorem targets_eq_foreign_iff (w : Workspace) (config : Config) (t : Tree) {failure : Failure} :
    let sandbox := w.sandbox finder.disk
    ((config.targets sandbox).run t).1 = .error failure ∧ failure.IsForeign ↔
      FirstFailing (fun pattern => ((sandbox.find pattern config.ignore).run t).1) failure
        config.globs := by
  intro sandbox
  have steady (pattern : String) : Steady (sandbox.find pattern config.ignore) :=
    w.steady_find finder.still_disk pattern _
  have raises (pattern : String) : Raises Failure.IsForeign (sandbox.find pattern config.ignore) :=
    Raises.composable.find finder.foreign w pattern _
  have gathers : Steady (addFound (sandbox.find · config.ignore) config.files config.globs) :=
    Steady.composable.addFound steady _ _
  unfold targets
  rw [gathers.fst_bind, bind_eq_error_iff, addFound_eq_error_iff steady]
  constructor
  · rintro ⟨failing | ⟨listed, _, empty⟩, foreign⟩
    · exact failing
    · split at empty
      · cases empty
        cases foreign
      · cases empty
  · exact fun failing => ⟨Or.inl failing, failing.kind fun pattern => raises pattern t⟩

end Config

namespace Command

/-!
### The indent that is too wide
-/

/-- A text gives a width that no indent can have. -/
def TooWide (text : String) : Prop :=
  ∃ width, (Text.Numeral.ofText? text).bind Text.Numeral.whole? = some width ∧ widthLimit < width

/-- The failure of a text that is too long. -/
def lengthFailure : Failure :=
  .plain .rangeError "Invalid string length"

theorem indentOf_eq_foreign_iff {text : String} {failure : Failure} :
    indentOf text = .error failure ∧ failure.IsForeign ↔
      TooWide text ∧ failure = lengthFailure := by
  unfold indentOf TooWide
  cases (Text.Numeral.ofText? text).bind Text.Numeral.whole? with
  | none =>
      constructor
      · rintro ⟨⟨⟩, ⟨⟩⟩
      · rintro ⟨⟨_, ⟨⟩, _⟩, _⟩
  | some width =>
      simp only
      split
      · next wide =>
          constructor
          · rintro ⟨⟨⟩, _⟩
            exact ⟨⟨width, rfl, wide⟩, rfl⟩
          · rintro ⟨_, rfl⟩
            exact ⟨rfl, rfl⟩
      · next narrow =>
          constructor
          · rintro ⟨⟨⟩, _⟩
          · rintro ⟨⟨_, ⟨⟩, wide⟩, _⟩
            exact absurd wide narrow

theorem fst_config {disk : Disk (StateM σ)} (still : disk.Still) (cwd : Location)
    (given : Arguments) (s : σ) :
    ((config validator disk cwd given).run s).1 =
      ((baseConfig validator disk cwd given.config).run s).1 >>= override cwd given := by
  have steady : Steady (baseConfig validator disk cwd given.config) :=
    Steady.composable.baseConfig (fun _ _ => trivial) (fun _ => .lift (still.stat _))
      (.lift (still.read _))
  unfold config
  rw [steady.fst_bind]
  congr 1
  funext base
  cases override cwd given base <;> rfl

/-- The settings cannot be found out for a reason of unknown cause exactly if the indent that is
asked for is too wide. -/
theorem config_eq_foreign_iff {disk : Disk (StateM σ)} (still : disk.Still) (cwd : Location)
    (given : Arguments) (s : σ) {failure : Failure} :
    ((config validator disk cwd given).run s).1 = .error failure ∧ failure.IsForeign ↔
      (∃ base, ((baseConfig validator disk cwd given.config).run s).1 = .ok base) ∧
        (∃ text, given.indent = some text ∧ TooWide text) ∧ failure = lengthFailure := by
  rw [fst_config still, bind_eq_error_iff]
  simp only [override_eq_error_iff]
  constructor
  · rintro ⟨failed | ⟨base, based, text, asked, failed⟩, foreign⟩
    · have known : failure.isCoded := raises_baseConfig validator disk cwd given.config s failure failed
      exact absurd known (Bool.eq_false_iff.mp foreign)
    · obtain ⟨wide, same⟩ := indentOf_eq_foreign_iff.mp ⟨failed, foreign⟩
      exact ⟨⟨base, based⟩, ⟨text, asked, wide⟩, same⟩
  · rintro ⟨⟨base, based⟩, ⟨text, asked, wide⟩, same⟩
    obtain ⟨failed, foreign⟩ := indentOf_eq_foreign_iff.mpr ⟨wide, same⟩
    exact ⟨Or.inr ⟨base, based, text, asked, failed⟩, foreign⟩

/-!
### Runs that break down
-/

/-- What leaves a run as an error. -/
inductive Breaks (validator : Validator) (finder : Finder) (tree : Tree) (cwd : Location)
    (arguments : List String) : Failure → Prop where
  /-- The settings are there, but the arguments ask for an indent that is too wide. -/
  | tooWide {given : Arguments} {base : Config} {text : String} (asks : Asks arguments given)
      (based : ((baseConfig validator finder.disk cwd given.config).run tree).1 = .ok base)
      (asked : given.indent = some text) (wide : TooWide text) :
      Breaks validator finder tree cwd arguments lengthFailure
  /-- A pattern cannot be searched for, be it empty, no pattern at all, or one that leads into
  something that cannot be listed. -/
  | unsearchable {given : Arguments} {settings : Config} {failure : Failure}
      (asks : Asks arguments given)
      (asked : ((config validator finder.disk cwd given).run tree).1 = .ok settings)
      (failing : Config.FirstFailing (fun pattern =>
        ((((workspace settings).sandbox finder.disk).find pattern settings.ignore).run tree).1)
        failure settings.globs) :
      Breaks validator finder tree cwd arguments failure

/-- A run succeeds, or it exits with 1 and says why: in an error, or in a line about a file that
failed. -/
def Resolves (transcript : Transcript) : Prop :=
  transcript.exit = .ok 0 ∨ transcript.exit = .ok 1 ∧
    ((∃ message, transcript.err = ["error: " ++ message]) ∨
      ∃ line ∈ transcript.out, Reporter.isFailedLine line)

section

variable {tree : Tree} {cwd : Location} {arguments : List String}

theorem ended_of_isForeign (out : List String) {failure : Failure} (foreign : failure.IsForeign) :
    Transcript.ended out failure = ⟨out, [], .error failure⟩ :=
  if_neg (Bool.eq_false_iff.mp foreign)

theorem isForeign_of_exit {out : List String} {failure other : Failure}
    (exit : (Transcript.ended out failure).exit = .error other) :
    failure.IsForeign ∧ other = failure := by
  unfold Transcript.ended at exit
  split at exit
  · cases exit
  · next unknown =>
      cases exit
      exact ⟨Bool.eq_false_iff.mpr unknown, rfl⟩

theorem not_resolves_of_exit {transcript : Transcript} {failure : Failure}
    (exit : transcript.exit = .error failure) : ¬ Resolves transcript := by
  rintro (fine | ⟨refused, _⟩)
  · rw [exit] at fine
    cases fine
  · rw [exit] at refused
    cases refused

theorem resolves_of_exit {code : Nat}
    (exit : ((run validator finder.disk cwd arguments).run tree).1.exit = .ok code) :
    Resolves ((run validator finder.disk cwd arguments).run tree).1 := by
  rcases ends_of_exit exit with informs | ⟨_, _, _, lines, _, _, out, exit⟩ | refuses
  · exact Or.inl informs.exit
  · unfold Resolves
    rw [exit, out]
    cases failed : lines.any Reporter.isFailedLine with
    | false => exact Or.inl rfl
    | true =>
        obtain ⟨line, member, tells⟩ := List.any_eq_true.mp failed
        exact Or.inr ⟨rfl, Or.inr ⟨line, List.mem_append_left _ member, tells⟩⟩
  · exact Or.inr ⟨refuses.exit, Or.inl refuses.err⟩

/-- An error that leaves a run is one that breaks it down. -/
theorem breaks_of_exit {failure : Failure}
    (exit : ((run validator finder.disk cwd arguments).run tree).1.exit = .error failure) :
    Breaks validator finder tree cwd arguments failure := by
  have runs := runs_run validator finder tree cwd arguments
  generalize ((run validator finder.disk cwd arguments).run tree).1 = transcript at exit runs
  generalize ((run validator finder.disk cwd arguments).run tree).2 = after at runs
  cases runs with
  | misused => cases exit
  | helped => cases exit
  | versioned => cases exit
  | unsettled asks asked =>
      obtain ⟨foreign, rfl⟩ := isForeign_of_exit exit
      obtain ⟨⟨base, based⟩, ⟨text, wanted, wide⟩, rfl⟩ :=
        (config_eq_foreign_iff finder.still_disk cwd _ tree).mp ⟨asked, foreign⟩
      exact .tooWide asks based wanted wide
  | untargeted asks asked found =>
      obtain ⟨foreign, rfl⟩ := isForeign_of_exit exit
      exact .unsearchable asks asked
        ((Config.targets_eq_foreign_iff _ _ tree).mp ⟨found, foreign⟩)
  | @patched given _ _ asks asked found =>
      rcases completes_or_refuses asks asked found (given.has .verbose) with
        ⟨_, _, _, _, _, _, _, other⟩ | refuses
      · rw [exit] at other
        cases other
      · have other := refuses.exit
        rw [exit] at other
        cases other

/-- A run that breaks down has written and changed nothing. -/
theorem run_of_breaks {failure : Failure}
    (breaks : Breaks validator finder tree cwd arguments failure) :
    (run validator finder.disk cwd arguments).run tree = (⟨[], [], .error failure⟩, tree) := by
  cases breaks with
  | tooWide asks based asked wide =>
      obtain ⟨failed, foreign⟩ := (config_eq_foreign_iff finder.still_disk cwd _ tree).mpr
        ⟨⟨_, based⟩, ⟨_, asked, wide⟩, rfl⟩
      rw [run_of_unsettled asks failed, ended_of_isForeign [] foreign]
  | unsearchable asks asked failing =>
      obtain ⟨failed, foreign⟩ :=
        (Config.targets_eq_foreign_iff _ _ tree).mpr failing
      rw [run_of_untargeted asks asked failed, ended_of_isForeign [] foreign]

/-- With the search by patterns, a run whose settings hold an empty pattern breaks down, whatever the
tree is. -/
theorem exists_breaks_of_empty {given : Arguments} {settings : Config} (asks : Asks arguments given)
    (asked : ((config validator Glob.finder.disk cwd given).run tree).1 = .ok settings)
    (empty : "" ∈ settings.globs) :
    ∃ failure, Breaks validator Glob.finder tree cwd arguments failure := by
  let find (pattern : String) : Except Failure (List String) :=
    ((((workspace settings).sandbox Glob.finder.disk).find pattern settings.ignore).run tree).1
  have failed : find "" = .error (.plain .typeError
      "Patterns must be a string (non empty) or an array of strings") := rfl
  obtain ⟨failure, failing⟩ := Config.exists_firstFailing failed empty
  exact ⟨failure, .unsearchable asks asked failing⟩

end

/-- A run resolves to 0, or to 1 with a reason, exactly unless it breaks down.  The errors that
leave it are those that break it down; it has then neither written nor changed anything. -/
theorem run_breaks_iff (validator : Validator) (finder : Finder) (tree : Tree) (cwd : Location)
    (arguments : List String) :
    let ran := (run validator finder.disk cwd arguments).run tree
    (Resolves ran.1 ↔ ¬ ∃ failure, Breaks validator finder tree cwd arguments failure) ∧
      ∀ failure, (ran.1.exit = .error failure ↔ Breaks validator finder tree cwd arguments failure) ∧
        (Breaks validator finder tree cwd arguments failure →
          ran = (⟨[], [], .error failure⟩, tree)) := by
  intro ran
  have exits (failure : Failure) :
      ran.1.exit = .error failure ↔ Breaks validator finder tree cwd arguments failure := by
    constructor
    · exact breaks_of_exit
    · intro breaks
      rw [show ran = _ from run_of_breaks breaks]
  refine ⟨⟨?_, ?_⟩, fun failure => ⟨exits failure, run_of_breaks⟩⟩
  · rintro resolves ⟨failure, breaks⟩
    exact not_resolves_of_exit ((exits failure).mpr breaks) resolves
  · intro sound
    cases exit : ran.1.exit with
    | error failure => exact absurd ⟨failure, (exits failure).mp exit⟩ sound
    | ok code => exact resolves_of_exit exit

/-- A directory with a file. -/
def singleTree : Tree :=
  ⟨[(["w"], .directory), (["w", "f"], .file (Text.Utf8.encode "x"))]⟩

/-- A pattern that leads into a file, an empty pattern and an indent that is too wide leave runs as
errors. -/
theorem errors_escape :
    let exit (arguments : List String) :=
      ((run .standard Tree.disk ["w"] arguments).run singleTree).1.exit
    exit ["--glob", "f/*.java"] =
        .error (.plain .error "ENOTDIR: not a directory, scandir '/w/f'") ∧
      exit ["--glob", ""] = .error (.plain .typeError
        "Patterns must be a string (non empty) or an array of strings") ∧
      exit ["--indent", "536870889", "f"] = .error lengthFailure ∧
      ¬ ∀ tree cwd arguments, Resolves ((run .standard Tree.disk cwd arguments).run tree).1 := by
  intro exit
  have led : exit ["--glob", "f/*.java"] =
      .error (.plain .error "ENOTDIR: not a directory, scandir '/w/f'") := by decide +kernel
  exact ⟨led, by decide +kernel, by decide +kernel, fun all => not_resolves_of_exit led (all _ _ _)⟩

end Command

end SuperCalls
