/-
Module: SuperCalls.Command
Purpose: The command: from its arguments to what it writes and the code it exits with.
Main exports: version, helpText, Transcript, Command.config, Command.run
-/
import SuperCalls.Command.Arguments
import SuperCalls.Config.File
import SuperCalls.Config.Targets
import SuperCalls.Reporter
import SuperCalls.Sandbox.Workspace
import SuperCalls.Text.Numeral

namespace SuperCalls

namespace Command

/-- The version of the command. -/
def version : String := "1.0.0"

/-- What the command says about itself. -/
def helpText : String :=
  "\n" ++ "\n".intercalate
    ["super-patch — rewrite super(weight[, enabled]) calls into setter calls",
     "",
     "Usage:",
     "  super-patch [options] [file ...]",
     "",
     "Options:",
     "  -c, --config <file>      Config file (default: " ++ defaultConfigFile ++ " when present)",
     "  -g, --glob <pattern>     Add files matching a glob pattern (repeatable)",
     "      --cwd <dir>          Directory the target paths are relative to",
     "      --indent <n>         Spaces before the setter calls (default: 8)",
     "  -n, --dry-run            Report what would change without writing",
     "      --continue-on-error  Report unreadable files as FAILED and keep going",
     "      --no-boundary        Allow paths outside the working directory",
     "      --verbose            Show replacement counts per rule",
     "  -h, --help               Show this help",
     "  -v, --version            Show the version",
     ""]

/-!
### Settings

The settings come from the file that is named, or from the file of the default name if it
exists, or are the defaults.  What the arguments say then takes the place of what the settings
say; empty values and empty lists say nothing.
-/

/-- A value that is there and not empty. -/
def nonempty? : Option String → Option String
  | some "" => none
  | value => value

/-- The greatest width of an indent. -/
def widthLimit : Nat := 536870888

/-- The failure of an indent that is no width. -/
def indentFailure (text : String) : Failure :=
  .coded .invalidConfig s!"--indent expects a non-negative integer, got \"{text}\"" none

/-- The indent of the width that a text gives. -/
def indentOf (text : String) : Except Failure String :=
  match (Text.Numeral.ofText? text).bind Text.Numeral.whole? with
  | none => .error (indentFailure text)
  | some width =>
      if widthLimit < width then .error (.plain .rangeError "Invalid string length")
      else .ok ("".pushn ' ' width)

/-- Put what the arguments say in the place of what the settings say; relative paths start
from the given directory. -/
def override (cwd : Location) (arguments : Arguments) (config : Config) :
    Except Failure Config := do
  let indent ←
    match arguments.indent with
    | some text => indentOf text
    | none => .ok config.indent
  return {
    files := if arguments.paths.isEmpty then config.files else arguments.paths
    globs := if arguments.globs.isEmpty then config.globs else arguments.globs
    ignore := config.ignore
    workDir :=
      match nonempty? arguments.cwd with
      | some path => cwd.resolve path
      | none => config.workDir
    indent := indent
    dryRun := config.dryRun || arguments.has .dryRun
    errorPolicy := if arguments.has .continueOnError then .continue else config.errorPolicy
    enforceBoundary := config.enforceBoundary && !arguments.has .noBoundary }

variable {m : Type → Type} [Monad m]

/-- The settings before the arguments change them. -/
def baseConfig (validator : Validator) (disk : Disk m) (cwd : Location) (file : Option String) :
    ExceptT Failure m Config :=
  match nonempty? file with
  | some file => Config.load validator disk cwd (cwd.resolve file).text
  | none => do
      let file := (cwd.resolve defaultConfigFile).text
      match ← disk.stat file with
      | .ok _ => Config.load validator disk cwd file
      | .error _ =>
          match Config.ofJson validator (some (.object [])) cwd with
          | .ok config => return config
          | .error failure => throw failure

/-- The settings that the command works with. -/
def config (validator : Validator) (disk : Disk m) (cwd : Location) (arguments : Arguments) :
    ExceptT Failure m Config := do
  match override cwd arguments (← baseConfig validator disk cwd arguments.config) with
  | .ok config => return config
  | .error failure => throw failure

/-!
### The run
-/

/-- What a run of the command wrote, and the code it exits with unless it breaks down. -/
structure Transcript where
  out : List String
  err : List String
  exit : Except Failure Nat

namespace Transcript

/-- Write one thing and succeed. -/
def saying (text : String) : Transcript := ⟨[text], [], .ok 0⟩

/-- Report an error behind the lines already written. -/
def failing (out : List String) (message : String) : Transcript :=
  ⟨out, [s!"error: {message}"], .ok 1⟩

/-- End with a failure: one of known cause is reported, any other breaks the command down. -/
def ended (out : List String) (failure : Failure) : Transcript :=
  if failure.isCoded then failing out failure.message else ⟨out, [], .error failure⟩

end Transcript

/-- The bus of a run: every line of the reporter is a note. -/
def reportingBus (verbose : Bool) : Bus Event String :=
  (Reporter.attach ⟨verbose⟩ (fun event => some event.notice) id Bus.empty).1

/-- Patch the files that settings are about: the lines of the report, and the report. -/
def patchFiles (disk : Disk m) (verbose : Bool) (config : Config) :
    m (List String × Except Failure Report) := do
  let sandbox := Workspace.sandbox ⟨config.workDir, config.enforceBoundary, []⟩ disk
  match ← (config.targets sandbox).run with
  | .error failure => return ([], .error failure)
  | .ok paths =>
      let batch : Batch := ⟨superCallRules config.indent, config.dryRun, config.errorPolicy⟩
      let (bus, result) ← batch.run sandbox (reportingBus verbose) paths
      return (bus.notes, result)

/-- Run the command with arguments that are well-formed. -/
def runWith (validator : Validator) (disk : Disk m) (cwd : Location) (arguments : Arguments) :
    m Transcript := do
  if arguments.has .help then return .saying helpText
  if arguments.has .version then return .saying s!"super-patch v{version}"
  match ← (config validator disk cwd arguments).run with
  | .error failure => return .ended [] failure
  | .ok config =>
      match ← patchFiles disk (arguments.has .verbose) config with
      | (out, .error failure) => return .ended out failure
      | (out, .ok report) => return ⟨out, [], .ok (if 0 < report.failedCount then 1 else 0)⟩

/-- Run the command in a directory. -/
def run (validator : Validator) (disk : Disk m) (cwd : Location) (arguments : List String) :
    m Transcript :=
  match Arguments.read arguments with
  | .error error => return .failing [] error.message
  | .ok arguments => runWith validator disk cwd arguments

end Command

end SuperCalls
