/-
Module: SuperCalls.Command.Arguments
Purpose: The arguments of the command: options, some of which take a value, and the paths of
  files between and behind them.
Main exports: Flag, Parameter, Switch, UsageError, Item, scan, Arguments, Arguments.read
-/
import SuperCalls.Json

namespace SuperCalls.Command

/-!
### Options
-/

/-- An option that is given or not. -/
inductive Flag where
  | dryRun
  | continueOnError
  | noBoundary
  | verbose
  | help
  | version
deriving Repr, DecidableEq, Inhabited

/-- An option that takes a value. -/
inductive Parameter where
  | config
  | glob
  | cwd
  | indent
deriving Repr, DecidableEq, Inhabited

/-- An option. -/
inductive Switch where
  | flag (f : Flag)
  | parameter (p : Parameter)
deriving Repr, DecidableEq, Inhabited

/-- All options. -/
def switches : List Switch :=
  [.parameter .config, .parameter .glob, .parameter .cwd, .parameter .indent, .flag .dryRun,
   .flag .continueOnError, .flag .noBoundary, .flag .verbose, .flag .help, .flag .version]

namespace Switch

/-- The name of an option, which is written behind two dashes. -/
def name : Switch → String
  | parameter .config => "config"
  | parameter .glob => "glob"
  | parameter .cwd => "cwd"
  | parameter .indent => "indent"
  | flag .dryRun => "dry-run"
  | flag .continueOnError => "continue-on-error"
  | flag .noBoundary => "no-boundary"
  | flag .verbose => "verbose"
  | flag .help => "help"
  | flag .version => "version"

/-- The letter of an option, which is written behind one dash. -/
def letter? : Switch → Option Char
  | parameter .config => some 'c'
  | parameter .glob => some 'g'
  | flag .dryRun => some 'n'
  | flag .help => some 'h'
  | flag .version => some 'v'
  | _ => none

/-- The option of a name. -/
def ofName? (name : List Char) : Option Switch :=
  switches.find? fun switch => switch.name.toList == name

/-- The option of a letter. -/
def ofLetter? (letter : Char) : Option Switch :=
  switches.find? fun switch => switch.letter? == some letter

/-- How messages name an option: its letter, if it has one, and its name. -/
def title (switch : Switch) : String :=
  match switch.letter? with
  | some letter => s!"-{letter}, --{switch.name}"
  | none => s!"--{switch.name}"

end Switch

/-!
### Misuse
-/

/-- How options can be misused.  An option is kept as it was written, without its value. -/
inductive UsageError where
  | unknownOption (written : String)
  | missingValue (p : Parameter)
  | unwantedValue (f : Flag)
  /-- A separate value begins with a dash, as if it were an option. -/
  | ambiguousValue (p : Parameter) (written : String)
deriving Repr, DecidableEq, Inhabited

/-- How a value that begins with a dash can be given to an option, as it was written. -/
def valueExample (p : Parameter) (written : String) : String :=
  if "--".toList.isPrefixOf written.toList then s!"'{written}=-XYZ'"
  else s!"'--{(Switch.parameter p).name}=-XYZ' or '{written}-XYZ'"

/-- The text of a misuse. -/
def UsageError.message : UsageError → String
  | unknownOption written =>
      s!"Unknown option '{written}'. To specify a positional argument starting with a '-', "
        ++ "place it at the end of the command after '--', as in '-- " ++ Json.quote written
  | missingValue p => s!"Option '{(Switch.parameter p).title} <value>' argument missing"
  | unwantedValue f => s!"Option '{(Switch.flag f).title}' does not take an argument"
  | ambiguousValue p written =>
      s!"Option '{written}' argument is ambiguous.\n"
        ++ s!"Did you forget to specify the option argument for '{written}'?\n"
        ++ "To specify an option argument starting with a dash use "
        ++ valueExample p written ++ "."

/-!
### Reading arguments

An argument of one dash and one letter is the option of the letter.  One dash and more letters
are a group, one option a letter, except that a parameter takes the rest of the group as its
value; only as the last letter it takes the next argument.  Two dashes and a name are the
option of the name, and what follows an equals sign is its value.  A parameter without a value
takes the next argument, whatever it is.  Everything else names a file, and so does everything
behind an argument of two dashes, which a group can contain as well.
-/

/-- What arguments say, in order. -/
inductive Item where
  | flag (f : Flag)
  | value (p : Parameter) (text : String)
  | path (text : String)
  | misuse (error : UsageError)
deriving Repr, DecidableEq, Inhabited

/-- What the next argument is read as. -/
inductive Expectation where
  | anything
  /-- The value of a parameter, which was written in the given way. -/
  | value (p : Parameter) (written : String)
  /-- A path. -/
  | path
deriving Repr, DecidableEq, Inhabited

/-- An option without a value. -/
def lone (switch : Option Switch) (written : String) : List Item × Expectation :=
  match switch with
  | some (.flag f) => ([.flag f], .anything)
  | some (.parameter p) => ([], .value p written)
  | none => ([.misuse (.unknownOption written)], .anything)

/-- An option and its value in one argument. -/
def joined (switch : Option Switch) (written value : String) : List Item × Expectation :=
  match switch with
  | some (.flag f) => ([.misuse (.unwantedValue f)], .anything)
  | some (.parameter p) => ([.value p value], .anything)
  | none => ([.misuse (.unknownOption written)], .anything)

/-- A value that is an argument of its own. -/
def separate (p : Parameter) (written value : String) : Item :=
  match value.toList with
  | '-' :: _ :: _ => .misuse (.ambiguousValue p written)
  | _ => .value p value

/-- An option behind two dashes.  Its name holds at least one character, so an equals sign
that comes first belongs to a name if no other one follows. -/
def longOption (text : List Char) : List Item × Expectation :=
  if (text.drop 1).contains '=' then
    let (name, rest) := text.span (· != '=')
    joined (Switch.ofName? name) ("--" ++ String.ofList name) (String.ofList (rest.drop 1))
  else lone (Switch.ofName? text) ("--" ++ String.ofList text)

/-- Whether a letter stands for a parameter. -/
def isParameterLetter (letter : Char) : Bool :=
  match Switch.ofLetter? letter with
  | some (.parameter _) => true
  | _ => false

/-- The single arguments that a group stands for. -/
def ungroup : List Char → List (List Char)
  | [] => []
  | letter :: rest =>
      if isParameterLetter letter && !rest.isEmpty then [letter :: rest]
      else [letter] :: ungroup rest

/-- An argument behind one dash that is no group. -/
def shortOption : List Char → List Item × Expectation
  | [] => ([.path "-"], .anything)
  | ['-'] => ([], .path)
  | [letter] => lone (Switch.ofLetter? letter) (String.ofList ['-', letter])
  | letter :: value =>
      joined (Switch.ofLetter? letter) (String.ofList ['-', letter]) (String.ofList value)

/-- Read the options of a group. -/
def shortOptions (expectation : Expectation) : List (List Char) → List Item × Expectation
  | [] => ([], expectation)
  | text :: texts =>
      let (items, expectation) :=
        match expectation with
        | .path => ([.path (String.ofList ('-' :: text))], .path)
        | _ => shortOption text
      let (more, expectation) := shortOptions expectation texts
      (items ++ more, expectation)

/-- Read an argument of which nothing is expected. -/
def readArgument (argument : String) : List Item × Expectation :=
  match argument.toList with
  | ['-'] => ([.path argument], .anything)
  | ['-', '-'] => ([], .path)
  | '-' :: '-' :: text => longOption text
  | '-' :: letters => shortOptions .anything (ungroup letters)
  | _ => ([.path argument], .anything)

/-- Read arguments from a point on. -/
def scanFrom : Expectation → List String → List Item
  | .value p _, [] => [.misuse (.missingValue p)]
  | _, [] => []
  | .path, argument :: rest => .path argument :: scanFrom .path rest
  | .value p written, argument :: rest => separate p written argument :: scanFrom .anything rest
  | .anything, argument :: rest =>
      let (items, expectation) := readArgument argument
      items ++ scanFrom expectation rest

/-- What arguments say. -/
def scan (arguments : List String) : List Item :=
  scanFrom .anything arguments

/-!
### The options that were given
-/

/-- The options and paths of a command.  A parameter that is given again replaces its earlier
value; only patterns are gathered. -/
structure Arguments where
  config : Option String
  globs : List String
  cwd : Option String
  indent : Option String
  flags : List Flag
  paths : List String
deriving Repr, DecidableEq, Inhabited

namespace Arguments

/-- Nothing is given. -/
def empty : Arguments := ⟨none, [], none, none, [], []⟩

/-- Whether a flag is given. -/
def has (arguments : Arguments) (f : Flag) : Bool :=
  arguments.flags.contains f

/-- Give a parameter a value. -/
def assign (arguments : Arguments) : Parameter → String → Arguments
  | .config, text => { arguments with config := some text }
  | .glob, text => { arguments with globs := arguments.globs ++ [text] }
  | .cwd, text => { arguments with cwd := some text }
  | .indent, text => { arguments with indent := some text }

/-- Add what one item says. -/
def add (arguments : Arguments) : Item → Except UsageError Arguments
  | .flag f => .ok { arguments with flags := arguments.flags ++ [f] }
  | .value p text => .ok (arguments.assign p text)
  | .path text => .ok { arguments with paths := arguments.paths ++ [text] }
  | .misuse error => .error error

/-- Read the arguments of the command, up to the first misuse. -/
def read (arguments : List String) : Except UsageError Arguments :=
  (scan arguments).foldlM add empty

end Arguments

end SuperCalls.Command
