/-
Module: SuperCalls.Config
Purpose: The settings of a batch, and how they are read from a JSON value.  A validator checks the
  value; what it finds wrong is reported as one failure.
Main exports: Config, settingFields, Issue.text, Config.ofJson, Config.toJson
-/
import SuperCalls.Batch
import SuperCalls.Location
import SuperCalls.Validator

namespace SuperCalls

/-- The settings of a batch. -/
structure Config where
  /-- The files, in order. -/
  files : List String
  /-- Patterns for more files. -/
  globs : List String
  /-- Patterns for files that the patterns leave out. -/
  ignore : List String
  workDir : Location
  indent : String
  dryRun : Bool
  errorPolicy : ErrorPolicy
  enforceBoundary : Bool
deriving Repr, DecidableEq, Inhabited

/-!
### The settings of an object
-/

/-- Whether a text holds spaces and tabs only. -/
def isIndent (s : String) : Bool :=
  s.toList.all fun c => c == ' ' || c == '\t'

/-- The rule for indents. -/
def indentRule : TextRule :=
  .passes isIndent "indent may only contain spaces and tabs"

/-- The names of the error policies. -/
def policyNames : List String := ["fail", "continue"]

/-- The error policy of a name. -/
def policyOf (name : { name : String // name ∈ policyNames }) : ErrorPolicy :=
  if name.val = "fail" then .fail else .continue

/-- The patterns that are left out unless other ones are named. -/
def defaultIgnore : List String := ["**/node_modules/**"]

/-- The settings as the fields of an object, in order. -/
def settingFields : List Field :=
  [⟨"files", .list (.text [.nonempty]), .array []⟩,
   ⟨"globs", .list (.text [.nonempty]), .array []⟩,
   ⟨"ignore", .list (.text []), .array (defaultIgnore.map .string)⟩,
   ⟨"workDir", .text [], .string "."⟩,
   ⟨"indent", .text [indentRule], .string defaultIndent⟩,
   ⟨"dryRun", .truth, .bool false⟩,
   ⟨"errorPolicy", .oneOf policyNames, .string "fail"⟩,
   ⟨"enforceBoundary", .truth, .bool true⟩]

/-- The text of an issue, with the text of its complaint. -/
def Issue.text (message : Complaint → String) (issue : Issue) : String :=
  let place := ".".intercalate issue.path
  (if place = "" then "<root>" else place) ++ ": " ++ message issue.complaint

/-- The failure that reports issues. -/
def issuesFailure (message : Complaint → String) (issues : List Issue) : Failure :=
  .coded .invalidConfig
    ("Invalid configuration: " ++ "; ".intercalate (issues.map (Issue.text message))) none

namespace Config

/-- The settings that the fields of an object stand for; a relative work directory starts from the
base directory. -/
def ofValues (base : Location) : Values settingFields → Config
  | (files, globs, ignore, workDir, indent, dryRun, policy, boundary, ()) =>
      ⟨files, globs, ignore, base.resolve workDir, indent, dryRun, policyOf policy, boundary⟩

/-- The settings that a value holds. -/
def ofJson (validator : Validator) (raw : Option Json) (base : Location) :
    Except Failure Config :=
  match validator.checkObject settingFields raw with
  | .ok values => .ok (ofValues base values)
  | .error issues => .error (issuesFailure validator.message issues)

/-- The name of an error policy. -/
def policyName : ErrorPolicy → String
  | .fail => "fail"
  | .continue => "continue"

/-- The settings as a JSON value. -/
def toJson (config : Config) : Json :=
  .object
    [("files", .array (config.files.map .string)),
     ("globs", .array (config.globs.map .string)),
     ("ignore", .array (config.ignore.map .string)),
     ("workDir", .string config.workDir.text),
     ("indent", .string config.indent),
     ("dryRun", .bool config.dryRun),
     ("errorPolicy", .string (policyName config.errorPolicy)),
     ("enforceBoundary", .bool config.enforceBoundary)]

end Config

end SuperCalls
