/-
Module: SuperCalls.Reporter
Purpose: The progress report of a batch: a line for every file, and a summary.
Main exports: Notice, Event.notice, Reporter, Reporter.report, Reporter.lines, Reporter.attach
-/
import SuperCalls.Bus

namespace SuperCalls

/-- What a reporter reads of an announcement, as texts. -/
inductive Notice where
  | skipped (path : String)
  /-- The counts are listed, if there are any to be listed. -/
  | fixed (path : String) (counts : Option String) (dryRun : Bool)
  | unchanged (path : String) (dryRun : Bool)
  | failed (path message : String)
  | batchDone (fixedCount : String) (dryRun : Bool)
deriving Repr, DecidableEq, Inhabited

/-- What a reporter reads of an announcement. -/
def Event.notice : Event → Notice
  | .skipped path => .skipped path
  | .fixed path counts dryRun => .fixed path (some counts.text) dryRun
  | .unchanged path dryRun => .unchanged path dryRun
  | .failed path message => .failed path message
  | .batchDone fixedCount _ dryRun => .batchDone (toString fixedCount) dryRun

/-- A reporter; a verbose one adds the counts of the rules to the line of a fixed file. -/
structure Reporter where
  verbose : Bool
deriving Repr, DecidableEq

namespace Reporter

variable {ε ν : Type}

/-- What a line of a dry run starts with. -/
def dryRunMark (dryRun : Bool) : String :=
  if dryRun then "[dry-run] " else ""

/-- A refusal to list counts that are not there. -/
def missingCounts : Failure :=
  .plain .typeError "Cannot convert undefined or null to object"

/-- The lines that report a notice. -/
def report (reporter : Reporter) : Notice → Except Failure (List String)
  | .skipped path => .ok [s!"SKIP: {path} not found"]
  | .fixed path counts dryRun =>
      let line := dryRunMark dryRun ++ s!"FIXED: {path}"
      if reporter.verbose then
        match counts with
        | some counts => .ok [line ++ " (" ++ counts ++ ")"]
        | none => .error missingCounts
      else .ok [line]
  | .unchanged path dryRun => .ok [dryRunMark dryRun ++ s!"NO CHANGE: {path}"]
  | .failed path message => .ok [s!"FAILED: {path} ({message})"]
  | .batchDone fixedCount dryRun =>
      let suffix := if dryRun then " (dry run)" else ""
      .ok ["", s!"Total files fixed: {fixedCount}" ++ suffix]

/-- The lines that report an announcement of a batch: it always has its counts. -/
def lines (reporter : Reporter) (event : Event) : List String :=
  match reporter.report event.notice with
  | .ok lines => lines
  | .error _ => []

/-- What a reporter does when it hears something; `view` finds the notice in what travels on the
bus, and `written` is the note of a line. -/
def hear (reporter : Reporter) (view : ε → Option Notice) (written : String → ν) : Listener ε ν
  | .announced announced =>
      match (view announced.event).map reporter.report with
      | some (.ok lines) => lines.map fun line => .note (written line)
      | some (.error failure) => [.raise failure]
      | none => []
  | _ => []

variable [HasTopic ε]

/-- Listen to several topics, one after the other. -/
def listen (listener : Listener ε ν) : Bus ε ν → List String → Bus.Step ε ν Unit
  | bus, [] => (bus, .ok ())
  | bus, topic :: topics =>
      match bus.on topic none listener with
      | (bus, .error failure) => (bus, .error failure)
      | (bus, .ok ()) => listen listener bus topics

/-- Report every announcement of a batch. -/
def attach (reporter : Reporter) (view : ε → Option Notice) (written : String → ν)
    (bus : Bus ε ν) : Bus.Step ε ν Unit :=
  listen (reporter.hear view written) bus Event.topics

end Reporter

end SuperCalls
