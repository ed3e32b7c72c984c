/-
Module: SuperCalls.Outcome
Purpose: What became of the files of a batch.
Main exports: Status, Outcome, Outcome.event, Report, Tally, Tally.record
-/
import SuperCalls.Event

namespace SuperCalls

/-- What became of a file. -/
inductive Status where
  /-- There is no such file. -/
  | skipped
  /-- Some call was replaced. -/
  | fixed
  /-- There was nothing to replace. -/
  | unchanged
  /-- It could not be read or written. -/
  | failed (message : String)
deriving Repr, DecidableEq, Inhabited

/-- What became of a path, and what each rule replaced in the file. -/
structure Outcome where
  path : String
  status : Status
  counts : Counts
deriving Repr, DecidableEq, Inhabited

namespace Outcome

/-- How an outcome is announced. -/
def event (outcome : Outcome) (dryRun : Bool) : Event :=
  match outcome.status with
  | .skipped => .skipped outcome.path
  | .fixed => .fixed outcome.path outcome.counts dryRun
  | .unchanged => .unchanged outcome.path dryRun
  | .failed message => .failed outcome.path message

/-- Whether the file was fixed. -/
def isFixed (outcome : Outcome) : Bool :=
  outcome.status == .fixed

/-- Whether the file failed. -/
def isFailed (outcome : Outcome) : Bool :=
  match outcome.status with
  | .failed _ => true
  | _ => false

end Outcome

/-- The result of a batch. -/
structure Report where
  outcomes : List Outcome
  fixedCount : Nat
  failedCount : Nat
  dryRun : Bool
deriving Repr, DecidableEq, Inhabited

/-- What a batch has come to so far: the outcomes in order, and how many files it has counted as
fixed and as failed. -/
structure Tally where
  outcomes : List Outcome
  fixedCount : Nat
  failedCount : Nat
deriving Repr, DecidableEq, Inhabited

namespace Tally

/-- Nothing has been done. -/
def start : Tally := ⟨[], 0, 0⟩

/-- Put an outcome behind the others and count it by its status. -/
def record (tally : Tally) (outcome : Outcome) : Tally :=
  let outcomes := tally.outcomes ++ [outcome]
  match outcome.status with
  | .skipped | .unchanged => { tally with outcomes := outcomes }
  | .fixed => { tally with outcomes := outcomes, fixedCount := tally.fixedCount + 1 }
  | .failed _ => { tally with outcomes := outcomes, failedCount := tally.failedCount + 1 }

/-- The report of a batch that has come to its end. -/
def report (tally : Tally) (dryRun : Bool) : Report :=
  ⟨tally.outcomes, tally.fixedCount, tally.failedCount, dryRun⟩

end Tally

end SuperCalls
