/-
Module: SuperCalls.Event
Purpose: What a batch announces while it runs.
Main exports: Event, HasTopic
-/
import SuperCalls.Counts

namespace SuperCalls

/-- An announcement: what became of a file, or the end of a batch. -/
inductive Event where
  | skipped (path : String)
  | fixed (path : String) (counts : Counts) (dryRun : Bool)
  | unchanged (path : String) (dryRun : Bool)
  | failed (path : String) (message : String)
  | batchDone (fixedCount failedCount : Nat) (dryRun : Bool)
deriving Repr, DecidableEq, Inhabited

/-- Messages that are announced under a topic. -/
class HasTopic (ε : Type) where
  topic : ε → String

namespace Event

/-- The topic of files that are not there. -/
def skippedTopic : String := "file:skipped"

/-- The topic of fixed files. -/
def fixedTopic : String := "file:fixed"

/-- The topic of files without anything to fix. -/
def unchangedTopic : String := "file:unchanged"

/-- The topic of files that could not be read or written. -/
def failedTopic : String := "file:failed"

/-- The topic of the end of a batch. -/
def batchDoneTopic : String := "batch:done"

/-- The topic of an announcement. -/
def topic : Event → String
  | skipped .. => skippedTopic
  | fixed .. => fixedTopic
  | unchanged .. => unchangedTopic
  | failed .. => failedTopic
  | batchDone .. => batchDoneTopic

instance : HasTopic Event := ⟨topic⟩

/-- The topics of announcements. -/
def topics : List String :=
  [skippedTopic, fixedTopic, unchangedTopic, failedTopic, batchDoneTopic]

end Event

end SuperCalls
