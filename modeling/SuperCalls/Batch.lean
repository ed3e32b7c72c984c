/-
Module: SuperCalls.Batch
Purpose: Patching the files of a list of paths.  Every path is handled in turn, its outcome
  is announced as soon as it is known, and the end of the batch is announced when every path
  was handled.
Main exports: ErrorPolicy, Batch, Batch.patchFile, Batch.run
-/
import SuperCalls.Bus
import SuperCalls.Outcome
import SuperCalls.Rule.SuperCall
import SuperCalls.Sandbox

namespace SuperCalls

/-- What a file that cannot be read or written does to a batch: it ends the batch, or it is
recorded and the batch goes on. -/
inductive ErrorPolicy where
  | fail
  | continue
deriving Repr, DecidableEq, Inhabited

/-- How a batch is run. -/
structure Batch where
  rules : List Rule
  /-- Tell what would change and write nothing. -/
  dryRun : Bool
  errorPolicy : ErrorPolicy

namespace Batch

variable {m : Type → Type} [Monad m] {ν : Type}

/-- Patch one file.  It is read only if it exists and written only if its text changes. -/
def patchFile (batch : Batch) (sandbox : Sandbox m) (path : String) :
    ExceptT Failure m Outcome := do
  if !(← sandbox.isFile path) then
    return ⟨path, .skipped, []⟩
  let content ← sandbox.read path
  let result := applyRules batch.rules content
  if !result.changed then
    return ⟨path, .unchanged, result.counts⟩
  if !batch.dryRun then
    sandbox.write path result.content
  return ⟨path, .fixed, result.counts⟩

/-- Patch the files of the paths that are left and announce what becomes of them. -/
def runFrom (batch : Batch) (sandbox : Sandbox m) :
    Bus Event ν → Tally → List String → m (Bus Event ν × Except Failure Report)
  | bus, tally, [] =>
      match bus.emit (.batchDone tally.fixedCount tally.failedCount batch.dryRun) with
      | (bus, .error failure) => pure (bus, .error failure)
      | (bus, .ok _) => pure (bus, .ok (tally.report batch.dryRun))
  | bus, tally, path :: paths => do
      let settled : Except Failure Outcome :=
        match ← (batch.patchFile sandbox path).run with
        | .ok outcome => .ok outcome
        | .error failure =>
            match batch.errorPolicy with
            | .fail => .error (failure.about path)
            | .continue => .ok ⟨path, .failed failure.message, []⟩
      match settled with
      | .error failure => pure (bus, .error failure)
      | .ok outcome =>
          match bus.emit (outcome.event batch.dryRun) with
          | (bus, .error failure) => pure (bus, .error failure)
          | (bus, .ok _) => runFrom batch sandbox bus (tally.record outcome) paths

/-- Patch the files of a list of paths, in order. -/
def run (batch : Batch) (sandbox : Sandbox m) (bus : Bus Event ν) (paths : List String) :
    m (Bus Event ν × Except Failure Report) :=
  runFrom batch sandbox bus .start paths

end Batch

end SuperCalls
