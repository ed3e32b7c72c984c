/-
Module: SuperCalls.Proofs.Batch.MemoryVisits
Purpose: What a batch does to one path of a memory store.  It is settled by what the store holds
  under that path and by the faults that are set on it, and it leaves all other paths alone.
Main exports: MemoryStore.Share, MemoryStore.share, Batch.visit, MemoryStore.patched_eq,
  MemoryStore.share_visited
-/
import SuperCalls.Proofs.Batch.ErrorPolicies

namespace SuperCalls

namespace MemoryStore

/-- What a store holds about a path: the text under it, and the faults of the calls on it. -/
structure Share where
  content : Option String
  isFileFault : Option Failure
  readFault : Option Failure
  writeFault : Option Failure
deriving Repr, DecidableEq

/-- The share of a path in a store. -/
def share (store : MemoryStore) (path : String) : Share :=
  ⟨store.get? path, store.fault? .isFile path, store.fault? .read path, store.fault? .write path⟩

end MemoryStore

/-- A visit to a path: what patching it comes to, the calls that are made for it, and the text that
is written, if one is. -/
structure Visit where
  result : Except Failure Outcome
  calls : List Call
  written : Option String

/-- The visit that a batch pays to a path, given the share of the path. -/
def Batch.visit (batch : Batch) (path : String) (share : MemoryStore.Share) : Visit :=
  match share.isFileFault, share.content with
  | some failure, _ => ⟨.error failure, [.isFile path], none⟩
  | none, none => ⟨.ok ⟨path, .skipped, []⟩, [.isFile path], none⟩
  | none, some content =>
      match share.readFault with
      | some failure => ⟨.error failure, [.isFile path, .read path], none⟩
      | none =>
          let patched := applyRules batch.rules content
          if patched.changed = false then
            ⟨.ok ⟨path, .unchanged, patched.counts⟩, [.isFile path, .read path], none⟩
          else if batch.dryRun then
            ⟨.ok ⟨path, .fixed, patched.counts⟩, [.isFile path, .read path], none⟩
          else
            match share.writeFault with
            | some failure =>
                ⟨.error failure, [.isFile path, .read path, .write path patched.content], none⟩
            | none =>
                ⟨.ok ⟨path, .fixed, patched.counts⟩,
                  [.isFile path, .read path, .write path patched.content], some patched.content⟩

/-- A visit writes the text under its own path only, if the run is not dry and the rules change it. -/
theorem Batch.of_write_mem_visit {batch : Batch} {path other text : String}
    {share : MemoryStore.Share} (writes : .write other text ∈ (batch.visit path share).calls) :
    other = path ∧ batch.dryRun = false ∧
      ∃ content, share.content = some content ∧ (applyRules batch.rules content).changed := by
  unfold visit at writes
  split at writes
  · simp at writes
  · simp at writes
  · next content _ present => grind

/-- A text that a visit leaves in the store was written. -/
theorem Batch.write_mem_of_written {batch : Batch} {path text : String}
    {share : MemoryStore.Share} (written : (batch.visit path share).written = some text) :
    .write path text ∈ (batch.visit path share).calls := by
  unfold visit at written ⊢
  grind

/-- How a visit is reported if the batch goes on after failures. -/
def Visit.outcome (visit : Visit) (path : String) : Outcome :=
  match visit.result with
  | .ok outcome => outcome
  | .error failure => ⟨path, .failed failure.message, []⟩

namespace MemoryStore

/-- The store behind a visit to a path. -/
def visited (store : MemoryStore) (path : String) (visit : Visit) : MemoryStore :=
  match visit.written with
  | none => store.recording visit.calls
  | some content => (store.recording visit.calls).put path content

/-!
### Calls
-/

theorem run_isFile (store : MemoryStore) (path : String) :
    (sandbox.isFile path).run store =
      (match store.fault? .isFile path with
        | some failure => .error failure
        | none => .ok (store.get? path).isSome,
        store.recording [.isFile path]) := by
  simp only [sandbox, attempt_eq]
  cases store.fault? .isFile path <;> rfl

theorem run_read (store : MemoryStore) (path content : String)
    (present : store.get? path = some content) :
    (sandbox.read path).run store =
      (match store.fault? .read path with
        | some failure => .error failure
        | none => .ok content,
        store.recording [.read path]) := by
  have recorded : (store.recording [.read path]).get? path = some content := present
  simp only [sandbox, attempt_eq, recorded]
  cases store.fault? .read path <;> rfl

theorem run_write (store : MemoryStore) (path content : String) :
    (sandbox.write path content).run store =
      match store.fault? .write path with
      | some failure => (.error failure, store.recording [.write path content])
      | none => (.ok (), (store.recording [.write path content]).put path content) :=
  attempt_eq (.write path content) .write path (fun store => (.ok (), store.put path content)) store

/-- Patching a path of a store is a visit to it. -/
theorem patched_eq (batch : Batch) (store : MemoryStore) (path : String) :
    batch.patched sandbox path store =
      ((batch.visit path (store.share path)).result,
        store.visited path (batch.visit path (store.share path))) := by
  unfold Batch.patched Batch.patchFile Batch.visit share
  rw [run_bind, run_isFile]
  cases store.fault? .isFile path with
  | some failure => rfl
  | none =>
      cases present : store.get? path with
      | none => rfl
      | some content =>
          have still : (store.recording [.isFile path]).get? path = some content := present
          simp only [Option.isSome_some, Bool.not_true, Bool.false_eq_true, if_false]
          rw [run_bind, run_read _ path content still]
          have faults (operation : Operation) (calls : List Call) :
              (store.recording calls).fault? operation path = store.fault? operation path := rfl
          rw [faults, recording_recording]
          cases store.fault? .read path with
          | some failure => rfl
          | none =>
              cases changed : (applyRules batch.rules content).changed with
              | false =>
                  simp only [changed]
                  rfl
              | true =>
                  cases dry : batch.dryRun with
                  | true =>
                      simp only [changed]
                      rfl
                  | false =>
                      simp only [changed, Bool.not_true, Bool.false_eq_true, if_false,
                        Bool.not_false, if_true]
                      rw [run_bind, run_write, faults, recording_recording]
                      cases store.fault? .write path <;> rfl

/-!
### Shares
-/

theorem get?_put (store : MemoryStore) (path content other : String) :
    (store.put path content).get? other = if other = path then some content else store.get? other := by
  unfold get? put
  rw [List.lookup_cons]
  by_cases own : other = path
  · subst own
    simp
  · have apart : (other == path) = false := beq_false_of_ne own
    rw [apart, if_neg own]
    induction store.files with
    | nil => rfl
    | cons file files ih =>
        obtain ⟨key, text⟩ := file
        by_cases dropped : key = path
        · subst dropped
          rw [List.filter_cons_of_neg (by simp), List.lookup_cons, apart]
          exact ih
        · rw [List.filter_cons_of_pos (by simp [dropped]), List.lookup_cons, List.lookup_cons]
          cases other == key with
          | true => rfl
          | false => exact ih

/-- A visit changes the share of its own path only, and there only the text. -/
theorem share_visited (store : MemoryStore) (path other : String) (visit : Visit) :
    (store.visited path visit).share other =
      if other = path then
        { store.share path with content := visit.written.or (store.get? path) }
      else store.share other := by
  unfold visited share
  by_cases own : other = path
  · subst own
    rw [if_pos rfl]
    cases visit.written with
    | none => rfl
    | some content =>
        simp only [get?_put, if_pos]
        rfl
  · rw [if_neg own]
    cases visit.written with
    | none => rfl
    | some content =>
        simp only [get?_put, if_neg own]
        rfl

theorem get?_visited (store : MemoryStore) (path other : String) (visit : Visit) :
    (store.visited path visit).get? other =
      if other = path then visit.written.or (store.get? path) else store.get? other := by
  have content := congrArg Share.content (store.share_visited path other visit)
  rw [apply_ite Share.content] at content
  exact content

theorem calls_visited (store : MemoryStore) (path : String) (visit : Visit) :
    (store.visited path visit).calls = store.calls ++ visit.calls := by
  unfold visited
  cases visit.written <;> rfl

theorem faults_visited (store : MemoryStore) (path : String) (visit : Visit) :
    (store.visited path visit).faults = store.faults := by
  unfold visited
  cases visit.written <;> rfl

end MemoryStore

end SuperCalls
