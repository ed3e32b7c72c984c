/-
Module: SuperCalls.Proofs.Workspace.Repetition
Purpose: Going over the same paths of a disk again.  Every path is found as it was, and what was
  patched stays as it is, so a batch that is repeated fixes nothing, fails where it failed before,
  and leaves the disk alone.
Main exports: Workspace.read_again, Workspace.patched_again, Workspace.course_again
-/
import SuperCalls.Proofs.Batch.ErrorPolicies
import SuperCalls.Proofs.Workspace.ChangedFiles

namespace SuperCalls

open Text.Utf8 (decode? encode decode?_encode)

namespace Tree

variable {t u : Tree} {path : String} {there : Location} {bytes others : List UInt8}

theorem attempt_ok {α : Type} (call : DiskCall) (path : String) (value : α) :
    attempt call path (.ok value) =
      if path.toList.contains (Char.ofNat 0) then .error (.nullCharacter path) else .ok value :=
  rfl

/-- A file is read, unless no call is made on its path. -/
theorem read_of_reaches (reaches : t.Reaches path there)
    (found : t.entry? there = some (.file bytes)) :
    t.read path = attempt .openFile path (.ok bytes) := by
  unfold read
  rw [reaches.locate_eq rfl found]
  unfold attempt
  split <;> rfl

theorem write_of_reaches (reaches : t.Reaches path there) (others : List UInt8) :
    t.write path others = attempt .openFile path (.ok (t.put there (.file others))) := by
  obtain ⟨_, _, _, bytes, found⟩ := reaches_iff.mp reaches
  unfold write
  rw [reaches.locate_eq rfl found]
  rfl

theorem outline_write (distinct : t.Distinct) (reaches : t.Reaches path there)
    (others : List UInt8) : (t.put there (.file others)).outline = t.outline := by
  obtain ⟨_, _, _, bytes, found⟩ := reaches_iff.mp reaches
  exact outline_put distinct found others

end Tree

/-!
### A second visit
-/

namespace Batch

variable {σ : Type}

/-- What a visit comes to when it is paid again: it fails as before, or nothing is left to fix. -/
def Repeats : Except Failure Outcome → Except Failure Outcome → Prop
  | .error failure, again => again = .error failure
  | .ok _, again => ∃ outcome, again = .ok outcome ∧ outcome.isFixed = false

end Batch

namespace Workspace

variable {finder : Finder} {w : Workspace} {path : String} {t u v : Tree} {rules : List Rule}
  {fixed : Location → Prop}

theorem run_disk_read (t : Tree) (path : String) :
    (w.read finder.disk path).run t =
      (match w.guarded path with
        | .error failure => .error failure
        | .ok full =>
            match t.read full with
            | .error error => .error (readFailure "read" path error.message)
            | .ok bytes =>
                match decode? bytes with
                | some content => .ok content
                | none => .error (readFailure "read" path malformedText),
        t) := by
  unfold read
  cases w.guarded path with
  | error failure => rfl
  | ok full =>
      have looked : (liftM (finder.disk.read full) : ExceptT Failure (StateM Tree) _).run t =
          (.ok (t.read full), t) := rfl
      simp only
      rw [run_bind, looked]
      cases t.read full with
      | error error => rfl
      | ok bytes =>
          simp only
          cases decode? bytes <;> rfl

/-- A path is read as before, or its text has been patched. -/
theorem read_again (accounts : Accounts rules t v fixed) (outlines : t.outline = v.outline)
    (path : String) :
    (w.read finder.disk path).run v = (((w.read finder.disk path).run t).1, v) ∨
      ∃ content, (w.read finder.disk path).run t = (.ok content, t) ∧
        (applyRules rules content).changed = true ∧
        (w.read finder.disk path).run v = (.ok (applyRules rules content).content, v) := by
  rw [run_disk_read, run_disk_read]
  cases w.guarded path with
  | error failure => exact Or.inl rfl
  | ok full =>
      by_cases touched : ∃ location, t.Reaches full location ∧ fixed location
      · obtain ⟨location, reaches, here⟩ := touched
        obtain ⟨bytes, content, found, decoded, changed, now⟩ := accounts.patched location here
        have before := Tree.read_of_reaches reaches found
        have after := Tree.read_of_reaches (reaches.of_sameShape accounts.shape) now
        rw [Tree.attempt_ok] at before after
        by_cases null : full.toList.contains (Char.ofNat 0) = true
        · rw [if_pos null] at before after
          simp only [before, after]
          exact Or.inl trivial
        · rw [if_neg null] at before after
          refine Or.inr ⟨content, ?_, changed, ?_⟩
          · simp only [before, decoded]
          · simp only [after, decode?_encode]
      · have same := Tree.read_congr outlines fun location reaches =>
          accounts.kept location fun here => touched ⟨location, reaches, here⟩
        simp only [same]
        exact Or.inl trivial

/-- A file that was read can be written, and is then read as written. -/
theorem write_of_read {content : String}
    (read : ((w.read finder.disk path).run t).1 = .ok content) (text : String) :
    ∃ there, t.Reaches (w.resolve path) there ∧
      (w.write finder.disk path text).run t = (.ok (), t.put there (.file (encode text))) ∧
      ((w.read finder.disk path).run (t.put there (.file (encode text)))).1 = .ok text := by
  rw [run_disk_read] at read
  cases passed : w.guarded path with
  | error failure =>
      rw [passed] at read
      cases read
  | ok full =>
      rw [passed] at read
      cases opened : t.read full with
      | error error =>
          simp only [opened] at read
          cases read
      | ok bytes =>
          obtain ⟨there, reaches, found⟩ := Tree.reaches_of_read opened
          have possible := Tree.read_of_reaches reaches found
          rw [opened, Tree.attempt_ok] at possible
          split at possible
          · cases possible
          next plain =>
          have written := Tree.write_of_reaches reaches (encode text)
          have now := Tree.put_file found (encode text)
          have shape : Tree.SameShape t (t.put there (.file (encode text))) := by
            intro location
            rw [now]
            split
            · next here => exact Or.inr ⟨bytes, encode text, by rw [here, found], rfl⟩
            · exact Or.inl rfl
          have here : Tree.entry? (t.put there (.file (encode text))) there =
              some (.file (encode text)) := by
            rw [now, if_pos rfl]
          have reread := Tree.read_of_reaches (reaches.of_sameShape shape) here
          rw [Tree.attempt_ok, if_neg plain] at written reread
          refine ⟨there, by rwa [← guarded_eq passed], ?_, ?_⟩
          · unfold write
            rw [passed]
            simp only
            rw [run_bind, run_disk_write, written]
            rfl
          · rw [run_disk_read, passed]
            simp only [reread, decode?_encode]

/-- A path is visited again behind all changes: it fails as before, or nothing is left to fix. -/
theorem patched_again {batch : Batch} (lasting : Lasting batch.rules) (wet : batch.dryRun = false)
    (accounts : Accounts batch.rules (batch.patched (w.sandbox finder.disk) path t).2 v fixed)
    (before : t.outline = v.outline)
    (behind : (batch.patched (w.sandbox finder.disk) path t).2.outline = v.outline) :
    ∃ again, batch.patched (w.sandbox finder.disk) path v = (again, v) ∧
      Batch.Repeats (batch.patched (w.sandbox finder.disk) path t).1 again := by
  have patches := Batch.patches_patched batch (w.sandbox finder.disk) path t
  generalize batch.patched (w.sandbox finder.disk) path t = patched at patches accounts behind ⊢
  obtain ⟨result, u⟩ := patched
  dsimp only at patches accounts behind ⊢
  have asked {answer : Except Failure Bool} {s : Tree}
      (called : (w.isFile finder.disk path).run t = (answer, s)) :
      s = t ∧ (w.isFile finder.disk path).run v = (answer, v) := by
    have sees := Sees.composable.isFile (finder.sees_stat fun like => like) w path
    refine ⟨by rw [← sees.steady t, called], Prod.ext ?_ (sees.steady v)⟩
    rw [sees.same before, called]
  have looked {answer : Except Failure String} {s : Tree}
      (called : (w.read finder.disk path).run t = (answer, s)) :
      s = t ∧ (w.read finder.disk path).run t = (answer, t) := by
    have still : s = t := by rw [← steady_read finder.still_disk w path t, called]
    exact ⟨still, by rw [called, still]⟩
  cases patches with
  | unknown isFile => exact ⟨_, Batch.patched_of_patches (.unknown (asked isFile).2), rfl⟩
  | skipped isFile =>
      exact ⟨_, Batch.patched_of_patches (.skipped (asked isFile).2), _, rfl, rfl⟩
  | unreadable isFile read =>
      obtain ⟨rfl, again⟩ := asked isFile
      obtain ⟨rfl, read⟩ := looked read
      rcases w.read_again accounts behind path with same | ⟨content, done, _⟩
      · rw [read] at same
        exact ⟨_, Batch.patched_of_patches (.unreadable again same), rfl⟩
      · rw [read] at done
        cases done
  | unchanged isFile read idle =>
      obtain ⟨rfl, again⟩ := asked isFile
      obtain ⟨rfl, read⟩ := looked read
      rcases w.read_again accounts behind path with same | ⟨content, done, changed, _⟩
      · rw [read] at same
        exact ⟨_, Batch.patched_of_patches (.unchanged again same idle), _, rfl, rfl⟩
      · rw [read] at done
        cases done
        rw [idle] at changed
        cases changed
  | unwritten isFile read changed dry =>
      rw [wet] at dry
      cases dry
  | @unwritable _ _ _ content failure isFile read changed _ write =>
      obtain ⟨rfl, again⟩ := asked isFile
      obtain ⟨rfl, read⟩ := looked read
      obtain ⟨there, _, written, _⟩ :=
        write_of_read (congrArg Prod.fst read) (applyRules batch.rules content).content
      have failed : (w.write finder.disk path (applyRules batch.rules content).content).run _ =
        (.error failure, _) := write
      rw [written] at failed
      cases failed
  | @written _ _ _ content isFile read changed _ write =>
      obtain ⟨rfl, again⟩ := asked isFile
      obtain ⟨rfl, read⟩ := looked read
      obtain ⟨there, _, written, reread⟩ :=
        write_of_read (congrArg Prod.fst read) (applyRules batch.rules content).content
      have put := congrArg Prod.snd (Eq.trans (Eq.symm write) written)
      dsimp only at put
      rw [← put] at reread
      rcases w.read_again accounts behind path with same | ⟨_, done, more, _⟩
      · rw [reread] at same
        exact ⟨_, Batch.patched_of_patches (.unchanged again same (lasting content)), _, rfl, rfl⟩
      · rw [done] at reread
        cases reread
        rw [lasting content] at more
        cases more

/-!
### A second course
-/

theorem outline_patched (finder : Finder) (w : Workspace) (batch : Batch) (path : String)
    (distinct : t.Distinct) :
    (batch.patched (w.sandbox finder.disk) path t).2.outline = t.outline := by
  rcases tree_of_patches (Batch.patches_patched batch (w.sandbox finder.disk) path t) with
    ⟨same, _⟩ | ⟨_, there, bytes, content, _, reaches, _, _, _, put⟩
  · rw [same]
  · rw [put]
    exact Tree.outline_write distinct reaches _

/-- A batch leaves the outline of the tree as it is. -/
theorem outline_course (finder : Finder) (w : Workspace) (batch : Batch) (paths : List String)
    (distinct : t.Distinct) :
    (batch.course (w.sandbox finder.disk) t paths).state.outline = t.outline := by
  refine Batch.course_preserves (p := fun s : Tree => s.outline = t.outline) paths ?_ t rfl
  intro path _ s same
  rw [outline_patched finder w batch path (Tree.distinct_of_outline same.symm distinct), same]

/-- A visit that let the batch go on lets it go on again. -/
theorem settle_again {batch : Batch} {result again : Except Failure Outcome} {outcome : Outcome}
    (patches : Batch.Patches batch (w.sandbox finder.disk) path t result u)
    (patches' : Batch.Patches batch (w.sandbox finder.disk) path v again v)
    (repeats : Batch.Repeats result again) (settled : batch.settle path result = .ok outcome) :
    ∃ outcome', batch.settle path again = .ok outcome' ∧ outcome'.isFixed = false ∧
      outcome'.isFailed = outcome.isFailed := by
  cases result with
  | ok done =>
      obtain ⟨outcome', rfl, unfixed⟩ := repeats
      cases settled
      refine ⟨outcome', rfl, unfixed, ?_⟩
      rw [Batch.not_isFailed_of_patches patches, Batch.not_isFailed_of_patches patches']
  | error failure =>
      cases repeats
      rcases Batch.outcome_of_settle settled with done | ⟨_, _, rfl⟩
      · cases done
      · exact ⟨_, settled, rfl, rfl⟩

/-- A batch that goes over the same paths again changes and fixes nothing, and it fails on the same
paths and ends at the same one. -/
theorem course_again (finder : Finder) (w : Workspace) {batch : Batch} (lasting : Lasting batch.rules)
    (wet : batch.dryRun = false) (paths : List String) :
    ∀ {t : Tree}, t.Distinct →
      let course := batch.course (w.sandbox finder.disk) t paths
      let again := batch.course (w.sandbox finder.disk) course.state paths
      again.state = course.state ∧ again.stop = course.stop ∧
        (∀ outcome ∈ again.outcomes, outcome.isFixed = false) ∧
        again.outcomes.countP Outcome.isFailed = course.outcomes.countP Outcome.isFailed := by
  induction paths with
  | nil => exact fun _ => ⟨rfl, rfl, nofun, rfl⟩
  | cons path paths ih =>
      intro t distinct
      have behind := outline_patched finder w batch path distinct
      have distinct' := Tree.distinct_of_outline behind.symm distinct
      have patches := Batch.patches_patched batch (w.sandbox finder.disk) path t
      have revisit {v : Tree} {fixed : Location → Prop}
          (accounts : Accounts batch.rules (batch.patched (w.sandbox finder.disk) path t).2 v fixed)
          (same : (batch.patched (w.sandbox finder.disk) path t).2.outline = v.outline) :=
        w.patched_again lasting wet accounts (behind.symm.trans same) same
      cases settled : batch.settle path (batch.patched (w.sandbox finder.disk) path t).1 with
      | error failure =>
          obtain ⟨again, visited, repeats⟩ := revisit (Accounts.refl _ _) rfl
          have stays : batch.settle path again = .error failure := by
            rcases result : (batch.patched (w.sandbox finder.disk) path t).1 with first | outcome
            · rw [result] at repeats settled
              rw [repeats, settled]
            · rw [result] at settled
              cases settled
          simp [Batch.course, settled, visited, stays]
      | ok outcome =>
          obtain ⟨state, stop, unfixed, failed⟩ := ih distinct'
          obtain ⟨again, visited, repeats⟩ := revisit
            (accounts_course finder w lasting paths (Accounts.refl _ _))
            (outline_course finder w batch paths distinct').symm
          have patches' := Batch.patches_patched batch (w.sandbox finder.disk) path
            (batch.course (w.sandbox finder.disk) (batch.patched (w.sandbox finder.disk) path t).2
              paths).state
          rw [visited] at patches'
          obtain ⟨outcome', stays, idle, alike⟩ := settle_again patches patches' repeats settled
          simp only [Batch.course, settled, visited, stays, Course.cons]
          refine ⟨state, stop, List.forall_mem_cons.mpr ⟨idle, unfixed⟩, ?_⟩
          rw [List.countP_cons, List.countP_cons, failed, alike]

end Workspace

end SuperCalls
