/-
Module: SuperCalls.Proofs.Workspace.ChangedFiles
Purpose: What a batch changes on a disk.  The files that change are those that the paths of fixed
  outcomes lead to, and each of them changes once, to the patched text.
Main exports: Lasting, Accounts, Accounts.changed_iff, Workspace.accounts_course
-/
import SuperCalls.Proofs.Batch.Course
import SuperCalls.Proofs.Command.Lookups
import SuperCalls.Proofs.Rules.Idempotence
import SuperCalls.Proofs.Text.Utf8
import SuperCalls.Proofs.Tree.Paths

namespace SuperCalls

open Text.Utf8 (decode? encode decode?_encode)

/-!
### Changed trees
-/

/-- Patching a second time changes nothing. -/
def Lasting (rules : List Rule) : Prop :=
  ∀ content, (applyRules rules (applyRules rules content).content).changed = false

/-- The rules for super calls last if no call stands in the indent. -/
theorem lasting_superCallRules {indent : String} (free : ¬ HasCall indent.toList) :
    Lasting (superCallRules indent) := by
  intro content
  rw [applyRules_of_chars (reads_applyRules free content)]

/-- The first character of a text stays the first one. -/
theorem head?_applyRules {indent : String} (free : ¬ HasCall indent.toList) (content : String) :
    (applyRules (superCallRules indent) content).content.toList.head? = content.toList.head? := by
  obtain ⟨pieces, text, _, patched⟩ := exists_patched free content
  rw [patched, ← text]
  cases pieces with
  | nil => rfl
  | cons piece pieces =>
      cases piece with
      | char c => rfl
      | call call =>
          rw [source_call, SuperCall.text_eq]
          cases call with
          | one weight =>
              rw [List.flatMap_cons, Piece.settled, SuperCall.setters_one]
              rfl
          | two weight lead enabled trail =>
              rw [List.flatMap_cons, Piece.settled, SuperCall.setters_two]
              rfl

/-- A tree differs from another one by the patched texts of some files. -/
structure Accounts (rules : List Rule) (before after : Tree) (fixed : Location → Prop) : Prop where
  shape : Tree.SameShape before after
  kept : ∀ location, ¬ fixed location → after.entry? location = before.entry? location
  patched : ∀ location, fixed location →
    ∃ bytes content, before.entry? location = some (.file bytes) ∧ decode? bytes = some content ∧
      (applyRules rules content).changed ∧
      after.entry? location = some (.file (encode (applyRules rules content).content))

namespace Accounts

variable {rules : List Rule} {before after : Tree} {fixed also : Location → Prop}

theorem refl (rules : List Rule) (t : Tree) : Accounts rules t t fun _ => False :=
  ⟨fun _ => Or.inl rfl, fun _ _ => rfl, fun _ impossible => impossible.elim⟩

theorem congr (accounts : Accounts rules before after fixed)
    (same : ∀ location, fixed location ↔ also location) : Accounts rules before after also := by
  have equal : fixed = also := funext fun location => propext (same location)
  rw [← equal]
  exact accounts

/-- A changed text is not the bytes that it was read from. -/
theorem encode_ne {bytes : List UInt8} {content : String} (read : decode? bytes = some content)
    (changed : (applyRules rules content).changed) :
    encode (applyRules rules content).content ≠ bytes := by
  intro same
  rw [← same, decode?_encode] at read
  have equal : (applyRules rules content).content = content := Option.some.inj read
  exact absurd equal (ne_of_beq_false (by simpa [applyRules] using changed))

/-- The files that are accounted for are those that changed. -/
theorem changed_iff (accounts : Accounts rules before after fixed) (location : Location) :
    after.entry? location ≠ before.entry? location ↔ fixed location := by
  constructor
  · intro changed
    by_contra other
    exact changed (accounts.kept location other)
  · intro here same
    obtain ⟨bytes, content, found, read, changed, now⟩ := accounts.patched location here
    rw [found, now] at same
    cases same
    exact encode_ne read changed rfl

/-- What was a file still is, and its bytes changed if it is accounted for. -/
theorem file (accounts : Accounts rules before after fixed) {location : Location}
    {bytes : List UInt8} (found : before.entry? location = some (.file bytes)) :
    ∃ left, after.entry? location = some (.file left) ∧ (left ≠ bytes ↔ fixed location) ∧
      (left ≠ bytes → ∃ content, decode? bytes = some content ∧
        left = encode (applyRules rules content).content) := by
  obtain ⟨left, now⟩ := accounts.shape.file found
  have same : left ≠ bytes ↔ fixed location := by
    rw [← accounts.changed_iff location, now, found]
    simp
  refine ⟨left, now, same, ?_⟩
  intro changed
  obtain ⟨others, content, original, read, _, patched⟩ := accounts.patched location (same.mp changed)
  rw [found] at original
  cases original
  rw [now] at patched
  cases patched
  exact ⟨content, read, rfl⟩

/-- A file that still has a text to be patched has not been patched before. -/
theorem put (accounts : Accounts rules before after fixed) (lasting : Lasting rules)
    {there : Location} {bytes : List UInt8} {content : String}
    (found : after.entry? there = some (.file bytes)) (read : decode? bytes = some content)
    (changed : (applyRules rules content).changed) :
    Accounts rules before
      (after.put there (.file (encode (applyRules rules content).content)))
      (fun location => fixed location ∨ location = there) := by
  have fresh : ¬ fixed there := by
    intro already
    obtain ⟨_, earlier, _, _, _, now⟩ := accounts.patched there already
    rw [now] at found
    cases found
    rw [decode?_encode] at read
    cases read
    rw [lasting] at changed
    cases changed
  have original : before.entry? there = some (.file bytes) := by
    rw [← accounts.kept there fresh, found]
  have entry (location : Location) := Tree.put_file found
    (encode (applyRules rules content).content) location
  constructor
  · intro location
    rw [entry]
    split
    · next here =>
        rw [here]
        exact Or.inr ⟨bytes, _, original, rfl⟩
    · exact accounts.shape location
  · intro location other
    rw [not_or] at other
    rw [entry, if_neg other.2]
    exact accounts.kept location other.1
  · rintro location (earlier | rfl)
    · have apart : location ≠ there := by
        rintro rfl
        exact fresh earlier
      rw [entry, if_neg apart]
      exact accounts.patched location earlier
    · rw [entry, if_pos rfl]
      exact ⟨bytes, content, original, read, changed, rfl⟩

end Accounts

/-!
### A batch over a disk
-/

namespace Workspace

variable {finder : Finder} {w : Workspace} {path content : String} {t u : Tree}

theorem run_disk_write (t : Tree) (path : String) (bytes : List UInt8) :
    (liftM (finder.disk.write path bytes) : ExceptT Failure (StateM Tree) _).run t =
      match t.write path bytes with
      | .ok changed => (.ok (.ok ()), changed)
      | .error error => (.ok (.error error), t) := by
  show (match finder.disk.write path bytes t with | (answer, s) => (Except.ok answer, s)) = _
  simp only [Finder.disk, Tree.calls]
  cases t.write path bytes <;> rfl

theorem guarded_eq {full : String} (passed : w.guarded path = .ok full) : full = w.resolve path := by
  unfold guarded at passed
  split at passed
  · cases passed
    rfl
  · cases passed

/-- A text that was read stands in the file that the path leads to. -/
theorem reaches_of_read (called : (w.read finder.disk path).run t = (.ok content, u)) :
    ∃ there bytes, t.Reaches (w.resolve path) there ∧ t.entry? there = some (.file bytes) ∧
      decode? bytes = some content := by
  unfold read at called
  split at called
  · cases called
  · next full passed =>
      obtain ⟨result, s, looked, rest⟩ := ok_of_run_bind called
      have answer : t.read full = result := by cases looked; rfl
      split at rest
      · cases rest
      · next bytes =>
          split at rest
          · next text decoded =>
              obtain ⟨there, reaches, found⟩ := Tree.reaches_of_read answer
              rw [guarded_eq passed] at reaches
              cases rest
              exact ⟨there, bytes, reaches, found, decoded⟩
          · cases rest

/-- A text is written to the file that the path leads to, or nothing is. -/
theorem tree_of_write {there : Location} (reaches : t.Reaches (w.resolve path) there)
    {result : Except Failure Unit}
    (called : (w.write finder.disk path content).run t = (result, u)) :
    (result = .ok () ∧ u = t.put there (.file (encode content))) ∨
      (∃ failure, result = .error failure) ∧ u = t := by
  unfold write at called
  split at called
  · next failure _ =>
      cases called
      exact Or.inr ⟨⟨failure, rfl⟩, rfl⟩
  · next full passed =>
      rw [run_bind, guarded_eq passed, run_disk_write] at called
      cases written : t.write (w.resolve path) (encode content) with
      | ok changed =>
          rw [written] at called
          cases called
          exact Or.inl ⟨rfl, Tree.write_eq_put reaches written⟩
      | error error =>
          rw [written] at called
          cases called
          exact Or.inr ⟨⟨_, rfl⟩, rfl⟩

/-- Patching a path writes the patched text to the file that it leads to, or changes nothing. -/
theorem tree_of_patches {batch : Batch} {result : Except Failure Outcome}
    (patches : Batch.Patches batch (w.sandbox finder.disk) path t result u) :
    (u = t ∧ ∀ outcome, result = .ok outcome → outcome.isFixed → batch.dryRun = true) ∨
    (batch.dryRun = false ∧ ∃ there bytes content,
      result = .ok ⟨path, .fixed, (applyRules batch.rules content).counts⟩ ∧
      t.Reaches (w.resolve path) there ∧ t.entry? there = some (.file bytes) ∧
      decode? bytes = some content ∧ (applyRules batch.rules content).changed ∧
      u = t.put there (.file (encode (applyRules batch.rules content).content))) := by
  have asked {s v : Tree} {answer : Except Failure Bool}
      (called : (w.isFile finder.disk path).run s = (answer, v)) : v = s := by
    rw [← steady_isFile finder.still_disk w path s, called]
  have looked {s v : Tree} {answer : Except Failure String}
      (called : (w.read finder.disk path).run s = (answer, v)) : v = s := by
    rw [← steady_read finder.still_disk w path s, called]
  cases patches with
  | unknown isFile => exact Or.inl ⟨asked isFile, nofun⟩
  | skipped isFile =>
      refine Or.inl ⟨asked isFile, fun outcome same fixed => ?_⟩
      cases same
      cases fixed
  | unreadable isFile read =>
      exact Or.inl ⟨(looked read).trans (asked isFile), nofun⟩
  | unchanged isFile read =>
      refine Or.inl ⟨(looked read).trans (asked isFile), fun outcome same fixed => ?_⟩
      cases same
      cases fixed
  | unwritten isFile read changed dry =>
      exact Or.inl ⟨(looked read).trans (asked isFile), fun _ _ _ => dry⟩
  | unwritable isFile read changed wet write =>
      obtain ⟨there, bytes, reaches, found, decoded⟩ := reaches_of_read read
      have before := (looked read).trans (asked isFile)
      rw [before] at write
      rw [asked isFile] at reaches
      rcases tree_of_write reaches write with ⟨done, _⟩ | ⟨_, same⟩
      · cases done
      · exact Or.inl ⟨same, nofun⟩
  | written isFile read changed wet write =>
      obtain ⟨there, bytes, reaches, found, decoded⟩ := reaches_of_read read
      have before := (looked read).trans (asked isFile)
      rw [before] at write
      rw [asked isFile] at reaches found
      rcases tree_of_write reaches write with ⟨_, put⟩ | ⟨⟨_, failed⟩, _⟩
      · exact Or.inr ⟨wet, there, bytes, _, rfl, reaches, found, decoded, changed, put⟩
      · cases failed

/-- The files that a batch changes are those that the paths of fixed outcomes lead to. -/
theorem accounts_course (finder : Finder) (w : Workspace) {batch : Batch} (lasting : Lasting batch.rules)
    {before : Tree} (paths : List String) {t : Tree} {fixed : Location → Prop}
    (accounts : Accounts batch.rules before t fixed) :
    let course := batch.course (w.sandbox finder.disk) t paths
    Accounts batch.rules before course.state fun location => fixed location ∨
      batch.dryRun = false ∧ ∃ outcome ∈ course.outcomes, outcome.isFixed ∧
        before.Reaches (w.resolve outcome.path) location := by
  induction paths generalizing t fixed with
  | nil => exact accounts.congr fun location => by simp [Batch.course]
  | cons path paths ih =>
      have patches := Batch.patches_patched batch (w.sandbox finder.disk) path t
      simp only [Batch.course]
      generalize batch.patched (w.sandbox finder.disk) path t = patched at patches ⊢
      obtain ⟨result, u⟩ := patched
      rcases tree_of_patches patches with
        ⟨rfl, unfixed⟩ | ⟨wet, there, bytes, content, rfl, reaches, found, decoded, changed, rfl⟩
      · -- the path changes nothing, so its outcome accounts for nothing
        cases settled : batch.settle path result with
        | error failure => exact accounts.congr fun location => by simp
        | ok outcome =>
            apply (ih accounts).congr
            intro location
            have idle : batch.dryRun = false → outcome.isFixed = false := by
              intro wet
              rcases Batch.outcome_of_settle settled with done | ⟨failure, _, rfl⟩
              · cases fixed : outcome.isFixed with
                | false => rfl
                | true =>
                    rw [unfixed outcome done fixed] at wet
                    cases wet
              · rfl
            constructor
            · rintro (earlier | ⟨wet, later, member, counted⟩)
              · exact Or.inl earlier
              · exact Or.inr ⟨wet, later, List.mem_cons_of_mem _ member, counted⟩
            · rintro (earlier | ⟨wet, later, member, counted⟩)
              · exact Or.inl earlier
              · rcases List.mem_cons.mp member with rfl | member
                · rw [idle wet] at counted
                  cases counted.1
                · exact Or.inr ⟨wet, later, member, counted⟩
      · -- the path leads to one file in the tree before the batch too
        have originally := reaches.of_sameShape accounts.shape.symm
        apply (ih (accounts.put lasting found decoded changed)).congr
        intro location
        constructor
        · rintro ((earlier | rfl) | ⟨_, later, member, counted⟩)
          · exact Or.inl earlier
          · exact Or.inr ⟨wet, _, List.mem_cons_self, rfl, originally⟩
          · exact Or.inr ⟨wet, later, List.mem_cons_of_mem _ member, counted⟩
        · rintro (earlier | ⟨_, later, member, counted⟩)
          · exact Or.inl (Or.inl earlier)
          · rcases List.mem_cons.mp member with rfl | member
            · exact Or.inl (Or.inr (counted.2.unique originally))
            · exact Or.inr ⟨wet, later, member, counted⟩

/-- A dry run changes nothing. -/
theorem state_of_dryRun (finder : Finder) (w : Workspace) {batch : Batch} (dry : batch.dryRun = true)
    (paths : List String) (t : Tree) :
    (batch.course (w.sandbox finder.disk) t paths).state = t := by
  induction paths generalizing t with
  | nil => rfl
  | cons path paths ih =>
      have same : (batch.patched (w.sandbox finder.disk) path t).2 = t := by
        rcases tree_of_patches (Batch.patches_patched batch (w.sandbox finder.disk) path t) with
          ⟨same, _⟩ | ⟨wet, _⟩
        · exact same
        · rw [dry] at wet
          cases wet
      rw [Batch.course, same]
      split
      · rfl
      · exact ih t

end Workspace

end SuperCalls
