/-
Module: SuperCalls.Proofs.Workspace.MemoryMirror
Purpose: A batch over a disk and the same batch over a memory store that holds the texts of the disk.
  Both find the same texts under tidy paths, so they make the same of them; and what is written to the
  one is put in the other.
Main exports: Workspace.patched_tidy, MemoryStore.ofTree, MemoryStore.Holds, Workspace.Mirrors,
  Workspace.batch_mirrored_by_memory
-/
import SuperCalls.Proofs.Batch.DryRuns
import SuperCalls.Proofs.Workspace.TidyPaths

namespace SuperCalls

open Location
open Text.Utf8 (encode)

/-!
### One visit
-/

/-- The tree behind a visit to a file. -/
def Tree.visited (t : Tree) (location : Location) (visit : Visit) : Tree :=
  match visit.written with
  | none => t
  | some text => t.put location (.file (encode text))

/-- A batch makes of a tidy path what it makes of the text under it. -/
theorem Workspace.patched_tidy {finder : Finder} {w : Workspace} {t : Tree} {path : String}
    (ordinary : t.Ordinary)
    (legal : ∀ name ∈ w.workDir, Tree.Legal name) (tidy : w.Tidy path) (batch : Batch) :
    batch.patched (w.sandbox finder.disk) path t =
      ((batch.visit path ⟨t.textAt? (w.location path), none, none, none⟩).result,
        t.visited (w.location path)
          (batch.visit path ⟨t.textAt? (w.location path), none, none, none⟩)) := by
  have asked := run_isFile_tidy finder ordinary legal tidy
  cases found : t.textAt? (w.location path) with
  | none =>
      rw [found] at asked
      exact Batch.patched_of_patches (.skipped asked)
  | some text =>
      rw [found] at asked
      have read := run_read_tidy finder ordinary legal tidy found
      unfold Tree.visited
      cases changed : (applyRules batch.rules text).changed with
      | false =>
          rw [Batch.visit_unchanged batch path changed]
          exact Batch.patched_of_patches (.unchanged asked read changed)
      | true =>
          obtain ⟨result, written⟩ := Batch.visit_changed batch path changed
          rw [result, written]
          cases dry : batch.dryRun with
          | true => exact Batch.patched_of_patches (.unwritten asked read changed dry)
          | false =>
              have wrote := run_write_tidy finder ordinary legal tidy found
                (applyRules batch.rules text).content
              exact Batch.patched_of_patches (.written asked read changed dry wrote)

/-!
### Texts of a tree and of a store
-/

namespace MemoryStore

variable {store : MemoryStore} {base : Location} {t : Tree}

/-- The store that holds the texts of a tree under their paths from a directory. -/
def ofTree (base : Location) (t : Tree) : MemoryStore where
  files := t.entries.filterMap fun (location, _) =>
    (t.textAt? location).map fun text => (base.relative location, text)
  faults := []
  found := []
  calls := []

/-- A store holds the texts of a tree under their paths from a directory, and nothing else. -/
def Holds (store : MemoryStore) (base : Location) (t : Tree) : Prop :=
  ∀ key text, store.get? key = some text ↔
    ∃ location, t.entry? location = some (.file (encode text)) ∧ base.relative location = key

theorem Holds.get?_relative (held : store.Holds base t) (ordinary : t.Ordinary)
    {location : Location} (normal : location.Normal) :
    store.get? (base.relative location) = t.textAt? location := by
  apply Option.ext
  intro text
  rw [held, Tree.textAt?_eq_some_iff]
  constructor
  · rintro ⟨other, found, same⟩
    have plain := ordinary.normal_of_text (Tree.textAt?_eq_some_iff.mpr found)
    rwa [relative_injective plain normal same] at found
  · intro found
    exact ⟨location, found, rfl⟩

/-- A text that is put under the path of a file is held where the file has got it too. -/
theorem Holds.put (held : store.Holds base t) (ordinary : t.Ordinary) {there : Location}
    {old : String} (found : t.textAt? there = some old) (text : String) :
    (store.put (base.relative there) text).Holds base (t.put there (.file (encode text))) := by
  intro key content
  have before := held key content
  simp only [← Tree.textAt?_eq_some_iff] at before
  simp only [get?_put, ← Tree.textAt?_eq_some_iff, Tree.textAt?_put found]
  by_cases own : key = base.relative there
  · subst own
    rw [if_pos rfl]
    constructor
    · intro same
      exact ⟨there, (if_pos rfl).trans same, rfl⟩
    · rintro ⟨location, stands, same⟩
      have here : location = there := by
        by_contra apart
        rw [if_neg apart] at stands
        have plain := ordinary.normal_of_text stands
        exact apart (relative_injective plain (ordinary.normal_of_text found) same)
      rwa [if_pos here] at stands
  · rw [if_neg own, before]
    have apart {location : Location} (same : base.relative location = key) : location ≠ there := by
      rintro rfl
      exact own same.symm
    constructor
    · rintro ⟨location, stands, same⟩
      exact ⟨location, (if_neg (apart same)).trans stands, same⟩
    · rintro ⟨location, stands, same⟩
      rw [if_neg (apart same)] at stands
      exact ⟨location, stands, same⟩

theorem mem_ofTree {key text : String} :
    (key, text) ∈ (ofTree base t).files ↔
      ∃ location, t.entry? location = some (.file (encode text)) ∧ base.relative location = key := by
  unfold ofTree
  rw [List.mem_filterMap]
  constructor
  · rintro ⟨⟨location, _⟩, _, here⟩
    obtain ⟨_, found, same⟩ := Option.map_eq_some_iff.mp here
    cases same
    exact ⟨location, Tree.textAt?_eq_some_iff.mp found, rfl⟩
  · rintro ⟨location, found, rfl⟩
    have named : location ≠ [] := by
      rintro rfl
      cases found
    have listed := Tree.mem_of_lookup (Tree.entry?_of_ne named ▸ found)
    refine ⟨_, listed, ?_⟩
    simp only [Tree.textAt?_eq_some_iff.mpr found, Option.map_some]

/-- The store that is made of a tree holds its texts. -/
theorem holds_ofTree (ordinary : t.Ordinary) (base : Location) : (ofTree base t).Holds base t := by
  intro key text
  constructor
  · intro found
    exact mem_ofTree.mp (Tree.mem_of_lookup found)
  · intro held
    cases found : (ofTree base t).get? key with
    | none =>
        have absent := List.lookup_eq_none_iff.mp found _ (mem_ofTree.mpr held)
        exact absurd absent (by simp)
    | some other =>
        obtain ⟨location, present, rfl⟩ := held
        obtain ⟨there, stands, same⟩ := mem_ofTree.mp (Tree.mem_of_lookup found)
        rw [← Tree.textAt?_eq_some_iff] at present stands
        have here := relative_injective (ordinary.normal_of_text stands)
          (ordinary.normal_of_text present) same
        rwa [here, present, eq_comm] at stands

theorem faultless_ofTree (base : Location) (t : Tree) : (ofTree base t).Faultless :=
  fun _ _ => rfl

end MemoryStore

namespace Workspace

variable {finder : Finder} {w : Workspace} {before t : Tree} {store : MemoryStore}
  {paths : List String} {path : String}

/-- While a batch runs, a store holds what a tree has become, and in the tree only files of listed
paths have got other texts. -/
structure Mirrors (w : Workspace) (before : Tree) (paths : List String) (t : Tree)
    (store : MemoryStore) : Prop where
  ordinary : t.Ordinary
  held : store.Holds w.workDir t
  faultless : store.Faultless
  kept : ∀ location, t.entry? location = before.entry? location ∨
    ∃ path ∈ paths, w.location path = location ∧ ∃ old new,
      before.entry? location = some (.file (encode old)) ∧
        t.entry? location = some (.file (encode new))

namespace Mirrors

theorem start (ordinary : t.Ordinary) (w : Workspace) (paths : List String) :
    w.Mirrors t paths t (MemoryStore.ofTree w.workDir t) where
  ordinary := ordinary
  held := MemoryStore.holds_ofTree ordinary w.workDir
  faultless := MemoryStore.faultless_ofTree w.workDir t
  kept _ := Or.inl rfl

variable (mirrors : w.Mirrors before paths t store) (legal : ∀ name ∈ w.workDir, Tree.Legal name)
  (tidy : w.Tidy path)

include mirrors legal tidy

theorem get?_eq : store.get? path = t.textAt? (w.location path) := by
  have key := mirrors.held.get?_relative mirrors.ordinary (w.normal_location path)
  rwa [tidy.relative_location legal] at key

/-- What is put in the store is written to the tree. -/
theorem put (listed : path ∈ paths) {old : String}
    (found : t.textAt? (w.location path) = some old) (calls : List Call) (text : String) :
    w.Mirrors before paths (t.put (w.location path) (.file (encode text)))
      ((store.recording calls).put path text) := by
  have file := Tree.textAt?_eq_some_iff.mp found
  have put := Tree.put_file file (encode text)
  constructor
  · exact mirrors.ordinary.put_text found text
  · have put := mirrors.held.put mirrors.ordinary found text
    rw [tidy.relative_location legal] at put
    exact put
  · exact mirrors.faultless
  · intro location
    rw [put]
    by_cases here : location = w.location path
    · rw [if_pos here]
      subst here
      -- the file may have been written before; what it began with is then known from that time
      rcases mirrors.kept (w.location path) with same | ⟨_, _, _, first, _, original, _⟩
      · rw [file] at same
        exact Or.inr ⟨path, listed, rfl, old, text, same.symm, rfl⟩
      · exact Or.inr ⟨path, listed, rfl, first, text, original, rfl⟩
    · rw [if_neg here]
      exact mirrors.kept location

/-- Both sandboxes make the same of a tidy path. -/
theorem patched (listed : path ∈ paths) (batch : Batch) :
    (batch.patched (w.sandbox finder.disk) path t).1 =
        (batch.patched MemoryStore.sandbox path store).1 ∧
      w.Mirrors before paths (batch.patched (w.sandbox finder.disk) path t).2
        (batch.patched MemoryStore.sandbox path store).2 := by
  rw [patched_tidy mirrors.ordinary legal tidy, MemoryStore.patched_eq, mirrors.faultless.share_eq,
    mirrors.get?_eq legal tidy]
  refine ⟨rfl, ?_⟩
  generalize visit : batch.visit path ⟨t.textAt? (w.location path), none, none, none⟩ = paid
  unfold Tree.visited MemoryStore.visited
  cases written : paid.written with
  | none => exact ⟨mirrors.ordinary, mirrors.held, mirrors.faultless, mirrors.kept⟩
  | some text =>
      rw [← visit] at written
      obtain ⟨_, old, found, _⟩ := Batch.changed_of_written written
      exact mirrors.put legal tidy listed found paid.calls text

end Mirrors

/-- In an ordinary tree a batch over a work directory tells of tidy paths what it tells over the store
that holds the texts of the tree.  At its end the store holds the texts that the tree has then; and
nothing in the tree is another, except for the texts of listed files. -/
theorem batch_mirrored_by_memory {ν : Type} (finder : Finder) (w : Workspace) {t : Tree}
    (ordinary : t.Ordinary) (work : t.entry? w.workDir = some .directory) {paths : List String}
    (tidy : ∀ path ∈ paths, w.Tidy path) (rules : List Rule) (dryRun : Bool) (policy : ErrorPolicy)
    (bus : Bus Event ν) :
    let store := MemoryStore.ofTree w.workDir t
    let real := (Batch.run ⟨rules, dryRun, policy⟩ (w.sandbox finder.disk) bus paths).run t
    let mirrored := memoryRun rules dryRun bus store policy paths
    store.Holds w.workDir t ∧ real.1 = mirrored.1 ∧
      (bus.Calm → ∃ report, real.1.2 = .ok report) ∧ mirrored.2.Holds w.workDir real.2 ∧
      ∀ location, Tree.entry? real.2 location = t.entry? location ∨
        ∃ path ∈ paths, w.location path = location ∧ ∃ old new,
          t.entry? location = some (.file (encode old)) ∧
            Tree.entry? real.2 location = some (.file (encode new)) := by
  intro store real mirrored
  have legal : ∀ name ∈ w.workDir, Tree.Legal name := ordinary.legal w.workDir (by rw [work]; rfl)
  have start := Mirrors.start ordinary w paths
  obtain ⟨same, mirrors⟩ := Batch.runFrom_simulates ⟨rules, dryRun, policy⟩
    (fun path listed t store mirrors => mirrors.patched legal (tidy path listed) listed _)
    bus .start t store start
  refine ⟨start.held, same, fun calm => ?_, mirrors.held, mirrors.kept⟩
  have told := memoryRun_of_faultless rules dryRun policy calm start.faultless paths
  exact ⟨_, (congrArg Prod.snd same).trans told⟩

/-- A file in a directory is patched and one that begins with a byte-order mark is read; a directory and
a path through a file are passed over. -/
theorem batch_mirrored_by_memory_nested :
    let t : Tree := ⟨[(["r"], .directory), (["r", "w"], .directory), (["r", "w", "d"], .directory),
      (["r", "w", "d", "A.java"], .file (encode "super(1);")),
      (["r", "w", "B.java"], .file (encode "\uFEFFsuper();")), (["r", "o"], .file [])]⟩
    let w : Workspace := ⟨["r", "w"], true, []⟩
    let paths := ["d/A.java", "B.java", "d", "B.java/x"]
    let bus : Bus Event Nat := Bus.empty
    let sandbox := w.sandbox Glob.finder.disk
    let real := (Batch.run ⟨superCallRules "", false, .continue⟩ sandbox bus paths).run t
    let mirrored := memoryRun (superCallRules "") false bus (MemoryStore.ofTree w.workDir t) .continue
      paths
    real.1 = mirrored.1 ∧ (∃ report, real.1.2 = .ok report) ∧
      mirrored.2.get? "d/A.java" = some "super();\nsetWeight(1);" ∧
      ∃ location, Tree.entry? real.2 location = some (.file (encode "super();\nsetWeight(1);")) ∧
        w.workDir.relative location = "d/A.java" := by
  intro t w paths bus sandbox real mirrored
  have ordinary : t.Ordinary := Tree.Ordinary.of_sound (by decide +kernel)
  have tidy : ∀ path ∈ paths, w.Tidy path := by
    intro path listed
    simp only [paths, List.mem_cons, List.not_mem_nil, or_false] at listed
    rcases listed with rfl | rfl | rfl | rfl <;> exact ⟨by decide, by decide⟩
  have calm : bus.Calm := (Bus.Peaceful.of_nobody rfl).calm
  obtain ⟨_, same, told, held, _⟩ :=
    batch_mirrored_by_memory Glob.finder w ordinary (by decide) tidy (superCallRules "") false
      .continue bus
  have text : mirrored.2.get? "d/A.java" = some "super();\nsetWeight(1);" := by decide +kernel
  obtain ⟨report, done⟩ := told calm
  refine ⟨same, ⟨report, ?_⟩, text, (held _ _).mp text⟩
  rw [← done]

end Workspace

end SuperCalls
