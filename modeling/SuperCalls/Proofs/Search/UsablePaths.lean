/-
Module: SuperCalls.Proofs.Search.UsablePaths
Purpose: What a search finds can be used, whatever the search is, as long as it finds absolute paths.
  They lie inside the boundary in both spellings, and the spelling from the work directory is
  resolved to the normal form of the absolute one.
Main exports: normalised, Workspace.Admits, Workspace.run_find, Workspace.found_usable
-/
import SuperCalls.Proofs.Paths.Relative
import SuperCalls.Proofs.Workspace.Refusals

namespace SuperCalls

open Location

variable {σ : Type}

/-!
### Absolute paths
-/

/-- The normal form of an absolute path. -/
def normalised (path : String) : String :=
  (Location.resolve [] path).text

theorem normal_resolve_root (path : String) : (Location.resolve [] path).Normal :=
  normal_resolve (fun _ member => (List.not_mem_nil member).elim) path

namespace Workspace

/-!
### Searches
-/

/-- The directory that a search starts from. -/
def startOf (w : Workspace) (options : FindOptions) : Location :=
  match options.directory with
  | some path => if path = "" then w.workDir else w.location path
  | none => w.workDir

/-- A search finds what a pattern finds from its directory, less what is outside. -/
theorem run_find (w : Workspace) (disk : Disk (StateM σ)) (pattern : String) (options : FindOptions)
    (s : σ) :
    (w.find disk pattern options).run s =
      match (disk.search (w.startOf options) options.dot pattern options.ignored).run s with
      | (.error failure, u) => (.error failure, u)
      | (.ok found, u) =>
          (.ok (if options.absolute then found.filter w.isInside
            else (found.filter w.isInside).map fun path =>
              w.workDir.relative (Location.resolve [] path)), u) := by
  unfold find startOf location
  rw [run_bind]
  generalize (disk.search _ options.dot pattern options.ignored).run s = ran
  rcases ran with ⟨failure | found, u⟩
  · rfl
  · simp only
    split <;> rfl

/-- No call on a path is refused for being outside the boundary. -/
def Admits (w : Workspace) (disk : Disk (StateM σ)) (path : String) : Prop :=
  ∀ (s : σ) (content message : String) (about : Option String),
    let outside : Failure := .coded .pathOutsideWorkDir message about
    ((w.isFile disk path).run s).1 ≠ .error outside ∧
      ((w.read disk path).run s).1 ≠ .error outside ∧
      ((w.write disk path content).run s).1 ≠ .error outside

theorem admits_of_inside {w : Workspace} {path : String} (inside : w.isInside path = true)
    (disk : Disk (StateM σ)) : w.Admits disk path := by
  intro s content message about outside
  refine ⟨?_, ?_, ?_⟩
  · exact (uniform_isFile w path disk s).ne_outside inside (by decide) message about
  · exact (uniform_read w path disk s).ne_outside inside (by decide) message about
  · exact (uniform_write w path disk s content).ne_outside inside (by decide) message about

section Relative

variable (w : Workspace) (path : String)

/-- The path from the work directory to where an absolute path leads. -/
def shortened : String :=
  w.workDir.relative (Location.resolve [] path)

theorem isAbsolute_shortened : isAbsolute (w.shortened path) = false :=
  isAbsolute_relative (normal_resolve_root path) w.workDir

/-- A path from the work directory is resolved to the normal form of the absolute path. -/
theorem resolve_shortened : w.resolve (w.shortened path) = normalised path := by
  rw [resolve_of_relative (w.isAbsolute_shortened path), shortened,
    resolve_relative (normal_resolve_root path)]
  rfl

variable {w path}

/-- The path from the work directory is inside if the absolute path is. -/
theorem isInside_shortened (normal : w.workDir.Normal) (absolute : isAbsolute path) :
    w.isInside (w.shortened path) = w.isInside path := by
  have here : w.location path = Location.resolve [] path := by
    unfold location Workspace.resolve
    rw [if_pos absolute]
  have there : w.location (w.shortened path) = Location.resolve [] path := by
    rw [location_eq normal, shortened, resolve_relative (normal_resolve_root path)]
  unfold isInside
  rw [here, there]

/-- Paths that are inside are so in either spelling. -/
theorem isInside_of_found (normal : w.workDir.Normal) {found : List String}
    (absolute : ∀ path ∈ found, isAbsolute path) {path : String}
    (member : path ∈ found.filter w.isInside ++ (found.filter w.isInside).map w.shortened) :
    w.isInside path = true := by
  rcases List.mem_append.mp member with own | other
  · exact (List.mem_filter.mp own).2
  · obtain ⟨entry, kept, rfl⟩ := List.mem_map.mp other
    obtain ⟨listed, passes⟩ := List.mem_filter.mp kept
    rw [isInside_shortened normal (absolute entry listed)]
    exact passes

end Relative

/-- What is found is told by absolute paths or by paths from the work directory; where the one fails the
other one does.  Whatever absolute paths a disk finds, those that are told are the ones inside the
boundary, and so are the paths from the work directory, so that no call on either is refused for being
outside.  The latter do not start from the root, and they are resolved, one by one, to the normal
forms of the former: to these themselves exactly if all of them are in normal form. -/
theorem found_usable {cwd : Location} (normal : cwd.Normal) (options : WorkspaceOptions)
    (disk : Disk (StateM σ)) (s : σ) (pattern : String) (wanted : FindOptions)
    (absolute : ∀ found,
      ((disk.search ((ofOptions cwd options).startOf wanted) wanted.dot pattern
        wanted.ignored).run s).1 = .ok found →
      ∀ path ∈ found, isAbsolute path) :
    let w := ofOptions cwd options
    let ask (absolute : Bool) := (w.find disk pattern { wanted with absolute }).run s
    (∃ failure u, ask true = (.error failure, u) ∧ ask false = (.error failure, u)) ∨
    ∃ direct shown u, ask true = (.ok direct, u) ∧ ask false = (.ok shown, u) ∧
      (∃ found, (disk.search (w.startOf wanted) wanted.dot pattern wanted.ignored).run s =
        (.ok found, u) ∧ direct = found.filter w.isInside) ∧
      (∀ path ∈ direct ++ shown, w.isInside path ∧ w.Admits disk path) ∧
      (∀ path ∈ shown, isAbsolute path = false) ∧
      shown.map w.resolve = direct.map normalised ∧
      (shown.map w.resolve = direct ↔ ∀ path ∈ direct, normalised path = path) := by
  have plain : (ofOptions cwd options).workDir.Normal := normal_ofOptions normal options
  generalize ofOptions cwd options = w at plain absolute
  intro _ ask
  have direct : ask true = _ := w.run_find disk pattern { wanted with absolute := true } s
  have shown : ask false = _ := w.run_find disk pattern { wanted with absolute := false } s
  have same (absolute : Bool) : w.startOf { wanted with absolute } = w.startOf wanted := rfl
  simp only [same, if_true, Bool.false_eq_true, if_false] at direct shown
  rcases searched : (disk.search (w.startOf wanted) wanted.dot pattern wanted.ignored).run s
    with ⟨failure | found, u⟩
  all_goals rw [searched] at direct shown
  · exact Or.inl ⟨failure, u, direct, shown⟩
  have rooted : ∀ path ∈ found, isAbsolute path := absolute found (congrArg Prod.fst searched)
  have leads : ((found.filter w.isInside).map w.shortened).map w.resolve =
      (found.filter w.isInside).map normalised := by
    rw [List.map_map]
    exact List.map_congr_left fun path _ => w.resolve_shortened path
  refine Or.inr ⟨found.filter w.isInside, (found.filter w.isInside).map w.shortened, u, direct, shown,
    ⟨found, rfl, rfl⟩, fun path member => ?_, fun path member => ?_, leads, ?_⟩
  · have inside := isInside_of_found plain rooted member
    exact ⟨inside, admits_of_inside inside disk⟩
  · obtain ⟨entry, -, rfl⟩ := List.mem_map.mp member
    exact w.isAbsolute_shortened entry
  · rw [leads]
    simpa only [List.map_id, id_eq] using
      List.map_inj_left (f := normalised) (g := id) (l := found.filter w.isInside)

/-- A file in an allowed directory beside the work directory is found by a path that goes back, and is
resolved to where it is. -/
theorem found_usable_allowed :
    let cwd : Location := ["r"]
    let w := ofOptions cwd ⟨some "w", none, ["lib"]⟩
    let t : Tree := ⟨[(["r"], .directory), (["r", "w"], .directory), (["r", "lib"], .directory),
      (["r", "lib", "a"], .file [])]⟩
    cwd.Normal ∧
    ((w.find Glob.finder.disk "*" ⟨some "../lib", [], false, true⟩).run t).1 = .ok ["/r/lib/a"] ∧
    ((w.find Glob.finder.disk "*" ⟨some "../lib", [], false, false⟩).run t).1 = .ok ["../lib/a"] ∧
    w.Admits Glob.finder.disk "/r/lib/a" ∧ w.Admits Glob.finder.disk "../lib/a" ∧
    isAbsolute "../lib/a" = false ∧ w.resolve "../lib/a" = normalised "/r/lib/a" := by
  intro cwd w t
  have normal : cwd.Normal := by decide
  have direct : ((w.find Glob.finder.disk "*" ⟨some "../lib", [], false, true⟩).run t).1 =
      .ok ["/r/lib/a"] := by
    decide +kernel
  have shown : ((w.find Glob.finder.disk "*" ⟨some "../lib", [], false, false⟩).run t).1 =
      .ok ["../lib/a"] := by
    decide +kernel
  rcases found_usable normal ⟨some "w", none, ["lib"]⟩ Glob.finder.disk t "*"
    ⟨some "../lib", [], false, true⟩ fun _ => Glob.finder.isAbsolute_of_search
    with ⟨failure, u, failed, -⟩ | ⟨absolutes, relatives, u, found, also, -, inside, relative, leads, -⟩
  · cases direct.symm.trans (congrArg Prod.fst failed)
  · cases direct.symm.trans (congrArg Prod.fst found)
    cases shown.symm.trans (congrArg Prod.fst also)
    refine ⟨normal, direct, shown, (inside _ ?_).2, (inside _ ?_).2, relative _ ?_, ?_⟩
    · decide
    · decide
    · decide
    · rw [List.map_cons, List.map_cons] at leads
      exact List.head_eq_of_cons_eq leads

/-- Whatever the search is, if it finds an absolute path with two slashes in a row, then that is what is
told, but not what its path from the work directory is resolved to.  The search by patterns finds a file
by such a path if the name of the file holds two backslashes. -/
theorem backslashes_not_normalised :
    let cwd : Location := ["w"]
    let w := ofOptions cwd ⟨none, none, []⟩
    let t : Tree := ⟨[(["w"], .directory), (["w", "a\\\\b"], .file [])]⟩
    let tells (disk : Disk (StateM Tree)) : Prop :=
      ((w.find disk "*" ⟨none, [], false, true⟩).run t).1 = .ok ["/w/a//b"] ∧
      ((w.find disk "*" ⟨none, [], false, false⟩).run t).1 = .ok ["a/b"]
    cwd.Normal ∧ isAbsolute "/w/a//b" ∧
    (∀ disk, (disk.search w.workDir false "*" []).run t = (.ok ["/w/a//b"], t) → tells disk) ∧
    tells Tree.disk ∧
    ["a/b"].map w.resolve ≠ ["/w/a//b"] := by
  intro cwd w t tells
  refine ⟨by decide, by decide, fun disk found => ?_, ⟨by decide +kernel, by decide +kernel⟩,
    by decide +kernel⟩
  have start (absolute : Bool) : w.startOf ⟨none, [], false, absolute⟩ = w.workDir := rfl
  constructor
  · rw [run_find, start, found]
    decide +kernel
  · rw [run_find, start, found]
    decide +kernel

end Workspace

end SuperCalls
