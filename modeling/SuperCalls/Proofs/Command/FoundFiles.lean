/-
Module: SuperCalls.Proofs.Command.FoundFiles
Purpose: Whether the files that a search finds are there when they are asked for.  They are, as long as
  their paths hold no backslash and are not too long; so a run over what patterns find says of no other
  file than one with a backslash in its path that it was skipped.
Main exports: Workspace.given, Workspace.isFile_given, Workspace.resolve_given_eq_iff,
  Workspace.fileAt_of_find, Workspace.isFile_of_skipped, Command.found_files_there
-/
import SuperCalls.Proofs.Command.ExitCodes
import SuperCalls.Proofs.Config.Admission
import SuperCalls.Proofs.Config.RepeatedTargets
import SuperCalls.Proofs.Search.RegularFiles
import SuperCalls.Proofs.Search.UsablePaths

namespace SuperCalls

open Location

variable {validator : Validator} {finder : Finder}

/-!
### Names on the way to a file
-/

namespace Tree

variable {t : Tree} {location : Location}

/-- What all names of a tree are, the names on the way to a file are, apart from those that stay or go
back. -/
theorem Ends.names {property : String → Prop}
    (each : ∀ listed ∈ t.entries, ∀ name ∈ listed.1, property name) {links : Nat} {here : Location}
    {names : List String} {spot : Spot} (ends : t.Ends links here names spot)
    (stands : spot.entry ≠ none) : ∀ name ∈ names, Plain name → property name := by
  have own {here : Location} {name : String} {entry : Entry}
      (found : t.entry? (here ++ [name]) = some entry) : property name := by
    rw [entry?_of_ne (by simp)] at found
    exact each _ (mem_of_lookup found) name (by simp)
  induction ends with
  | here => nofun
  | stay still _ ih =>
      intro other member plain
      rcases List.mem_cons.mp member with rfl | later
      · exact absurd still (not_or.mpr ⟨plain.1, plain.2.1⟩)
      · exact ih stands other later plain
  | back _ ih =>
      intro other member plain
      rcases List.mem_cons.mp member with rfl | later
      · exact absurd rfl plain.2.2.1
      · exact ih stands other later plain
  | enter _ entered _ ih =>
      intro other member plain
      rcases List.mem_cons.mp member with rfl | later
      · exact own entered
      · exact ih stands other later plain
  | file _ found =>
      intro other member _
      rw [List.mem_singleton.mp member]
      exact own found
  | free => exact absurd rfl stands
  | link _ linked _ ih =>
      intro other member plain
      rcases List.mem_cons.mp member with rfl | later
      · exact own linked
      · exact ih stands other (List.mem_append_right _ later) plain

theorem FileAt.names (file : t.FileAt location) (normal : location.Normal) {property : String → Prop}
    (each : ∀ listed ∈ t.entries, ∀ name ∈ listed.1, property name) :
    ∀ name ∈ location, property name := by
  obtain ⟨there, bytes, ends⟩ := file
  intro name member
  exact ends.names each nofun name member (normal name member)

theorem FileAt.free_text (file : t.FileAt location) (normal : location.Normal)
    (each : ∀ listed ∈ t.entries, ∀ name ∈ listed.1, '\\' ∉ name.toList) :
    '\\' ∉ location.text.toList := by
  rw [mem_text normal (by decide)]
  rintro ⟨name, member, holds⟩
  exact file.names normal each name member holds

/-- A file can be asked about unless its path is too long. -/
theorem FileAt.stat_eq (file : t.FileAt location) (normal : location.Normal) (formed : t.Formed) :
    t.stat location.text =
      if pathLimit < location.text.utf8ByteSize then
        .error (.refused .nameTooLong .stat (some location.text))
      else .ok .file := by
  have free := Workspace.null_free_text (file.names normal formed.legal)
  have given : location.text ≠ "" := ne_empty_of_isAbsolute (isAbsolute_text location)
  obtain ⟨there, bytes, ends⟩ := file
  have followed := ends_iff.mp ((ends_text_iff normal).mpr ends)
  unfold stat locate
  rw [attempt_of_free free, if_neg given, followed]
  by_cases long : pathLimit < location.text.utf8ByteSize
  · rw [if_pos long, if_pos long]
    rfl
  · rw [if_neg long, if_neg long]
    rfl

end Tree

/-!
### Characters of normal forms
-/

/-- Names that are gone on by are kept, or left out. -/
theorem Location.mem_of_mem_foldl_step {names : List String} {base : Location} {name : String}
    (member : name ∈ names.foldl step base) : name ∈ base ∨ name ∈ names := by
  induction names generalizing base with
  | nil => exact .inl member
  | cons first names ih =>
      rcases ih member with early | later
      · unfold step at early
        split at early
        · exact .inl early
        split at early
        · exact .inl (List.dropLast_subset _ early)
        · rcases List.mem_append.mp early with before | own
          · exact .inl before
          · exact .inr (List.mem_cons.mpr (.inl (List.mem_singleton.mp own)))
      · exact .inr (List.mem_cons_of_mem _ later)

theorem free_normalised {c : Char} (other : c ≠ '/') {path : String} (free : c ∉ path.toList) :
    c ∉ (normalised path).toList := by
  unfold normalised
  rw [mem_text (normal_resolve_root path) other]
  rintro ⟨name, member, holds⟩
  unfold resolve at member
  rw [ite_self] at member
  have own := (mem_of_mem_foldl_step member).resolve_left List.not_mem_nil
  exact free ((mem_segments other path).mp ⟨name, own, holds⟩)

theorem free_slashed (path : String) : '\\' ∉ (slashed path).toList := by
  unfold slashed
  rw [String.toList_ofList, List.mem_map]
  rintro ⟨c, _, same⟩
  split at same
  · cases same
  · next other => exact other same

namespace Workspace

/-- How a search gives back a location: by its absolute path or by its path from the work directory,
with slashes in place of backslashes. -/
def given (w : Workspace) (absolute : Bool) (file : Location) : String :=
  if absolute then slashed file.text else w.shortened (slashed file.text)

variable {w : Workspace} {t : Tree} {file : Location}

/-- Without backslashes in it, a path that is given back leads to the location. -/
theorem resolve_given (normal : file.Normal) (free : '\\' ∉ file.text.toList) (absolute : Bool) :
    w.resolve (w.given absolute file) = file.text := by
  unfold given
  rw [slashed_of_free free]
  cases absolute with
  | true => exact if_pos (isAbsolute_text file)
  | false =>
      show w.resolve (w.shortened file.text) = file.text
      rw [resolve_shortened, normalised, resolve_text normal]

/-- A path that is given back leads to the location exactly if that has no backslash in its path. -/
theorem resolve_given_eq_iff (normal : file.Normal) (absolute : Bool) :
    w.resolve (w.given absolute file) = file.text ↔ '\\' ∉ file.text.toList := by
  refine ⟨fun same => ?_, fun free => resolve_given normal free absolute⟩
  rw [← same]
  cases absolute with
  | true =>
      have kept : w.resolve (slashed file.text) = slashed file.text :=
        if_pos (isAbsolute_slashed file)
      show '\\' ∉ (w.resolve (slashed file.text)).toList
      rw [kept]
      exact free_slashed file.text
  | false =>
      show '\\' ∉ (w.resolve (w.shortened _)).toList
      rw [resolve_shortened]
      exact free_normalised (by decide) (free_slashed file.text)

/-- A file that a search gives back is there when it is asked for, unless its path is too long. -/
theorem isFile_given (formed : t.Formed) (normal : file.Normal) (there : t.FileAt file)
    (free : '\\' ∉ file.text.toList) {absolute : Bool}
    (inside : w.isInside (w.given absolute file) = true) :
    ((w.isFile finder.disk (w.given absolute file)).run t).1 =
      if Tree.pathLimit < file.text.utf8ByteSize then
        .error (readFailure "stat" (w.given absolute file)
          (DiskError.refused .nameTooLong .stat (some file.text)).message)
      else .ok true := by
  rw [run_isFile, guarded_of_inside inside]
  simp only [resolve_given normal free, there.stat_eq normal formed]
  by_cases long : Tree.pathLimit < file.text.utf8ByteSize
  · simp only [if_pos long]
    rfl
  · simp only [if_neg long]
    rfl

/-- What is found are the files that the search shows, those inside the boundary. -/
theorem fileAt_of_find (normal : w.workDir.Normal) {pattern : String} {options : FindOptions}
    (shows : finder.ShowsFiles t (w.startOf options) options.dot pattern options.ignored)
    {found : List String} {u : Tree}
    (searched : (w.find finder.disk pattern options).run t = (.ok found, u)) :
    ∀ path ∈ found, w.isInside path = true ∧
      ∃ file : Location, file.Normal ∧ t.FileAt file ∧ path = w.given options.absolute file := by
  rw [run_find] at searched
  rcases ran : (finder.disk.search (w.startOf options) options.dot pattern options.ignored).run t
    with ⟨failure | all, v⟩
  · rw [ran] at searched
    cases searched
  · rw [ran] at searched
    have seen := shows all (congrArg Prod.fst ran)
    have absolute : ∀ path ∈ all, isAbsolute path :=
      finder.isAbsolute_of_search (congrArg Prod.fst ran)
    intro path member
    cases wanted : options.absolute with
    | true =>
        simp only [wanted, if_true] at searched
        cases searched
        obtain ⟨file, formed, there, same⟩ := seen path (List.mem_filter.mp member).1
        exact ⟨(List.mem_filter.mp member).2, file, formed, there, same⟩
    | false =>
        simp only [wanted, Bool.false_eq_true, if_false] at searched
        cases searched
        have inside := isInside_of_found normal absolute (List.mem_append_right _ member)
        obtain ⟨entry, kept, rfl⟩ := List.mem_map.mp member
        obtain ⟨file, formed, there, same⟩ := seen entry (List.mem_filter.mp kept).1
        refine ⟨inside, file, formed, there, ?_⟩
        rw [same]
        rfl

end Workspace

/-!
### Runs
-/

namespace Command

/-- The work directory of a run is normal if the directory that it is started in is. -/
theorem normal_of_planned {tree : Tree} {cwd : Location} (rooted : cwd.Normal)
    {arguments : List String} {settings : Config} {paths : List String}
    (plan : planned validator finder tree cwd arguments = some (settings, paths)) :
    settings.workDir.Normal := by
  obtain ⟨given, _, asked, _⟩ := exists_of_planned plan
  have ran : (config validator finder.disk cwd given).run tree = (.ok settings, tree) := by
    rw [config_run, asked]
  obtain ⟨base, u, based, rest⟩ := ok_of_run_bind ran
  split at rest
  · next done =>
      cases rest
      rcases (replaced_of_override done).2.2 with same | ⟨path, place⟩
      · rw [same]
        obtain ⟨raw, place, origin, accepted⟩ := accepted_of_baseConfig based
        refine (Config.admissible_of_ofJson ?_ accepted).workDir
        rcases origin with rfl | ⟨path, rfl⟩
        · exact rooted
        · intro name member
          exact normal_resolve rooted path name (List.dropLast_subset _ member)
      · rw [place]
        exact normal_resolve rooted path
  · cases rest

end Command

/-- Trees of the same outline hold the same files. -/
theorem Workspace.fst_isFile_of_outline {w : Workspace} {t u : Tree} (alike : t.outline = u.outline)
    (path : String) :
    ((w.isFile finder.disk path).run t).1 = ((w.isFile finder.disk path).run u).1 := by
  have same (full : String) : t.stat full = u.stat full := by
    rw [← Tree.stat_outline t, alike, Tree.stat_outline]
  rw [run_isFile, run_isFile]
  simp only [same]

/-- What was skipped was asked for, and was no file even before the batch, which only changes what is
in files. -/
theorem Workspace.isFile_of_skipped {w : Workspace} (batch : Batch) {paths : List String} {t : Tree}
    (distinct : t.Distinct) {outcome : Outcome}
    (member : outcome ∈ (batch.course (w.sandbox finder.disk) t paths).outcomes)
    (skipped : outcome.status = .skipped) :
    outcome.path ∈ paths ∧ ((w.isFile finder.disk outcome.path).run t).1 = .ok false := by
  induction paths generalizing t with
  | nil => cases member
  | cons path paths ih =>
      have patches := Batch.patches_patched batch (w.sandbox finder.disk) path t
      have alike := outline_patched finder w batch path distinct
      rw [Batch.course] at member
      cases settled : batch.settle path (batch.patched (w.sandbox finder.disk) path t).1 with
      | error failure =>
          rw [settled] at member
          cases member
      | ok first =>
          rw [settled] at member
          rcases List.mem_cons.mp member with rfl | later
          · rcases Batch.outcome_of_settle settled with done | ⟨failure, _, rfl⟩
            · rw [done] at patches
              cases patches with
              | skipped isFile => exact ⟨List.mem_cons_self, congrArg Prod.fst isFile⟩
              | unchanged => cases skipped
              | unwritten => cases skipped
              | written => cases skipped
            · cases skipped
          · obtain ⟨listed, absent⟩ := ih (Tree.distinct_of_outline alike.symm distinct) later
            refine ⟨List.mem_cons_of_mem _ listed, ?_⟩
            rw [← absent]
            exact fst_isFile_of_outline alike.symm outcome.path

namespace Reporter

/-- Whether a line says that a file was skipped. -/
def isSkippedLine (line : String) : Bool :=
  begins "SKIP: " line

theorem status_of_isSkippedLine {reporter : Reporter} {dryRun : Bool} {outcome : Outcome}
    (tells : isSkippedLine (reporter.wording dryRun outcome) = true) : outcome.status = .skipped := by
  obtain ⟨path, status, counts⟩ := outcome
  unfold wording isSkippedLine begins at tells
  cases dryRun <;> cases status <;> simp_all [String.toList_append, List.isPrefixOf]

end Reporter

namespace Command

variable {t : Tree} {cwd : Location} {arguments : List String} {settings : Config}
  {paths : List String}

/-- A line that says that a file was skipped is about a path of the run that leads to no file. -/
theorem isFile_of_isSkippedLine (distinct : t.Distinct)
    (plan : planned validator finder t cwd arguments = some (settings, paths)) {line : String}
    (member : line ∈ ((run validator finder.disk cwd arguments).run t).1.out)
    (tells : Reporter.isSkippedLine line = true) :
    ∃ path ∈ paths, (((workspace settings).isFile finder.disk path).run t).1 = .ok false ∧
      line = "SKIP: " ++ path ++ " not found" := by
  obtain ⟨given, asks, asked, found⟩ := exists_of_planned plan
  rw [run_of_targeted asks asked found] at member
  have worded : ∃ outcome ∈ ((batchOf settings).course ((workspace settings).sandbox finder.disk) t
      paths).outcomes, Reporter.wording ⟨given.has .verbose⟩ settings.dryRun outcome = line := by
    generalize (batchOf settings).course ((workspace settings).sandbox finder.disk) t paths = course
      at member
    cases stop : course.stop with
    | some failure =>
        rw [transcriptOf_of_stop _ stop, out_ended] at member
        exact List.mem_map.mp member
    | none =>
        rw [transcriptOf_of_finished _ stop] at member
        rcases List.mem_append.mp member with own | summary
        · exact List.mem_map.mp own
        · -- neither the empty line nor the summary begins so
          rcases List.mem_cons.mp summary with rfl | total
          · cases tells
          · rw [List.mem_singleton.mp total] at tells
            simp [Reporter.isSkippedLine, Reporter.begins, List.isPrefixOf] at tells
  obtain ⟨outcome, there, rfl⟩ := worded
  have skipped := Reporter.status_of_isSkippedLine tells
  obtain ⟨listed, absent⟩ := Workspace.isFile_of_skipped _ distinct there skipped
  refine ⟨outcome.path, listed, absent, ?_⟩
  unfold Reporter.wording
  rw [skipped]

/-- Without files that are named, every path of a run is found for a pattern. -/
theorem finds_of_planned (plan : planned validator finder t cwd arguments = some (settings, paths))
    (unnamed : settings.files = []) :
    ∀ path ∈ paths, settings.Finds ((workspace settings).sandbox finder.disk) t path := by
  obtain ⟨given, _, _, listing⟩ := exists_of_planned plan
  have steady (pattern : String) :
      Steady (((workspace settings).sandbox finder.disk).find pattern settings.ignore) :=
    Workspace.steady_find finder.still_disk _ pattern _
  obtain ⟨found, blocks, answered, same, gathers⟩ :=
    Config.gathered_of_run_targets (Prod.ext listing rfl)
  intro path member
  rw [same, unnamed, List.nil_append] at member
  obtain ⟨_, paths, asked, own⟩ := (gathers.complete path).mp member
  exact (answered.finds_iff steady path).mpr ⟨paths, asked, own⟩

/-- A search that shows files gives back paths that stand for regular files, links followed.  Such a path
leads to its file exactly if the path of the file holds no backslash, and then the file is there when it
is asked for, unless its path is too long.  A run over what such searches find says of no file that it was
skipped but of one with a backslash in its path. -/
theorem found_files_there (validator : Validator) (finder : Finder) {t : Tree} (formed : t.Formed) :
    (∀ (w : Workspace) (pattern : String) (options : FindOptions) (found : List String),
      w.workDir.Normal →
      finder.ShowsFiles t (w.startOf options) options.dot pattern options.ignored →
      ((w.find finder.disk pattern options).run t).1 = .ok found →
      ∀ path ∈ found, ∃ file : Location, file.Normal ∧ t.FileAt file ∧
        path = w.given options.absolute file ∧
        (w.resolve path = file.text ↔ '\\' ∉ file.text.toList) ∧
        ('\\' ∉ file.text.toList → ((w.isFile finder.disk path).run t).1 =
          if Tree.pathLimit < file.text.utf8ByteSize then
            .error (Workspace.readFailure "stat" path
              (DiskError.refused .nameTooLong .stat (some file.text)).message)
          else .ok true)) ∧
    ∀ (cwd : Location) (arguments : List String) (settings : Config) (paths : List String),
      cwd.Normal → planned validator finder t cwd arguments = some (settings, paths) →
      settings.files = [] →
      (∀ pattern ∈ settings.globs,
        finder.ShowsFiles t settings.workDir false pattern settings.ignore) →
      ∀ line ∈ ((run validator finder.disk cwd arguments).run t).1.out,
        Reporter.isSkippedLine line = true →
        ∃ file : Location, file.Normal ∧ t.FileAt file ∧ '\\' ∈ file.text.toList ∧
          line = "SKIP: " ++ (workspace settings).given false file ++ " not found" := by
  constructor
  · intro w pattern options found normal shows searched path member
    obtain ⟨inside, file, plain, stands, rfl⟩ :=
      Workspace.fileAt_of_find normal shows (Prod.ext searched rfl) path member
    exact ⟨file, plain, stands, rfl, w.resolve_given_eq_iff plain _,
      fun free => w.isFile_given formed plain stands free inside⟩
  · intro cwd arguments settings paths rooted plan unnamed shows line member tells
    obtain ⟨path, listed, absent, rfl⟩ :=
      isFile_of_isSkippedLine formed.distinct plan member tells
    obtain ⟨pattern, wanted, found, searched, own⟩ := finds_of_planned plan unnamed path listed
    obtain ⟨inside, file, plain, stands, rfl⟩ :=
      (workspace settings).fileAt_of_find (normal_of_planned rooted plan) (shows pattern wanted)
        (Prod.ext searched rfl) path own
    refine ⟨file, plain, stands, ?_, rfl⟩
    by_contra free
    rw [Workspace.isFile_given formed plain stands free inside] at absent
    split at absent <;> cases absent

/-- A link to a file is found and is there, and a link that leads nowhere is not found. -/
theorem found_files_there_linked :
    let t : Tree := ⟨[(["a"], .file (Text.Utf8.encode "super(1);")), (["w"], .directory),
      (["w", "l"], .link "../a"), (["w", "m"], .link "gone")]⟩
    let w : Workspace := ⟨["w"], true, []⟩
    t.Formed ∧ ((w.find Glob.finder.disk "*" ⟨none, [], false, false⟩).run t).1 = .ok ["l"] ∧
      ((w.isFile Glob.finder.disk "l").run t).1 = .ok true ∧
      ∀ line ∈ ((run .standard Glob.finder.disk ["w"] ["--glob", "*"]).run t).1.out,
        Reporter.isSkippedLine line = false := by
  intro t w
  have formed : t.Formed := by decide
  have unslashed : ∀ listed ∈ t.entries, ∀ name ∈ listed.1, '\\' ∉ name.toList := by decide
  have found : ((w.find Glob.finder.disk "*" ⟨none, [], false, false⟩).run t).1 = .ok ["l"] := by
    decide +kernel
  have plan : planned .standard Glob.finder t ["w"] ["--glob", "*"] =
      some (⟨[], ["*"], defaultIgnore, ["w"], defaultIndent, false, .fail, true⟩, ["l"]) := by
    decide +kernel
  obtain ⟨finds, runs⟩ := found_files_there .standard Glob.finder formed
  have shows (ignored : List String) (straight : Glob.Straight ["w"] "*" ignored) :
      Glob.finder.ShowsFiles t ["w"] false "*" ignored :=
    Glob.showsFiles_of_straight formed (by decide) false straight
  refine ⟨formed, found, ?_, fun line member => ?_⟩
  · obtain ⟨file, plain, stands, -, place, there⟩ :=
      finds w "*" ⟨none, [], false, false⟩ ["l"] (by decide) (shows [] (by decide +kernel)) found "l"
        (by decide)
    have free := stands.free_text plain unslashed
    have leads : w.resolve "l" = "/w/l" := by decide +kernel
    have same : "/w/l" = file.text := leads.symm.trans (place.mpr free)
    have short : ¬ Tree.pathLimit < "/w/l".utf8ByteSize := by decide
    rw [there free, ← same, if_neg short]
  · apply Bool.eq_false_iff.mpr
    intro skips
    obtain ⟨file, plain, stands, backslash, -⟩ :=
      runs ["w"] ["--glob", "*"] _ _ (by decide) plan rfl
        (List.forall_mem_singleton.mpr (shows _ (by decide +kernel))) line member skips
    exact stands.free_text plain unslashed backslash

/-- A file whose name holds a backslash is found by a path that leads to no file, so that a run says it
was skipped. -/
theorem backslashed_file_skipped :
    let t : Tree := ⟨[(["w"], .directory), (["w", "a\\b"], .file [])]⟩
    let w : Workspace := ⟨["w"], true, []⟩
    t.Formed ∧ ((w.find Tree.disk "*" ⟨none, [], false, false⟩).run t).1 = .ok ["a/b"] ∧
      ((w.isFile Tree.disk "a/b").run t).1 = .ok false ∧
      ((run .standard Tree.disk ["w"] ["--glob", "*"]).run t).1.out =
        ["SKIP: a/b not found", "", "Total files fixed: 0"] := by
  decide +kernel

end Command

end SuperCalls
