/-
Module: SuperCalls.Proofs.Config.RepeatedTargets
Purpose: The files of settings that are listed again under another spelling.  A search shows each
  location under one spelling, and what it finds is told from the files that are named by the text
  alone.
Main exports: Config.Finds, Config.Answered.finds_iff, Workspace.shown, Workspace.shown_of_found,
  Workspace.Repeats, Workspace.repeats_append_iff, Workspace.repeats_targets_iff
-/
import Mathlib.Data.List.Nodup
import SuperCalls.Proofs.Config.Targets
import SuperCalls.Proofs.Paths.NormalForm
import SuperCalls.Proofs.Paths.Relative
import SuperCalls.Proofs.Search.Patterns

namespace SuperCalls

open Location

variable {σ : Type}

/-!
### What patterns find

Looking leaves the disk as it is, so it does not matter which patterns were searched for before.
-/

/-- A path is found for one of the patterns of settings. -/
def Config.Finds (config : Config) (sandbox : Sandbox (StateM σ)) (s : σ) (path : String) : Prop :=
  ∃ pattern ∈ config.globs, ∃ paths,
    ((sandbox.find pattern config.ignore).run s).1 = .ok paths ∧ path ∈ paths

/-- What is found for patterns one after the other is what is found for each of them. -/
theorem Config.Answered.mem_iff {sandbox : Sandbox (StateM σ)} {ignored patterns : List String}
    {found : List (List String)} {s t : σ}
    (steady : ∀ pattern, Steady (sandbox.find pattern ignored))
    (answered : Answered sandbox ignored s patterns found t) (paths : List String) :
    paths ∈ found ↔
      ∃ pattern ∈ patterns, ((sandbox.find pattern ignored).run s).1 = .ok paths := by
  induction answered with
  | nil => simp
  | @cons s t u pattern patterns first found asked later ih =>
      have answer : ((sandbox.find pattern ignored).run s).1 = .ok first := congrArg Prod.fst asked
      have still : t = s := (congrArg Prod.snd asked).symm.trans (steady pattern s)
      rw [still] at ih
      rw [List.mem_cons, ih]
      simp only [List.mem_cons, exists_eq_or_imp, answer, Except.ok.injEq, @eq_comm _ first]

theorem Config.Answered.finds_iff {config : Config} {sandbox : Sandbox (StateM σ)}
    {found : List (List String)} {s t : σ}
    (steady : ∀ pattern, Steady (sandbox.find pattern config.ignore))
    (answered : Answered sandbox config.ignore s config.globs found t) (path : String) :
    config.Finds sandbox s path ↔ ∃ paths ∈ found, path ∈ paths := by
  constructor
  · rintro ⟨pattern, wanted, paths, answer, member⟩
    exact ⟨paths, (answered.mem_iff steady paths).mpr ⟨pattern, wanted, answer⟩, member⟩
  · rintro ⟨paths, listed, member⟩
    obtain ⟨pattern, wanted, answer⟩ := (answered.mem_iff steady paths).mp listed
    exact ⟨pattern, wanted, paths, answer, member⟩

namespace Workspace

/-!
### Spellings
-/

/-- The spelling under which a search shows what a path leads to: the path from the work directory. -/
def shown (w : Workspace) (path : String) : String :=
  w.workDir.relative (w.location path)

section Spellings

variable {w : Workspace} (normal : w.workDir.Normal)

include normal

/-- The shown spelling of a path leads where the path leads. -/
theorem location_shown (path : String) : w.location (w.shown path) = w.location path := by
  rw [location_eq normal, shown, resolve_relative (w.normal_location path)]

/-- A path from the work directory to a location is its own shown spelling. -/
theorem shown_relative {target : Location} (plain : target.Normal) :
    w.shown (w.workDir.relative target) = w.workDir.relative target := by
  rw [shown, location_eq normal, resolve_relative plain]

/-- What a search finds is spelled as it is shown. -/
theorem shown_of_found {disk : Disk (StateM σ)} {pattern path : String} {ignored paths : List String}
    {s : σ} (answer : (((w.sandbox disk).find pattern ignored).run s).1 = .ok paths)
    (member : path ∈ paths) : w.shown path = path := by
  have whole : ((w.sandbox disk).find pattern ignored).run s =
      (.ok paths, (((w.sandbox disk).find pattern ignored).run s).2) := Prod.ext answer rfl
  obtain ⟨found, u, _, rest⟩ := ok_of_run_bind whole
  have same : (found.filter w.isInside).map (fun entry =>
      w.workDir.relative (Location.resolve [] entry)) = paths :=
    Except.ok.inj (congrArg Prod.fst rest)
  rw [← same] at member
  obtain ⟨entry, _, rfl⟩ := List.mem_map.mp member
  exact shown_relative normal (normal_resolve (fun _ none => (List.not_mem_nil none).elim) entry)

end Spellings

/-!
### Repetitions
-/

/-- Behind the first paths of a list stands one that leads where one before it leads. -/
def Repeats (w : Workspace) (first : Nat) (listed : List String) : Prop :=
  ∃ front path back, listed = front ++ path :: back ∧ first ≤ front.length ∧
    ∃ earlier ∈ front, w.location earlier = w.location path

/-- If no two of the paths that are added lead to one place, what is repeated stands in the list that
they are added to. -/
theorem repeats_append_iff {w : Workspace} {added : List String}
    (apart : (added.map w.location).Nodup) (files : List String) :
    w.Repeats files.length (files ++ added) ↔
      ∃ file ∈ files, ∃ path ∈ added, w.location file = w.location path := by
  constructor
  · rintro ⟨front, path, back, same, behind, earlier, before, alike⟩
    obtain ⟨more, rfl, rest⟩ : ∃ more, front = files ++ more ∧ added = more ++ path :: back := by
      rcases List.append_eq_append_iff.mp same with ⟨more, longer, rest⟩ | ⟨less, shorter, rest⟩
      · exact ⟨more, longer, rest⟩
      · rw [shorter, List.length_append] at behind
        have none : less = [] := List.length_eq_zero_iff.mp (by omega)
        subst none
        exact ⟨[], by simpa using shorter.symm, by simpa using rest.symm⟩
    rcases List.mem_append.mp before with named | new
    · exact ⟨earlier, named, path, by simp [rest], alike⟩
    · rw [rest, List.map_append, List.map_cons] at apart
      have disjoint := (List.nodup_append.mp apart).2.2
      exact (disjoint _ (List.mem_map_of_mem new) _ List.mem_cons_self alike).elim
  · rintro ⟨file, named, path, new, alike⟩
    obtain ⟨more, back, rfl⟩ := List.append_of_mem new
    refine ⟨files ++ more, path, back, by simp, by simp, file, ?_, alike⟩
    exact List.mem_append_left more named

/-- What settings list behind the files that are named leads to different places, each spelled as it is
shown.  Such a place is listed again exactly if a file is named under another spelling alone and is found,
too. -/
theorem repeats_targets_iff (finder : Finder) {w : Workspace} (normal : w.workDir.Normal)
    {config : Config} {t : Tree}
    {listed : List String}
    (listing : ((config.targets (w.sandbox finder.disk)).run t).1 = .ok listed) :
    (∃ added, listed = config.files ++ added ∧ (added.map w.location).Nodup ∧
      ∀ path ∈ added, w.shown path = path) ∧
    (w.Repeats config.files.length listed ↔ ∃ file ∈ config.files,
      w.shown file ∉ config.files ∧ config.Finds (w.sandbox finder.disk) t (w.shown file)) := by
  have steady (pattern : String) :
      Steady ((w.sandbox finder.disk).find pattern config.ignore) :=
    steady_find finder.still_disk w pattern _
  obtain ⟨found, blocks, answered, rfl, gathers⟩ :=
    Config.gathered_of_run_targets (Prod.ext listing rfl)
  have finds := answered.finds_iff steady
  have spelled : ∀ path ∈ blocks.flatten, w.shown path = path := by
    intro path member
    obtain ⟨_, paths, asked, own⟩ := (gathers.complete path).mp member
    obtain ⟨pattern, _, answer⟩ := (answered.mem_iff steady paths).mp asked
    exact shown_of_found normal answer own
  have apart : (blocks.flatten.map w.location).Nodup := by
    refine gathers.once.map_on fun path member other listed same => ?_
    rw [← spelled path member, ← spelled other listed, shown, same, shown]
  refine ⟨⟨blocks.flatten, rfl, apart, spelled⟩, ?_⟩
  rw [repeats_append_iff apart]
  refine exists_congr fun file => and_congr_right fun _ => ?_
  rw [finds, ← gathers.complete]
  constructor
  · rintro ⟨path, member, alike⟩
    have same : w.shown file = path := by rw [shown, alike]; exact spelled path member
    exact same ▸ member
  · intro member
    exact ⟨w.shown file, member, (location_shown normal file).symm⟩

/-- One path that the only pattern finds is put behind the files that are named. -/
theorem targets_of_found (finder : Finder) {w : Workspace} {config : Config} {t : Tree}
    {pattern path : String}
    (alone : config.globs = [pattern])
    (answer : (((w.sandbox finder.disk).find pattern config.ignore).run t).1 = .ok [path]) :
    ((config.targets (w.sandbox finder.disk)).run t).1 =
      .ok (Config.addNew config.files [path]) := by
  have still := steady_find finder.still_disk w pattern ⟨none, config.ignore, false, false⟩ t
  have answered :
      Config.Answered (w.sandbox finder.disk) config.ignore t config.globs [[path]] t := by
    rw [alone]
    exact .cons (Prod.ext answer still) .nil
  have listed : Config.gathered config.files [[path]] = Config.addNew config.files [path] := by
    simp [Config.gathered, Text.Units.sort]
  have some : (Config.addNew config.files [path]).isEmpty = false := by
    obtain ⟨block, same, _, _, mem⟩ := Config.addNew_eq config.files [path]
    rw [List.isEmpty_eq_false_iff, same]
    intro none
    obtain ⟨unnamed, empty⟩ := List.append_eq_nil_iff.mp none
    have member := (mem path).mpr ⟨List.mem_singleton_self path, by simp [unnamed]⟩
    rw [empty] at member
    exact List.not_mem_nil member
  rw [answered.run_targets, listed, some]
  rfl

/-- A file that is named under three spellings, one of them the shown one, is not listed again. -/
theorem repeats_targets_iff_thrice :
    let w : Workspace := ⟨["w"], true, []⟩
    let config : Config := ⟨["./a", "/w/b/../a", "a"], ["*"], [], ["w"], "", false, .fail, true⟩
    let t : Tree := ⟨[(["w"], .directory), (["w", "a"], .file [])]⟩
    ((config.targets (w.sandbox Glob.finder.disk)).run t).1 = .ok config.files ∧
      ¬ w.Repeats config.files.length config.files := by
  intro w config t
  have listing : ((config.targets (w.sandbox Glob.finder.disk)).run t).1 = .ok config.files :=
    targets_of_found Glob.finder rfl (show _ = Except.ok ["a"] by decide +kernel)
  refine ⟨listing, fun again => ?_⟩
  obtain ⟨file, named, fresh, _⟩ :=
    (repeats_targets_iff Glob.finder (show w.workDir.Normal by decide) listing).2.mp again
  have shown : ∀ file ∈ config.files, w.shown file ∈ config.files := by decide
  exact fresh (shown file named)

/-- A file that is named with a dot before it is listed again if a pattern finds it. -/
theorem dotted_file_repeated :
    let w : Workspace := ⟨["w"], true, []⟩
    let config : Config := ⟨["./a"], ["*"], [], ["w"], "", false, .fail, true⟩
    let t : Tree := ⟨[(["w"], .directory), (["w", "a"], .file (Text.Utf8.encode "super(1);"))]⟩
    ((config.targets (w.sandbox Glob.finder.disk)).run t).1 = .ok ["./a", "a"] ∧
      w.Repeats config.files.length ["./a", "a"] := by
  intro w config t
  refine ⟨targets_of_found Glob.finder rfl (show _ = Except.ok ["a"] by decide +kernel), ?_⟩
  exact ⟨["./a"], "a", [], rfl, Nat.le_refl 1, "./a", List.mem_singleton_self _, by decide⟩

end Workspace

end SuperCalls
