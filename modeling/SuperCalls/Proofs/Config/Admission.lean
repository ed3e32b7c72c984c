/-
Module: SuperCalls.Proofs.Config.Admission
Purpose: Which settings the rules for them admit, and that those which were read are admitted again:
  they are read as they are wherever that is done, also from a file that they were kept in.  Of what the
  arguments put in their place only empty names of files and empty patterns are not admitted.
Main exports: Config.Admissible, Config.ofJson_toJson_iff, Config.admissible_of_ofJson,
  Command.Arguments.mem_read, Command.override_admitted_iff, Config.legible_toJson,
  Config.load_of_read, Config.ofJson_stable
-/
import Mathlib.Control.Monad.Basic
import SuperCalls.Config.File
import SuperCalls.Proofs.Config.Acceptance
import SuperCalls.Proofs.Paths.Boundary
import SuperCalls.Proofs.Text.JsonRoundTrip
import SuperCalls.Proofs.Workspace.RoundTrip

namespace SuperCalls

namespace Config

/-!
### Settings that are admitted
-/

/-- Settings are as the rules for them demand. -/
structure Admissible (config : Config) : Prop where
  files : "" ∉ config.files
  globs : "" ∉ config.globs
  indent : isIndent config.indent
  workDir : config.workDir.Normal

theorem Holds.admissible {fields : Record Json} {path : String} {config : Config}
    (holds : Holds fields path config) (normal : config.workDir.Normal) : config.Admissible where
  files := holds.named
  globs := holds.patterned
  indent := holds.blank
  workDir := normal

/-- Settings that were read are admitted. -/
theorem admissible_of_ofJson {validator : Validator} {raw : Option Json} {base : Location}
    {config : Config} (rooted : base.Normal) (read : ofJson validator raw base = .ok config) :
    config.Admissible := by
  obtain ⟨fields, path, _, holds, place⟩ := ofJson_eq_ok.mp read
  apply holds.admissible
  rw [place]
  exact Location.normal_resolve rooted path

/-- Admitted settings are what the fields of their own JSON value hold. -/
theorem Admissible.holds {config : Config} (admissible : config.Admissible) :
    Holds
      [("files", .array (config.files.map .string)), ("globs", .array (config.globs.map .string)),
        ("ignore", .array (config.ignore.map .string)), ("workDir", .string config.workDir.text),
        ("indent", .string config.indent), ("dryRun", .bool config.dryRun),
        ("errorPolicy", .string (policyName config.errorPolicy)),
        ("enforceBoundary", .bool config.enforceBoundary)]
      config.workDir.text config where
  files := rfl
  named := admissible.files
  globs := rfl
  patterned := admissible.globs
  ignore := rfl
  workDir := rfl
  indent := rfl
  blank := admissible.indent
  dryRun := rfl
  errorPolicy := rfl
  enforceBoundary := rfl
  known := rfl

/-- The JSON value of settings is accepted as those settings, wherever it is read, exactly if they
are admitted. -/
theorem ofJson_toJson_iff (validator : Validator) (config : Config) (base : Location) :
    ofJson validator (some config.toJson) base = .ok config ↔ config.Admissible := by
  constructor
  · intro read
    obtain ⟨fields, path, same, holds, place⟩ := ofJson_eq_ok.mp read
    apply holds.admissible
    -- the path is the text of the work directory, which is absolute
    cases same
    cases holds.workDir
    rw [place, Location.resolve, if_pos (Location.isAbsolute_text _)]
    apply Location.normal_foldl
    · exact fun _ member => (List.not_mem_nil member).elim
    · exact fun _ member => slash_not_mem_segments member
  · intro admissible
    exact ofJson_eq_ok.mpr
      ⟨_, _, rfl, admissible.holds, (Location.resolve_text admissible.workDir base).symm⟩

end Config

namespace Command

/-!
### What the arguments put in their place
-/

/-- The file that an item names. -/
def Item.path? : Item → Option String
  | .path text => some text
  | _ => none

/-- The pattern that an item gives. -/
def Item.pattern? : Item → Option String
  | .value .glob text => some text
  | _ => none

theorem Item.path?_eq_some {item : Item} {text : String} :
    item.path? = some text ↔ item = .path text := by
  cases item <;> simp [path?]

theorem Item.pattern?_eq_some {item : Item} {text : String} :
    item.pattern? = some text ↔ item = .value .glob text := by
  cases item with
  | value p text => cases p <;> simp [pattern?]
  | _ => simp [pattern?]

theorem Arguments.gathered_add {item : Item} {before after : Arguments}
    (added : before.add item = .ok after) :
    after.paths = before.paths ++ item.path?.toList ∧
      after.globs = before.globs ++ item.pattern?.toList := by
  cases item with
  | flag f =>
      cases added
      exact ⟨(List.append_nil _).symm, (List.append_nil _).symm⟩
  | value p text =>
      cases added
      cases p with
      | glob => exact ⟨(List.append_nil _).symm, rfl⟩
      | _ => exact ⟨(List.append_nil _).symm, (List.append_nil _).symm⟩
  | path text =>
      cases added
      exact ⟨rfl, (List.append_nil _).symm⟩
  | misuse error => cases added

theorem Arguments.gathered_foldlM {items : List Item} {before after : Arguments}
    (added : items.foldlM add before = .ok after) :
    after.paths = before.paths ++ items.filterMap Item.path? ∧
      after.globs = before.globs ++ items.filterMap Item.pattern? := by
  have cut {f : Item → Option String} (item : Item) (items : List Item) :
      (item :: items).filterMap f = (f item).toList ++ items.filterMap f := by
    rw [List.filterMap_cons]
    cases f item <;> rfl
  induction items generalizing before with
  | nil =>
      cases added
      exact ⟨(List.append_nil _).symm, (List.append_nil _).symm⟩
  | cons item items ih =>
      rw [List.foldlM_cons] at added
      cases step : before.add item with
      | error error =>
          rw [step] at added
          cases added
      | ok next =>
          rw [step] at added
          obtain ⟨paths, globs⟩ := gathered_add step
          rw [cut, cut, ← List.append_assoc, ← List.append_assoc, ← paths, ← globs]
          exact ih added

/-- The files and the patterns that arguments give are those of their items. -/
theorem Arguments.mem_read {arguments : List String} {given : Arguments}
    (read : Arguments.read arguments = .ok given) (text : String) :
    (text ∈ given.paths ↔ .path text ∈ scan arguments) ∧
      (text ∈ given.globs ↔ .value .glob text ∈ scan arguments) := by
  obtain ⟨paths, globs⟩ := gathered_foldlM read
  rw [paths, globs, show empty.paths = [] from rfl, show empty.globs = [] from rfl, List.nil_append,
    List.nil_append, List.mem_filterMap, List.mem_filterMap]
  simp only [Item.path?_eq_some, Item.pattern?_eq_some, exists_eq_right, and_self]

/-- What arguments put in the place of the settings, apart from the indent. -/
theorem replaced_of_override {cwd : Location} {given : Arguments} {config effective : Config}
    (done : override cwd given config = .ok effective) :
    effective.files = (if given.paths.isEmpty then config.files else given.paths) ∧
      effective.globs = (if given.globs.isEmpty then config.globs else given.globs) ∧
      (effective.workDir = config.workDir ∨ ∃ path, effective.workDir = cwd.resolve path) := by
  rw [override_eq] at done
  obtain ⟨indent, _, rest⟩ := ok_of_bind_ok done
  cases rest
  refine ⟨rfl, rfl, ?_⟩
  dsimp only
  split
  · next path _ => exact Or.inr ⟨path, rfl⟩
  · exact Or.inl rfl

/-- A list that is not empty takes the place of another one, which holds no empty text. -/
theorem empty_mem_replaced_iff {texts given : List String} (named : "" ∉ texts) :
    "" ∈ (if given.isEmpty then texts else given) ↔ "" ∈ given := by
  cases given with
  | nil => exact iff_of_false named List.not_mem_nil
  | cons first rest => rfl

/-- Settings that were read and then changed by arguments are admitted, and read again as they are
wherever their JSON value is, exactly if no argument names an empty file or gives an empty pattern.
Whatever the arguments are, the indent is made of spaces and tabs. -/
theorem override_admitted_iff {validator : Validator} {raw : Option Json} {base : Location}
    {config : Config} (rooted : base.Normal)
    (accepted : Config.ofJson validator raw base = .ok config) {cwd : Location}
    (placed : cwd.Normal) {arguments : List String} {given : Arguments}
    (read : Arguments.read arguments = .ok given) {effective : Config}
    (overridden : override cwd given config = .ok effective) :
    isIndent effective.indent ∧
      ("" ∈ effective.files ↔ .path "" ∈ scan arguments) ∧
      ("" ∈ effective.globs ↔ .value .glob "" ∈ scan arguments) ∧
      ∀ again, Config.ofJson validator (some effective.toJson) again = .ok effective ↔
        .path "" ∉ scan arguments ∧ .value .glob "" ∉ scan arguments := by
  have admissible := Config.admissible_of_ofJson rooted accepted
  have blank := isIndent_of_override admissible.indent overridden
  obtain ⟨files, globs, workDir⟩ := replaced_of_override overridden
  have emptyFile : "" ∈ effective.files ↔ .path "" ∈ scan arguments := by
    rw [files, empty_mem_replaced_iff admissible.files, (Arguments.mem_read read "").1]
  have emptyGlob : "" ∈ effective.globs ↔ .value .glob "" ∈ scan arguments := by
    rw [globs, empty_mem_replaced_iff admissible.globs, (Arguments.mem_read read "").2]
  refine ⟨blank, emptyFile, emptyGlob, fun again => ?_⟩
  rw [Config.ofJson_toJson_iff, ← emptyFile, ← emptyGlob]
  constructor
  · exact fun admitted => ⟨admitted.files, admitted.globs⟩
  · rintro ⟨namedFiles, namedGlobs⟩
    refine ⟨namedFiles, namedGlobs, blank, ?_⟩
    rcases workDir with same | ⟨path, place⟩
    · rw [same]
      exact admissible.workDir
    · rw [place]
      exact Location.normal_resolve placed path

/-- A file, a pattern and an indent that are given are admitted. -/
theorem override_admitted_iff_named :
    ∃ config given effective,
      Config.ofJson .standard (some (.object [("files", .array [.string "b"])])) ["w"] = .ok config ∧
      Arguments.read ["a", "--glob", "*.java", "--indent", "2"] = .ok given ∧
      override ["w"] given config = .ok effective ∧
      Config.ofJson .standard (some effective.toJson) ["v"] = .ok effective := by
  have accepted : Config.ofJson .standard (some (.object [("files", .array [.string "b"])])) ["w"] =
      .ok ⟨["b"], [], defaultIgnore, ["w"], defaultIndent, false, .fail, true⟩ := by decide +kernel
  have read : Arguments.read ["a", "--glob", "*.java", "--indent", "2"] =
      .ok ⟨none, ["*.java"], none, some "2", [], ["a"]⟩ := by decide +kernel
  have overridden : override ["w"] ⟨none, ["*.java"], none, some "2", [], ["a"]⟩
      ⟨["b"], [], defaultIgnore, ["w"], defaultIndent, false, .fail, true⟩ =
      .ok ⟨["a"], ["*.java"], defaultIgnore, ["w"], "  ", false, .fail, true⟩ := by decide +kernel
  have admitted := (override_admitted_iff (by decide +kernel) accepted (by decide +kernel) read
    overridden).2.2.2 ["v"]
  exact ⟨_, _, _, accepted, read, overridden, admitted.mpr (by decide +kernel)⟩

/-- An empty argument names a file, and settings with such a file are refused. -/
theorem empty_file_not_admitted :
    ∃ config given effective,
      Config.ofJson .standard (some (.object [])) ["w"] = .ok config ∧
      Arguments.read [""] = .ok given ∧
      override ["w"] given config = .ok effective ∧
      effective.files = [""] ∧
      Config.ofJson .standard (some effective.toJson) ["w"] = .error (.coded .invalidConfig
        "Invalid configuration: files.0: String must contain at least 1 character(s)" none) := by
  refine ⟨⟨[], [], defaultIgnore, ["w"], defaultIndent, false, .fail, true⟩,
    ⟨none, [], none, none, [], [""]⟩,
    ⟨[""], [], defaultIgnore, ["w"], defaultIndent, false, .fail, true⟩, ?_, ?_, ?_, rfl, ?_⟩
  all_goals decide +kernel

end Command

/-!
### Settings that are kept in a file
-/

open Text.Utf8 (encode decodeLossy decodeLossy_encode)

/-- A record with no array index among its keys is in order. -/
theorem Record.ordered_of_no_index {α : Type} {record : Record α}
    (named : ∀ key ∈ record.map Prod.fst, arrayIndex? key = none) : record.Ordered :=
  List.pairwise_of_forall_mem_list fun _ _ key member => leads_of_index_eq_none (named key member)

namespace Config

variable {validator : Validator} {finder : Finder}

/-- The JSON value of settings is one that the reader gives back. -/
theorem legible_toJson (config : Config) : config.toJson.Legible := by
  have texts (list : List String) : Json.Legible (.array (list.map .string)) := by
    refine .array fun json member => ?_
    obtain ⟨s, _, rfl⟩ := List.mem_map.mp member
    exact .string s
  refine .object ?_ ?_ (Record.ordered_of_no_index ?_)
  · simp only [List.forall_mem_cons, List.not_mem_nil, false_implies, implies_true, and_true]
    exact ⟨texts _, texts _, texts _, .string _, .string _, .bool _, .string _, .bool _⟩
  · show (settingFields.map Field.name).Nodup
    decide
  · show ∀ key ∈ (settingFields.map Field.name), arrayIndex? key = none
    decide

/-- Settings are loaded from a file whose text holds them. -/
theorem load_of_read {t : Tree} {directory : Location} {file : String} {bytes : List UInt8}
    {raw : Json} {config : Config} (found : t.read (directory.resolve file).text = .ok bytes)
    (held : Json.read (decodeLossy bytes) = .ok raw)
    (accepted : ofJson validator (some raw) (directory.resolve file).parent = .ok config) :
    (load validator finder.disk directory file).run t = (.ok config, t) := by
  have called : (liftM (finder.disk.read (directory.resolve file).text) :
      ExceptT Failure (StateM Tree) _).run t = (.ok (.ok bytes), t) := by
    rw [← found]
    rfl
  have text :
      ofText validator file (directory.resolve file).parent (decodeLossy bytes) = .ok config := by
    rw [ofText, held]
    exact accepted
  unfold load
  rw [run_bind, called]
  simp only [text]
  rfl

/-- Settings that were read are read again from their JSON value as they are, wherever that is done:
the work directory is absolute and normal.  So they are loaded as they are from each file that holds
this value, in particular from one to which its text was written. -/
theorem ofJson_stable (validator : Validator) (finder : Finder) {cwd : Location}
    (placed : cwd.Normal) {raw : Option Json} {baseDir : String} {config : Config}
    (accepted : ofJson validator raw (cwd.resolve baseDir) = .ok config) :
    (isAbsolute config.workDir.text ∧ config.workDir.Normal ∧
      ∀ base : Location, base.resolve config.workDir.text = config.workDir) ∧
    (∀ base, ofJson validator (some config.toJson) base = .ok config) ∧
    (∀ (t : Tree) directory file bytes, t.read (directory.resolve file).text = .ok bytes →
      Json.read (decodeLossy bytes) = .ok config.toJson →
      (load validator finder.disk directory file).run t = (.ok config, t)) ∧
    ∀ (t after : Tree) directory file,
      t.write (directory.resolve file).text (encode config.toJson.render) = .ok after →
      (load validator finder.disk directory file).run after = (.ok config, after) := by
  have admissible := admissible_of_ofJson (Location.normal_resolve placed baseDir) accepted
  have again (base : Location) : ofJson validator (some config.toJson) base = .ok config :=
    (ofJson_toJson_iff validator config base).mpr admissible
  have placed : isAbsolute config.workDir.text ∧ config.workDir.Normal ∧
      ∀ base : Location, base.resolve config.workDir.text = config.workDir :=
    ⟨Location.isAbsolute_text _, admissible.workDir, Location.resolve_text admissible.workDir⟩
  refine ⟨placed, again, ?_, ?_⟩
  · intro t directory file bytes found held
    exact load_of_read found held (again _)
  · intro t after directory file written
    refine load_of_read (Tree.read_of_write written) ?_ (again _)
    rw [decodeLossy_encode]
    exact Json.read_render (legible_toJson config)

/-- The base directory is relative itself.  One file holds the text of the settings, and to another
one it is written through a link. -/
theorem ofJson_stable_relative :
    let raw : Json := .object [("workDir", .string "../x/./"), ("files", .array [.string "a\"\n"])]
    let config : Config :=
      ⟨["a\"\n"], [], defaultIgnore, ["w", "c", "x"], defaultIndent, false, .fail, true⟩
    let bytes := encode config.toJson.render
    let t : Tree := ⟨[(["w"], .directory), (["w", "l"], .link "/new"), (["p"], .file bytes)]⟩
    ofJson .standard (some raw) (Location.resolve ["w"] "b/../c/d") = .ok config ∧
    ofJson .standard (some config.toJson) ["elsewhere"] = .ok config ∧
    (load .standard Glob.finder.disk ["w"] "../p").run t = (.ok config, t) ∧
    ∃ after, t.write (Location.resolve ["w"] "l").text bytes = .ok after ∧
      (load .standard Glob.finder.disk ["w"] "l").run after = (.ok config, after) := by
  intro raw config bytes t
  have accepted : ofJson .standard (some raw) (Location.resolve ["w"] "b/../c/d") = .ok config := by
    decide +kernel
  obtain ⟨_, again, holding, saved⟩ :=
    ofJson_stable .standard Glob.finder (by decide +kernel) accepted
  have held : Json.read (decodeLossy bytes) = .ok config.toJson := by
    rw [decodeLossy_encode]
    exact Json.read_render (legible_toJson config)
  have found : t.read (Location.resolve ["w"] "../p").text = .ok bytes := rfl
  obtain ⟨after, written⟩ :
      ∃ after, t.write (Location.resolve ["w"] "l").text bytes = .ok after := ⟨_, rfl⟩
  exact ⟨accepted, again ["elsewhere"], holding t ["w"] "../p" bytes found held, after, written,
    saved t after ["w"] "l" written⟩

end Config

end SuperCalls
