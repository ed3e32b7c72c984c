/-
Module: SuperCalls.Proofs.Config.Acceptance
Purpose: What values are accepted as settings.  A validator accepts an object if each setting that it
  holds stands for something of its type, and an absent setting stands for its default; so all
  validators accept the same values, as the same settings.  The indents that settings and arguments
  can have hold white space only, so no call stands in them.
Main exports: Validator.texts_accepted, Config.Holds, Config.ofJson_eq_ok, Config.isCoded_of_ofJson,
  not_hasCall_of_isIndent, Config.isIndent_of_ofJson, Command.isIndent_of_indentOf,
  Command.override_eq_error_iff, Command.isIndent_of_override
-/
import SuperCalls.Command
import SuperCalls.Proofs.Rules.Grammar

namespace SuperCalls

/-!
### Single settings
-/

namespace Validator

variable (validator : Validator) {value : Json}

/-- A list of texts is accepted if its items are texts that the rules let pass. -/
theorem texts_accepted {rules : List TextRule} {texts : List String} :
    validator.check (.list (.text rules)) value = .ok texts ↔
      value = .array (texts.map .string) ∧ ∀ text ∈ texts, ∀ rule ∈ rules, rule.allows text := by
  have items (items : List Json) (texts : List String) :
      items.map (validator.check (.text rules)) = texts.map .ok ↔
        items = texts.map .string ∧ ∀ text ∈ texts, ∀ rule ∈ rules, rule.allows text := by
    induction texts generalizing items with
    | nil => simp
    | cons text texts ih =>
        cases items with
        | nil => simp
        | cons item items =>
            rw [List.map_cons, List.map_cons, List.cons.injEq, ih, validator.text_accepted,
              List.map_cons, List.cons.injEq, List.forall_mem_cons]
            exact and_and_and_comm
  rw [validator.list_accepted]
  constructor
  · rintro ⟨listed, rfl, same⟩
    obtain ⟨rfl, allowed⟩ := (items listed texts).mp same
    exact ⟨rfl, allowed⟩
  · rintro ⟨rfl, allowed⟩
    exact ⟨_, rfl, (items _ texts).mpr ⟨rfl, allowed⟩⟩

theorem nonempty_texts_accepted {texts : List String} :
    validator.check (.list (.text [.nonempty])) value = .ok texts ↔
      value = .array (texts.map .string) ∧ "" ∉ texts := by
  rw [texts_accepted]
  refine and_congr_right fun _ => ?_
  simp only [List.mem_singleton, forall_eq, TextRule.allows, bne_iff_ne]
  exact ⟨fun named empty => named _ empty rfl, fun named text member empty => named (empty ▸ member)⟩

theorem any_texts_accepted {texts : List String} :
    validator.check (.list (.text [])) value = .ok texts ↔
      value = .array (texts.map .string) := by
  rw [texts_accepted]
  simp

theorem any_text_accepted {s : String} :
    validator.check (.text []) value = .ok s ↔ value = .string s := by
  rw [text_accepted]
  simp

theorem indent_accepted {s : String} :
    validator.check (.text [indentRule]) value = .ok s ↔ value = .string s ∧ isIndent s := by
  rw [text_accepted]
  simp [indentRule, TextRule.allows]

end Validator

/-!
### All settings
-/

theorem policyName_policyOf (name : { name : String // name ∈ policyNames }) :
    Config.policyName (policyOf name) = name.val := by
  obtain ⟨name, listed⟩ := name
  simp only [policyNames, List.mem_cons, List.not_mem_nil, or_false] at listed
  rcases listed with rfl | rfl <;> rfl

/-- The text of an error policy as one of their names. -/
def listedPolicy (policy : ErrorPolicy) : { name : String // name ∈ policyNames } :=
  ⟨Config.policyName policy, by cases policy <;> simp [policyNames, Config.policyName]⟩

theorem policyOf_listedPolicy (policy : ErrorPolicy) : policyOf (listedPolicy policy) = policy := by
  cases policy <;> rfl

namespace Config

/-- The fields of an object are those of settings with the given path to the work directory. -/
structure Holds (object : Record Json) (workDir : String) (config : Config) : Prop where
  files : (Record.get? object "files").getD (.array []) = .array (config.files.map .string)
  named : "" ∉ config.files
  globs : (Record.get? object "globs").getD (.array []) = .array (config.globs.map .string)
  patterned : "" ∉ config.globs
  ignore : (Record.get? object "ignore").getD (.array (defaultIgnore.map .string)) =
    .array (config.ignore.map .string)
  workDir : (Record.get? object "workDir").getD (.string ".") = .string workDir
  indent : (Record.get? object "indent").getD (.string defaultIndent) = .string config.indent
  blank : isIndent config.indent
  dryRun : (Record.get? object "dryRun").getD (.bool false) = .bool config.dryRun
  errorPolicy : (Record.get? object "errorPolicy").getD (.string "fail") =
    .string (policyName config.errorPolicy)
  enforceBoundary : (Record.get? object "enforceBoundary").getD (.bool true) =
    .bool config.enforceBoundary
  known : unknownKeys settingFields object = []

/-- An object is accepted as the settings that its fields hold. -/
theorem exists_ofValues_iff (validator : Validator) {base : Location} {object : Record Json}
    {config : Config} :
    (∃ values, validator.checkObject settingFields (some (.object object)) = .ok values ∧
        ofValues base values = config) ↔
      ∃ path, Holds object path config ∧ config.workDir = base.resolve path := by
  simp only [validator.object_accepted]
  constructor
  · rintro ⟨⟨files, globs, ignore, workDir, indent, dryRun, policy, boundary, ⟨⟩⟩, ⟨read, known⟩, rfl⟩
    obtain ⟨filesRead, globsRead, ignoreRead, workDirRead, indentRead, dryRunRead, policyRead,
      boundaryRead, -⟩ := read
    obtain ⟨filesHeld, named⟩ := validator.nonempty_texts_accepted.mp filesRead
    obtain ⟨globsHeld, patterned⟩ := validator.nonempty_texts_accepted.mp globsRead
    obtain ⟨indentHeld, blank⟩ := validator.indent_accepted.mp indentRead
    refine ⟨workDir, ?_, rfl⟩
    exact {
      files := filesHeld
      named := named
      globs := globsHeld
      patterned := patterned
      ignore := validator.any_texts_accepted.mp ignoreRead
      workDir := validator.any_text_accepted.mp workDirRead
      indent := indentHeld
      blank := blank
      dryRun := (validator.truth_accepted _ _).mp dryRunRead
      errorPolicy := by
        rw [ofValues, policyName_policyOf]
        exact (validator.oneOf_accepted _ _ _).mp policyRead
      enforceBoundary := (validator.truth_accepted _ _).mp boundaryRead
      known := known }
  · rintro ⟨path, holds, place⟩
    refine ⟨(config.files, config.globs, config.ignore, path, config.indent, config.dryRun,
      listedPolicy config.errorPolicy, config.enforceBoundary, ()), ⟨?_, holds.known⟩, ?_⟩
    · exact ⟨validator.nonempty_texts_accepted.mpr ⟨holds.files, holds.named⟩,
        validator.nonempty_texts_accepted.mpr ⟨holds.globs, holds.patterned⟩,
        validator.any_texts_accepted.mpr holds.ignore,
        validator.any_text_accepted.mpr holds.workDir,
        validator.indent_accepted.mpr ⟨holds.indent, holds.blank⟩,
        (validator.truth_accepted _ _).mpr holds.dryRun,
        (validator.oneOf_accepted _ _ _).mpr holds.errorPolicy,
        (validator.truth_accepted _ _).mpr holds.enforceBoundary, trivial⟩
    · obtain ⟨files, globs, ignore, workDir, indent, dryRun, policy, boundary⟩ := config
      cases place
      rw [ofValues, policyOf_listedPolicy]
      rfl

/-- A value is accepted if it is an object that holds settings, and as these. -/
theorem ofJson_eq_ok {validator : Validator} {raw : Option Json} {base : Location}
    {config : Config} :
    ofJson validator raw base = .ok config ↔
      ∃ object path, raw = some (.object object) ∧ Holds object path config ∧
        config.workDir = base.resolve path := by
  have read : ofJson validator raw base = .ok config ↔
      ∃ values, validator.checkObject settingFields raw = .ok values ∧
        ofValues base values = config := by
    unfold ofJson
    cases validator.checkObject settingFields raw <;> simp
  rw [read]
  constructor
  · rintro ⟨values, accepted, same⟩
    cases raw with
    | none =>
        rw [validator.object_missing] at accepted
        cases accepted
    | some value =>
        cases value with
        | object object =>
            obtain ⟨path, holds, place⟩ :=
              (exists_ofValues_iff validator).mp ⟨values, accepted, same⟩
            exact ⟨object, path, rfl, holds, place⟩
        | _ =>
            rw [validator.object_kind _ _ fun same => by cases same] at accepted
            cases accepted
  · rintro ⟨object, path, rfl, holds⟩
    exact (exists_ofValues_iff validator).mpr ⟨path, holds⟩

/-- A value that is refused is refused for a reason that the library knows. -/
theorem isCoded_of_ofJson {validator : Validator} {raw : Option Json} {base : Location}
    {failure : Failure} (refused : ofJson validator raw base = .error failure) :
    failure.isCoded := by
  unfold ofJson at refused
  split at refused
  · cases refused
  · cases refused
    rfl

end Config

/-!
### Indents
-/

/-- No call stands in a text of spaces and tabs. -/
theorem not_hasCall_of_isIndent {indent : String} (blank : isIndent indent) :
    ¬ HasCall indent.toList := by
  rintro ⟨k, call, _, begins⟩
  obtain ⟨rest, letters⟩ := call.super_prefix
  have first : 's' ∈ call.text := by
    rw [← letters]
    simp
  have member : 's' ∈ indent.toList := List.mem_of_mem_drop (begins.subset first)
  have white := List.all_eq_true.mp blank 's' member
  cases white

namespace Config

/-- The indent of settings that were read is made of spaces and tabs. -/
theorem isIndent_of_ofJson {validator : Validator} {raw : Option Json} {base : Location}
    {config : Config} (read : ofJson validator raw base = .ok config) :
    SuperCalls.isIndent config.indent := by
  obtain ⟨fields, path, _, holds, _⟩ := ofJson_eq_ok.mp read
  exact holds.blank

end Config

namespace Command

theorem isIndent_pushn (width : Nat) : isIndent ("".pushn ' ' width) := by
  rw [String.pushn_eq_repeat_push]
  induction width with
  | zero => rfl
  | succ width ih =>
      rw [Nat.repeat]
      unfold isIndent at ih ⊢
      simpa using ih

/-- The indent that an argument asks for is made of spaces. -/
theorem isIndent_of_indentOf {text indent : String} (asked : indentOf text = .ok indent) :
    isIndent indent := by
  unfold indentOf at asked
  split at asked
  · cases asked
  · next width _ =>
      split at asked
      · cases asked
      · cases asked
        exact isIndent_pushn width

/-- The indent is all that can be wrong with what arguments put in the place of the settings. -/
theorem override_eq (cwd : Location) (arguments : Arguments) (config : Config) :
    override cwd arguments config =
      arguments.indent.elim (.ok config.indent) indentOf >>= fun indent =>
        override cwd { arguments with indent := none } { config with indent := indent } := by
  unfold override
  cases arguments.indent with
  | none => rfl
  | some text => rfl

/-- Arguments are refused exactly if the indent that they ask for is. -/
theorem override_eq_error_iff {cwd : Location} {arguments : Arguments} {config : Config}
    {failure : Failure} :
    override cwd arguments config = .error failure ↔
      ∃ text, arguments.indent = some text ∧ indentOf text = .error failure := by
  rw [override_eq, bind_eq_error_iff]
  constructor
  · rintro (failed | ⟨_, _, ⟨⟩⟩)
    cases asked : arguments.indent with
    | none =>
        rw [asked] at failed
        cases failed
    | some text =>
        rw [asked] at failed
        exact ⟨text, rfl, failed⟩
  · rintro ⟨text, asked, failed⟩
    rw [asked]
    exact Or.inl failed

theorem isIndent_of_override {cwd : Location} {arguments : Arguments} {base changed : Config}
    (blank : isIndent base.indent) (done : override cwd arguments base = .ok changed) :
    isIndent changed.indent := by
  rw [override_eq] at done
  obtain ⟨indent, asked, rest⟩ := ok_of_bind_ok done
  cases rest
  cases given : arguments.indent with
  | none =>
      rw [given] at asked
      cases asked
      exact blank
  | some text =>
      rw [given] at asked
      exact isIndent_of_indentOf asked

end Command

end SuperCalls
