/-
Module: SuperCalls.Proofs.Command.OptionsAsSettings
Purpose: Options and the file of settings say the same things.  What the options of a command say can be
  written down as the object of such a file, which is read as the settings that the command works
  with.
Main exports: Arguments.ofItems, Arguments.eq_ofItems_of_read, Record.present, spelled,
  Command.config_eq_ofJson_spelled
-/
import SuperCalls.Proofs.Command.Breakdown
import SuperCalls.Proofs.Command.ReportedChanges
import SuperCalls.Proofs.Config.Admission
import SuperCalls.Proofs.Text.Numeral

namespace SuperCalls

/-!
### Records of what is there
-/

namespace Record

variable {α : Type}

/-- The fields that have a value. -/
def present (fields : List (String × Option α)) : Record α :=
  fields.filterMap fun (name, value?) => value?.map (name, ·)

theorem present_cons (name : String) (value? : Option α) (fields : List (String × Option α)) :
    present ((name, value?) :: fields) = value?.toList.map (name, ·) ++ present fields := by
  cases value? <;> rfl

theorem keys_present_subset (fields : List (String × Option α)) :
    (present fields).map (·.1) ⊆ fields.map (·.1) := by
  induction fields with
  | nil => exact List.Subset.refl _
  | cons field fields ih =>
      obtain ⟨name, value?⟩ := field
      rw [present_cons, List.map_append, List.map_cons]
      apply List.append_subset.mpr
      refine ⟨?_, List.subset_cons_of_subset _ ih⟩
      cases value? <;> simp

theorem get?_eq_none_of_not_mem {record : Record α} {name : String}
    (missing : name ∉ record.map (·.1)) : get? record name = none := by
  unfold get?
  rw [Option.map_eq_none_iff, List.find?_eq_none]
  intro field member same
  rw [← eq_of_beq same] at missing
  exact missing (List.mem_map_of_mem member)

/-- A field of a name of its own has the value that it is given. -/
theorem get?_present {fields : List (String × Option α)} (distinct : (fields.map (·.1)).Nodup)
    {name : String} {value? : Option α} (member : (name, value?) ∈ fields) :
    get? (present fields) name = value? := by
  induction fields with
  | nil => cases member
  | cons field fields ih =>
      obtain ⟨first, given?⟩ := field
      obtain ⟨own, rest⟩ := List.nodup_cons.mp distinct
      rw [present_cons]
      rcases List.mem_cons.mp member with same | later
      · cases same
        cases value? with
        | none => exact get?_eq_none_of_not_mem fun named => own (keys_present_subset fields named)
        | some value => simp [get?]
      · have differs : first ≠ name := by
          rintro rfl
          exact own (List.mem_map_of_mem (f := (·.1)) later)
        have found := ih rest later
        cases given? with
        | none => exact found
        | some value => simpa [get?, differs] using found

end Record

namespace Command

variable {validator : Validator} {finder : Finder}

/-!
### What the items say together
-/

/-- The value that an item gives to a parameter. -/
def Item.value? (p : Parameter) : Item → Option String
  | .value q text => if q = p then some text else none
  | _ => none

theorem Item.value?_eq_some {p : Parameter} {item : Item} {text : String} :
    item.value? p = some text ↔ item = .value p text := by
  cases item <;> simp [value?]

/-- The flag that an item is. -/
def Item.flag? : Item → Option Flag
  | .flag f => some f
  | _ => none

theorem Item.flag?_eq_some {item : Item} {f : Flag} : item.flag? = some f ↔ item = .flag f := by
  cases item <;> simp [flag?]

/-- The value that is given to a parameter last. -/
def lastValue (p : Parameter) (items : List Item) : Option String :=
  (items.filterMap (Item.value? p)).getLast?

/-- What items say together: of most parameters the last value, and all files, patterns and
flags. -/
def Arguments.ofItems (items : List Item) : Arguments where
  config := lastValue .config items
  globs := items.filterMap (Item.value? .glob)
  cwd := lastValue .cwd items
  indent := lastValue .indent items
  flags := items.filterMap Item.flag?
  paths := items.filterMap Item.path?

theorem lastValue_append (p : Parameter) (items : List Item) (item : Item) :
    lastValue p (items ++ [item]) = (item.value? p).or (lastValue p items) := by
  unfold lastValue
  rw [List.filterMap_append, List.getLast?_append]
  congr 1
  cases value : item.value? p <;> simp [value]

/-- One more item adds what it says. -/
theorem Arguments.add_ofItems {items : List Item} {item : Item} {after : Arguments}
    (added : (ofItems items).add item = .ok after) : after = ofItems (items ++ [item]) := by
  unfold ofItems at added ⊢
  simp only [lastValue_append, List.filterMap_append]
  cases item with
  | flag f =>
      cases added
      simp [Item.value?, Item.flag?, Item.path?]
  | value p text =>
      cases added
      cases p <;> simp [Item.value?, Item.flag?, Item.path?, Arguments.assign]
  | path text =>
      cases added
      simp [Item.value?, Item.flag?, Item.path?]
  | misuse error => cases added

theorem Arguments.eq_ofItems_of_foldlM {items : List Item} {given : Arguments}
    (added : items.foldlM add empty = .ok given) : given = ofItems items := by
  induction items using List.reverseRecOn generalizing given with
  | nil =>
      cases added
      rfl
  | append_singleton items item ih =>
      rw [List.foldlM_append] at added
      obtain ⟨before, earlier, last⟩ := ok_of_bind_ok added
      obtain ⟨after, step, done⟩ := ok_of_bind_ok last
      cases done
      cases ih earlier
      exact add_ofItems step

/-- Arguments are read as what their items say together. -/
theorem Arguments.eq_ofItems_of_read {arguments : List String} {given : Arguments}
    (read : Arguments.read arguments = .ok given) : given = ofItems (scan arguments) :=
  eq_ofItems_of_foldlM read

/-!
### The object of a file
-/

/-- The names of the settings that items can say something of. -/
def spelledNames : List String :=
  ["files", "globs", "workDir", "indent", "dryRun", "errorPolicy", "enforceBoundary"]

/-- What items say, under the names of settings.  An indent is given by its width. -/
def spelledFields (items : List Item) (width : Option ℕ) : List (String × Option Json) :=
  let files := items.filterMap Item.path?
  let globs := items.filterMap (Item.value? .glob)
  [("files", if files = [] then none else some (.array (files.map .string))),
   ("globs", if globs = [] then none else some (.array (globs.map .string))),
   ("workDir", (lastValue .cwd items).map .string),
   ("indent", width.map fun n => .string ("".pushn ' ' n)),
   ("dryRun", if .flag .dryRun ∈ items then some (.bool true) else none),
   ("errorPolicy", if .flag .continueOnError ∈ items then some (.string "continue") else none),
   ("enforceBoundary", if .flag .noBoundary ∈ items then some (.bool false) else none)]

theorem names_spelledFields (items : List Item) (width : Option ℕ) :
    (spelledFields items width).map (·.1) = spelledNames :=
  rfl

/-- What items say, as the object of a file of settings; what they do not say is left out. -/
def spelled (items : List Item) (width : Option ℕ) : Record Json :=
  Record.present (spelledFields items width)

/-- The settings that items say; what they do not say is as by default. -/
def settled (cwd : Location) (items : List Item) (width : Option ℕ) : Config where
  files := items.filterMap Item.path?
  globs := items.filterMap (Item.value? .glob)
  ignore := defaultIgnore
  workDir := cwd.resolve ((lastValue .cwd items).getD ".")
  indent := width.elim defaultIndent ("".pushn ' ' ·)
  dryRun := decide (.flag .dryRun ∈ items)
  errorPolicy := if .flag .continueOnError ∈ items then .continue else .fail
  enforceBoundary := decide (.flag .noBoundary ∉ items)

/-- A list of texts that is left out if it is empty stands for that list. -/
theorem getD_texts (texts : List String) :
    (if texts = [] then none else some (Json.array (texts.map .string))).getD (.array []) =
      .array (texts.map .string) := by
  split
  · next none =>
      rw [none]
      rfl
  · rfl

/-- A setting stands for what stands for it among the fields. -/
theorem getD_spelled {items : List Item} {width : Option ℕ} (k : ℕ) {name : String}
    {value? : Option Json} (here : (spelledFields items width)[k]? = some (name, value?))
    {default value : Json} (stands : value?.getD default = value) :
    (Record.get? (spelled items width) name).getD default = value := by
  have distinct : ((spelledFields items width).map (·.1)).Nodup := by
    rw [names_spelledFields]
    decide
  unfold spelled
  rw [Record.get?_present distinct (List.mem_of_getElem? here)]
  exact stands

theorem holds_spelled {items : List Item} (files : .path "" ∉ items)
    (globs : .value .glob "" ∉ items) (cwd : Location) (width : Option ℕ) :
    Config.Holds (spelled items width) ((lastValue .cwd items).getD ".")
      (settled cwd items width) where
  files := getD_spelled 0 rfl (getD_texts _)
  named := by simpa [settled, List.mem_filterMap, Item.path?_eq_some] using files
  globs := getD_spelled 1 rfl (getD_texts _)
  patterned := by simpa [settled, List.mem_filterMap, Item.value?_eq_some] using globs
  ignore := by
    have missing : "ignore" ∉ (spelledFields items width).map (·.1) := by
      rw [names_spelledFields]
      decide
    have absent : Record.get? (spelled items width) "ignore" = none :=
      Record.get?_eq_none_of_not_mem fun named => missing (Record.keys_present_subset _ named)
    rw [absent]
    rfl
  workDir := by
    refine getD_spelled 2 rfl ?_
    cases lastValue .cwd items <;> rfl
  indent := by
    refine getD_spelled 3 rfl ?_
    cases width <;> rfl
  blank := by
    cases width with
    | none =>
        show isIndent defaultIndent
        decide +kernel
    | some n => exact isIndent_pushn n
  dryRun := by
    refine getD_spelled 4 rfl ?_
    by_cases given : .flag .dryRun ∈ items <;> simp [settled, given]
  errorPolicy := by
    refine getD_spelled 5 rfl ?_
    by_cases given : .flag .continueOnError ∈ items <;> simp [settled, given, Config.policyName]
  enforceBoundary := by
    refine getD_spelled 6 rfl ?_
    by_cases given : .flag .noBoundary ∈ items <;> simp [settled, given]
  known := by
    have names : ∀ name ∈ (spelledFields items width).map (·.1),
        name ∈ settingFields.map Field.name := by
      rw [names_spelledFields]
      decide
    unfold unknownKeys
    rw [List.filter_eq_nil_iff]
    intro name member
    simpa using names name (Record.keys_present_subset _ member)

/-- The object is read as what the items say. -/
theorem ofJson_spelled {items : List Item} (files : .path "" ∉ items)
    (globs : .value .glob "" ∉ items) (cwd : Location) (width : Option ℕ) :
    Config.ofJson validator (some (.object (spelled items width))) cwd =
      .ok (settled cwd items width) :=
  Config.ofJson_eq_ok.mpr ⟨_, _, rfl, holds_spelled files globs cwd width, rfl⟩

/-!
### The settings of the command
-/

theorem Arguments.has_ofItems (items : List Item) (f : Flag) :
    (ofItems items).has f = decide (.flag f ∈ items) := by
  simp [Arguments.has, ofItems, List.mem_filterMap, Item.flag?_eq_some]

/-- The last indent that items ask for is a decimal integer of the given width, if there is one. -/
def AsksForWidth (items : List Item) (width : Option ℕ) : Prop :=
  Option.Rel (fun text (n : ℕ) => Text.WritesInteger text n ∧ n ≤ widthLimit)
    (lastValue .indent items) width

theorem indentOf_of_writesInteger {text : String} {n : ℕ} (writes : Text.WritesInteger text n)
    (narrow : n ≤ widthLimit) : indentOf text = .ok ("".pushn ' ' n) := by
  have small : n < 2 ^ 53 := lt_of_le_of_lt narrow (by decide)
  have read := Text.whole?_ofText?_eq_some_iff.mpr (.inr (writes.writesWhole small))
  unfold indentOf
  rw [read]
  exact if_neg narrow.not_gt

theorem nonempty?_of_ne {text? : Option String} (named : text? ≠ some "") :
    nonempty? text? = text? := by
  unfold nonempty?
  split
  · exact absurd rfl named
  · rfl

/-- What items say takes the place of what is so by default. -/
theorem override_ofItems {cwd : Location} {items : List Item} {width : Option ℕ}
    (asked : AsksForWidth items width) (directory : lastValue .cwd items ≠ some "") :
    override cwd (.ofItems items) (settled cwd [] none) = .ok (settled cwd items width) := by
  have indent : (Arguments.ofItems items).indent.elim (.ok defaultIndent) indentOf =
      .ok (width.elim defaultIndent ("".pushn ' ' ·)) := by
    unfold AsksForWidth at asked
    unfold Arguments.ofItems
    generalize lastValue .indent items = text? at asked
    cases asked with
    | none => rfl
    | some asked => exact indentOf_of_writesInteger asked.1 asked.2
  have kept (texts : List String) : (if texts.isEmpty then [] else texts) = texts := by
    cases texts <;> rfl
  have has := Arguments.has_ofItems items
  rw [override_eq, show (settled cwd [] none).indent = defaultIndent from rfl, indent]
  refine congrArg Except.ok ((Config.mk.injEq ..).mpr
    ⟨kept _, kept _, rfl, ?workDir, rfl, ?dryRun, ?policy, ?boundary⟩)
  case workDir =>
    have given : nonempty? (Arguments.ofItems items).cwd = lastValue .cwd items :=
      nonempty?_of_ne directory
    rw [given]
    show _ = cwd.resolve ((lastValue .cwd items).getD ".")
    cases lastValue .cwd items <;> rfl
  case dryRun => exact has .dryRun
  case policy =>
    show (if (Arguments.ofItems items).has .continueOnError then _ else ErrorPolicy.fail) = _
    simp [has]
  case boundary =>
    show (true && !(Arguments.ofItems items).has .noBoundary) = _
    simp [has]

/-- Without a file of settings, the settings are as by default before the arguments change them. -/
theorem baseConfig_eq_default {tree : Tree} {cwd : Location}
    (absent : ∀ kind, tree.stat (cwd.resolve defaultConfigFile).text ≠ .ok kind) :
    ((baseConfig validator finder.disk cwd none).run tree).1 = .ok (settled cwd [] none) := by
  have default : Config.ofJson validator (some (.object [])) cwd = .ok (settled cwd [] none) := by
    rw [← show spelled [] none = [] from rfl]
    exact ofJson_spelled List.not_mem_nil List.not_mem_nil cwd none
  cases looked : tree.stat (cwd.resolve defaultConfigFile).text with
  | ok kind => exact absurd looked (absent kind)
  | error error =>
      have stat : (liftM (finder.disk.stat (cwd.resolve defaultConfigFile).text) :
          ExceptT Failure (StateM Tree) _).run tree = (.ok (.error error), tree) := by
        rw [← looked]
        rfl
      unfold baseConfig
      rw [show nonempty? none = none from rfl]
      simp only
      rw [run_bind, stat]
      simp only [default]
      rfl

/-- What the options of a command say and the object of a file of settings that says the same give the
same settings, in a directory without such a file. -/
theorem config_eq_ofJson_spelled (validator : Validator) (finder : Finder) {tree : Tree}
    {cwd : Location} {arguments : List String} {given : Arguments}
    (read : Arguments.read arguments = .ok given)
    (absent : ∀ kind, tree.stat (cwd.resolve defaultConfigFile).text ≠ .ok kind)
    (unnamed : ∀ file, .value .config file ∉ scan arguments)
    (files : .path "" ∉ scan arguments) (globs : .value .glob "" ∉ scan arguments)
    (directory : lastValue .cwd (scan arguments) ≠ some "") {width : Option ℕ}
    (asked : AsksForWidth (scan arguments) width) :
    ∃ settings, (config validator finder.disk cwd given).run tree = (.ok settings, tree) ∧
      Config.ofJson validator (some (.object (spelled (scan arguments) width))) cwd = .ok settings := by
  have none : given.config = none := by
    rw [Arguments.eq_ofItems_of_read read]
    show lastValue .config (scan arguments) = none
    unfold lastValue
    rw [List.getLast?_eq_none_iff, List.filterMap_eq_nil_iff]
    intro item member
    apply Option.eq_none_iff_forall_ne_some.mpr
    intro file value
    cases Item.value?_eq_some.mp value
    exact unnamed file member
  refine ⟨settled cwd (scan arguments) width, ?_, ofJson_spelled files globs cwd width⟩
  rw [config_run, fst_config finder.still_disk, none, baseConfig_eq_default absent,
    Arguments.eq_ofItems_of_read read]
  exact congrArg (·, tree) (override_ofItems asked directory)

/-- Options that are mixed, and given again, say what an object of five fields says. -/
theorem config_eq_ofJson_spelled_mixed :
    ∃ given settings,
      Arguments.read ["--cwd", "v", "a", "-gx", "--cwd=d", "--indent", "2", "-n", "--glob", "*.java"] =
        .ok given ∧
      (config .standard Glob.finder.disk ["w"] given).run ⟨[]⟩ = (.ok settings, ⟨[]⟩) ∧
      Config.ofJson .standard
        (some (.object
          [("files", .array [.string "a"]), ("globs", .array [.string "x", .string "*.java"]),
           ("workDir", .string "d"), ("indent", .string "  "), ("dryRun", .bool true)]))
        ["w"] = .ok settings := by
  have items :
      scan ["--cwd", "v", "a", "-gx", "--cwd=d", "--indent", "2", "-n", "--glob", "*.java"] =
        [.value .cwd "v", .path "a", .value .glob "x", .value .cwd "d", .value .indent "2",
          .flag .dryRun, .value .glob "*.java"] := by decide +kernel
  have read :
      Arguments.read ["--cwd", "v", "a", "-gx", "--cwd=d", "--indent", "2", "-n", "--glob", "*.java"] =
        .ok ⟨none, ["x", "*.java"], some "d", some "2", [.dryRun], ["a"]⟩ := by decide +kernel
  have empty : Tree.stat ⟨[]⟩ (Location.resolve ["w"] defaultConfigFile).text =
      .error (.refused .notFound .stat (some "/w/super-patch.config.json")) := by decide +kernel
  have absent (kind : NodeKind) :
      Tree.stat ⟨[]⟩ (Location.resolve ["w"] defaultConfigFile).text ≠ .ok kind := by
    rw [empty]
    exact nofun
  have asked : AsksForWidth (scan ["--cwd", "v", "a", "-gx", "--cwd=d", "--indent", "2", "-n",
      "--glob", "*.java"]) (some 2) := by
    unfold AsksForWidth
    rw [items, show lastValue .indent _ = some "2" by decide]
    exact .some ⟨.unsigned (by decide) (List.all_eq_true.mp (by decide)), by decide⟩
  obtain ⟨settings, ran, spelt⟩ :=
    config_eq_ofJson_spelled .standard Glob.finder read absent (by rw [items]; simp)
    (by rw [items]; decide) (by rw [items]; decide) (by rw [items]; decide) asked
  rw [items] at spelt
  exact ⟨_, settings, read, ran, spelt⟩

end Command

end SuperCalls
