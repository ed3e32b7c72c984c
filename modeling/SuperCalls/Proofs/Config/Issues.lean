/-
Module: SuperCalls.Proofs.Config.Issues
Purpose: What is reported of a configuration that is refused: one issue for each fault, in the order
  of the settings and of their items, and behind them one for all keys that name no setting.
Main exports: Lists, Form.lists_issues, lists_object, Config.conforms_or_lists
-/
import SuperCalls.Proofs.Config.Schema

namespace SuperCalls

/-!
### Lists of issues
-/

/-- Issues list what is wrong at the spots: each of it once, in the order of the spots. -/
def Lists (issues : List Issue) (wrong : Spot → Issue → Prop) : Prop :=
  ∃ found : List (Spot × Issue), found.map (·.2) = issues ∧
    found.Pairwise (fun a b => a.1.Before b.1) ∧
    ∀ spot issue, (spot, issue) ∈ found ↔ wrong spot issue

namespace Lists

variable {wrong other all : Spot → Issue → Prop} {issues more : List Issue}

theorem nil (fine : ∀ spot issue, ¬ wrong spot issue) : Lists [] wrong :=
  ⟨[], rfl, .nil, fun spot issue => iff_of_false List.not_mem_nil (fine spot issue)⟩

theorem singleton (spot : Spot) {issue : Issue}
    (only : ∀ s i, wrong s i ↔ s = spot ∧ i = issue) : Lists [issue] wrong := by
  refine ⟨[(spot, issue)], rfl, List.pairwise_singleton _ _, fun s i => ?_⟩
  rw [only, List.mem_singleton, Prod.mk.injEq]

/-- Issues at earlier spots and issues at later ones list what is wrong at all of them. -/
theorem append (first : Lists issues wrong) (second : Lists more other)
    (apart : ∀ a i b j, wrong a i → other b j → a.Before b)
    (both : ∀ spot issue, all spot issue ↔ wrong spot issue ∨ other spot issue) :
    Lists (issues ++ more) all := by
  obtain ⟨found, rfl, sorted, listed⟩ := first
  obtain ⟨later, rfl, ordered, enrolled⟩ := second
  refine ⟨found ++ later, List.map_append, List.pairwise_append.mpr ⟨sorted, ordered, ?_⟩, ?_⟩
  · rintro ⟨a, i⟩ here ⟨b, j⟩ there
    exact apart a i b j ((listed a i).mp here) ((enrolled b j).mp there)
  · intro spot issue
    rw [List.mem_append, listed, enrolled, both]

theorem congr (lists : Lists issues wrong)
    (same : ∀ spot issue, other spot issue ↔ wrong spot issue) : Lists issues other := by
  obtain ⟨found, own, sorted, listed⟩ := lists
  exact ⟨found, own, sorted, fun spot issue => (listed spot issue).trans (same spot issue).symm⟩

/-- Issues that are changed one by one list what is wrong, changed in the same way. -/
theorem map (lists : Lists issues wrong) (f : Issue → Issue) :
    Lists (issues.map f) fun spot issue => ∃ own, wrong spot own ∧ issue = f own := by
  obtain ⟨found, rfl, sorted, listed⟩ := lists
  refine ⟨found.map fun a => (a.1, f a.2), by simp [Function.comp_def],
    List.pairwise_map.mpr sorted, fun spot issue => ?_⟩
  rw [List.mem_map]
  constructor
  · rintro ⟨⟨_, own⟩, member, ⟨⟩⟩
    exact ⟨own, (listed _ _).mp member, rfl⟩
  · rintro ⟨own, faulty, rfl⟩
    exact ⟨(spot, own), (listed _ _).mpr faulty, rfl⟩

theorem ne_nil (lists : Lists issues wrong) {spot : Spot} {issue : Issue}
    (faulty : wrong spot issue) : issues ≠ [] := by
  obtain ⟨found, rfl, _, listed⟩ := lists
  exact List.ne_nil_of_mem (List.mem_map_of_mem (f := Prod.snd) ((listed spot issue).mpr faulty))

end Lists

/-!
### Single settings

The issues that a validator has with a value list what is wrong with it.
-/

/-- What is wrong with the value of a setting, at the spots of this setting. -/
def Form.Wrong (form : Form) (name : String) (k : Nat) (value : Json) (spot : Spot)
    (issue : Issue) : Prop :=
  ∃ i fault, spot = ⟨k, i⟩ ∧ form.Faults value i fault ∧ issue = fault.within name

section Settings

variable (validator : Validator)

/-- The rules for a text that may have to be no empty one. -/
abbrev textRules (nonempty : Bool) : List TextRule :=
  if nonempty then [.nonempty] else []

/-- The issues with a text, at a spot of one's choice. -/
theorem lists_text (nonempty : Bool) (value : Json) (spot : Spot) :
    Lists (validator.check (.text (textRules nonempty)) value).issues fun s issue =>
      s = spot ∧ ∃ complaint, TextFault nonempty value complaint ∧ issue = ⟨[], complaint⟩ := by
  have reported {complaint : Complaint} (fault : TextFault nonempty value complaint) :
      Lists [⟨[], complaint⟩] fun s issue =>
        s = spot ∧ ∃ complaint, TextFault nonempty value complaint ∧ issue = ⟨[], complaint⟩ := by
    refine .singleton spot fun s issue => and_congr_right fun _ => ?_
    constructor
    · rintro ⟨_, again, rfl⟩
      rw [again.unique fault]
    · rintro rfl
      exact ⟨complaint, fault, rfl⟩
  cases value with
  | string s =>
      rw [validator.text_issues]
      by_cases empty : nonempty = true ∧ s = ""
      · obtain ⟨rfl, rfl⟩ := empty
        exact reported (.empty rfl)
      · have none : (textRules nonempty).filter (fun rule => !rule.allows s) = [] := by
          cases nonempty with
          | false => rfl
          | true => simpa [TextRule.allows] using empty
        rw [none]
        refine .nil ?_
        rintro _ _ ⟨_, _, fault, _⟩
        cases fault with
        | kind other => exact other rfl
        | empty wanted => exact empty ⟨wanted, rfl⟩
  | _ =>
      rw [validator.kind_issues _ _ fun same => by cases same]
      exact reported (.kind fun same => by cases same)

/-- The issues with the items of a list from a position on, in their order. -/
theorem lists_items (nonempty : Bool) (k : Nat) (items : List Json) :
    ∀ n, Lists ((items.zipIdx n).flatMap fun (item, i) =>
        (validator.check (.text (textRules nonempty)) item).issues.map (·.within (toString i)))
      fun spot issue => ∃ i item complaint, spot = ⟨k, n + i⟩ ∧ items[i]? = some item ∧
        TextFault nonempty item complaint ∧ issue = ⟨[toString (n + i)], complaint⟩ := by
  induction items with
  | nil => exact fun n => .nil (by rintro _ _ ⟨i, item, complaint, _, there, _⟩; cases there)
  | cons item items ih =>
      intro n
      rw [List.zipIdx_cons, List.flatMap_cons]
      refine ((lists_text validator nonempty item ⟨k, n⟩).map _).append (ih (n + 1)) ?_ ?_
      · rintro _ _ _ _ ⟨_, ⟨rfl, _⟩, _⟩ ⟨i, _, _, rfl, _⟩
        exact Or.inr ⟨rfl, by dsimp only; omega⟩
      · intro spot issue
        constructor
        · rintro ⟨i, other, complaint, rfl, there, fault, rfl⟩
          cases i with
          | zero =>
              cases there
              exact Or.inl ⟨_, ⟨rfl, complaint, fault, rfl⟩, rfl⟩
          | succ i =>
              rw [show n + (i + 1) = n + 1 + i by omega]
              exact Or.inr ⟨i, other, complaint, rfl, there, fault, rfl⟩
        · rintro (⟨_, ⟨rfl, complaint, fault, rfl⟩, rfl⟩ |
            ⟨i, other, complaint, rfl, there, fault, rfl⟩)
          · exact ⟨0, item, complaint, rfl, rfl, fault, rfl⟩
          · rw [show n + 1 + i = n + (i + 1) by omega]
            exact ⟨i + 1, other, complaint, rfl, there, fault, rfl⟩

variable (name : String) (k : Nat) {form : Form} {value : Json}

/-- With a value that is accepted there is no issue. -/
theorem Form.lists_of_fits (fits : form.Fits value) :
    Lists ((validator.check form.shape value).issues.map (·.within name))
      (form.Wrong name k value) := by
  obtain ⟨v, accepted⟩ := (form.accepted_iff validator value).mpr fits
  rw [accepted]
  refine .nil ?_
  rintro _ _ ⟨i, fault, _, faulty, _⟩
  exact fits.faultless i fault faulty

/-- With a value that has a fault of its own this is the one issue. -/
theorem Form.lists_of_fault {complaint : Complaint} (faulty : form.Faults value 0 ⟨[], complaint⟩)
    (reported : (validator.check form.shape value).issues = [⟨[], complaint⟩]) :
    Lists ((validator.check form.shape value).issues.map (·.within name))
      (form.Wrong name k value) := by
  rw [reported]
  refine .singleton ⟨k, 0⟩ fun spot issue => ?_
  constructor
  · rintro ⟨i, fault, rfl, again, rfl⟩
    cases faulty.whole again
    rw [again.unique faulty]
    exact ⟨rfl, rfl⟩
  · rintro ⟨rfl, rfl⟩
    exact ⟨0, _, rfl, faulty, rfl⟩

/-- With a value of another kind its kind is the one issue. -/
theorem Form.lists_of_kind (other : value.kind ≠ form.shape.kind)
    (faulty : form.Faults value 0 ⟨[], .wrongKind form.shape.expected value.kind⟩) :
    Lists ((validator.check form.shape value).issues.map (·.within name))
      (form.Wrong name k value) :=
  form.lists_of_fault validator name k faulty (validator.kind_issues _ _ other)

/-- The issues with a list are those with its items. -/
theorem Form.lists_of_items (nonempty : Bool) (items : List Json) :
    Lists
      ((validator.check (Form.texts nonempty).shape (.array items)).issues.map (·.within name))
      ((Form.texts nonempty).Wrong name k (.array items)) := by
  rw [show (Form.texts nonempty).shape = .list (.text (textRules nonempty)) from rfl,
    validator.list_issues]
  refine ((lists_items validator nonempty k items 0).map _).congr fun spot issue => ?_
  simp only [Nat.zero_add]
  constructor
  · rintro ⟨i, fault, rfl, faulty, rfl⟩
    cases faulty with
    | noList other => exact (other rfl).elim
    | item there fault => exact ⟨_, ⟨i, _, _, rfl, there, fault, rfl⟩, rfl⟩
  · rintro ⟨_, ⟨i, item, complaint, rfl, there, fault, rfl⟩, rfl⟩
    exact ⟨i, _, rfl, .item there fault, rfl⟩

/-- With a text that should be an indent there is no issue, or the one of the rule for indents. -/
theorem Form.lists_of_indent (s : String) :
    Lists ((validator.check Form.indent.shape (.string s)).issues.map (·.within name))
      (Form.indent.Wrong name k (.string s)) := by
  by_cases blank : isIndent s
  · exact Form.lists_of_fits validator name k ⟨s, rfl, isIndent_iff.mp blank⟩
  · have reported : (validator.check Form.indent.shape (.string s)).issues =
        [⟨[], indentRule.complaint⟩] := by
      rw [show Form.indent.shape = .text [indentRule] from rfl, validator.text_issues]
      simp [indentRule, TextRule.allows, blank]
    rw [isIndent_iff] at blank
    push Not at blank
    obtain ⟨c, held, other⟩ := blank
    exact Form.lists_of_fault validator name k (.indent held other) reported

/-- The issues with the value of a setting list what is wrong with it. -/
theorem Form.lists_issues (form : Form) (value : Json) :
    Lists ((validator.check form.shape value).issues.map (·.within name))
      (form.Wrong name k value) := by
  by_cases other : value.kind ≠ form.shape.kind
  · refine form.lists_of_kind validator name k other ?_
    cases form with
    | texts nonempty => exact .noList other
    | text => exact .text (.kind other)
    | indent => exact .noIndent other
    | truth => exact .truth other
    | policy => exact .noPolicy other
  -- The value is of the right kind, so only its content can be wrong.
  cases form with
  | texts nonempty =>
      cases value with
      | array items => exact Form.lists_of_items validator name k nonempty items
      | _ => exact (other fun same => by cases same).elim
  | text =>
      cases value with
      | string s => exact Form.lists_of_fits validator name k ⟨s, rfl⟩
      | _ => exact (other fun same => by cases same).elim
  | indent =>
      cases value with
      | string s => exact Form.lists_of_indent validator name k s
      | _ => exact (other fun same => by cases same).elim
  | truth =>
      cases value with
      | bool b => exact Form.lists_of_fits validator name k ⟨b, rfl⟩
      | _ => exact (other fun same => by cases same).elim
  | policy =>
      cases value with
      | string s =>
          by_cases listed : s ∈ policyNames
          · refine Form.lists_of_fits validator name k ?_
            simpa [Form.Fits, policyNames] using listed
          · refine Form.lists_of_fault validator name k (.policy ?_)
              (validator.oneOf_issues policyNames s listed)
            simpa [policyNames] using listed
      | _ => exact (other fun same => by cases same).elim

end Settings

/-!
### The object
-/

section Objects

variable (validator : Validator) (object : Record Json)

/-- The issues with settings, numbered from a first one on, list what is wrong with their fields. -/
theorem lists_fields {fields : List Field} {settings : List (String × Form)}
    (are : List.Forall₂ Field.Has fields settings) :
    ∀ n, Lists (fields.flatMap fun field =>
        (validator.check field.shape (field.valueIn object)).issues.map (·.within field.name))
      fun spot issue => ∃ k name value, ∃ form : Form, settings[k]? = some (name, form) ∧
        Record.get? object name = some value ∧ form.Wrong name (n + k) value spot issue := by
  induction are with
  | nil => exact fun n => .nil (by rintro _ _ ⟨k, _, _, _, there, _⟩; cases there)
  | @cons field setting fields settings has _ ih =>
      intro n
      obtain ⟨name, form⟩ := setting
      rw [List.flatMap_cons]
      have own : Lists
          ((validator.check field.shape (field.valueIn object)).issues.map (·.within field.name))
          fun spot issue => ∃ value, Record.get? object name = some value ∧
            form.Wrong name n value spot issue := by
        rw [has.shape, has.name, Field.valueIn, has.name]
        cases found : Record.get? object name with
        | none =>
            -- The default of the setting stands for it, and it is accepted.
            obtain ⟨v, accepted⟩ := (form.accepted_iff validator _).mpr has.default
            rw [Option.getD_none, accepted]
            exact .nil (by rintro _ _ ⟨_, there, _⟩; cases there)
        | some value =>
            refine (form.lists_issues validator name n value).congr fun spot issue => ?_
            constructor
            · rintro ⟨_, ⟨⟩, wrong⟩
              exact wrong
            · exact fun wrong => ⟨value, rfl, wrong⟩
      refine own.append (ih (n + 1)) ?_ ?_
      · rintro _ _ _ _ ⟨_, _, _, _, rfl, _⟩ ⟨k, _, _, _, _, _, _, _, rfl, _⟩
        exact Or.inl (by dsimp only; omega)
      · intro spot issue
        constructor
        · rintro ⟨k, other, value, form, there, found, wrong⟩
          cases k with
          | zero =>
              cases there
              exact Or.inl ⟨value, found, wrong⟩
          | succ k =>
              rw [show n + (k + 1) = n + 1 + k by omega] at wrong
              exact Or.inr ⟨k, other, value, form, there, found, wrong⟩
        · rintro (⟨value, found, wrong⟩ | ⟨k, other, value, form, there, found, wrong⟩)
          · exact ⟨0, name, value, form, rfl, found, wrong⟩
          · rw [show n + 1 + k = n + (k + 1) by omega] at wrong
            exact ⟨k + 1, other, value, form, there, found, wrong⟩

/-- The issues with an object list what is wrong with its fields. -/
theorem lists_object :
    Lists (validator.checkObject settingFields (some (.object object))).issues
      (Violates object) := by
  have unknown : unknownKeys settingFields object =
      (object.map (·.1)).filter (· ∉ schema.map (·.1)) := by
    refine List.filter_congr fun key _ => ?_
    rw [show settingFields.map Field.name = schema.map (·.1) from rfl]
    simp
  rw [validator.object_issues, unknown]
  have others : Lists
      (if ((object.map (·.1)).filter (· ∉ schema.map (·.1))).isEmpty then []
        else [⟨[], .unknownKeys ((object.map (·.1)).filter (· ∉ schema.map (·.1)))⟩])
      fun spot issue => spot = ⟨schema.length, 0⟩ ∧
        ∃ keys, keys = (object.map (·.1)).filter (· ∉ schema.map (·.1)) ∧ keys ≠ [] ∧
          issue = ⟨[], .unknownKeys keys⟩ := by
    generalize (object.map (·.1)).filter (· ∉ schema.map (·.1)) = keys
    cases keys with
    | nil => exact .nil (by rintro _ _ ⟨_, _, rfl, some, _⟩; exact some rfl)
    | cons key keys =>
        refine .singleton ⟨schema.length, 0⟩ fun spot issue => and_congr_right fun _ => ?_
        constructor
        · rintro ⟨_, rfl, _, rfl⟩
          rfl
        · rintro rfl
          exact ⟨_, rfl, List.cons_ne_nil _ _, rfl⟩
  refine (lists_fields validator object settingFields_has 0).append others ?_ ?_
  · rintro _ _ _ _ ⟨k, _, _, _, there, _, _, _, rfl, _⟩ ⟨rfl, _⟩
    obtain ⟨before, _⟩ := List.getElem?_eq_some_iff.mp there
    exact Or.inl (by dsimp only; omega)
  · intro spot issue
    simp only [Nat.zero_add]
    constructor
    · intro violates
      cases violates with
      | setting listed there faulty =>
          exact Or.inl ⟨_, _, _, _, listed, there, _, _, rfl, faulty, rfl⟩
      | unknown same some => exact Or.inr ⟨rfl, _, same, some, rfl⟩
    · rintro (⟨k, name, value, form, listed, there, i, fault, rfl, faulty, rfl⟩ |
        ⟨rfl, keys, same, some, rfl⟩)
      · exact .setting listed there faulty
      · exact .unknown same some

end Objects

namespace Config

/-- A value is accepted exactly if it is an object that conforms to the schema.  Any other one is
refused with a message that lists one issue for each thing that is wrong with the fields, in the
order of the settings and of their items, and behind these one for all unknown keys; or with the one
issue that the value is no object.  So it is with every validator. -/
theorem conforms_or_lists (validator : Validator) (raw : Json) (base : Location) :
    ((∃ config, ofJson validator (some raw) base = .ok config) ↔
      ∃ fields, raw = .object fields ∧ Conforms fields) ∧
    ((∃ config, ofJson validator (some raw) base = .ok config) ∨
      ∃ issues, ofJson validator (some raw) base = .error (.coded .invalidConfig
          ("Invalid configuration: " ++
            "; ".intercalate (issues.map (Issue.text validator.message))) none) ∧
        issues ≠ [] ∧
        ((∃ fields, raw = .object fields ∧ Lists issues (Violates fields)) ∨
          raw.kind ≠ .object ∧ issues = [⟨[], .wrongKind "object" raw.kind⟩])) := by
  refine ⟨accepts_iff_conforms validator raw base, ?_⟩
  cases checked : validator.checkObject settingFields (some raw) with
  | ok values => exact Or.inl ⟨ofValues base values, by rw [ofJson, checked]⟩
  | error issues =>
      have refused : ofJson validator (some raw) base =
          .error (issuesFailure validator.message issues) := by
        rw [ofJson, checked]
      refine Or.inr ⟨issues, refused, ?_⟩
      cases raw with
      | object fields =>
          have lists : Lists issues (Violates fields) := by
            have reported := lists_object validator fields
            rwa [checked] at reported
          refine ⟨?_, Or.inl ⟨fields, rfl, lists⟩⟩
          -- An object without a fault would have been accepted.
          obtain ⟨spot, issue, faulty⟩ : ∃ spot issue, Violates fields spot issue := by
            by_contra faultless
            have conforms : Conforms fields :=
              conforms_iff.mpr fun spot issue faulty => faultless ⟨spot, issue, faulty⟩
            obtain ⟨config, accepted⟩ :=
              (accepts_iff_conforms validator _ base).mpr ⟨fields, rfl, conforms⟩
            rw [refused] at accepted
            cases accepted
          exact lists.ne_nil faulty
      | _ =>
          rw [validator.object_kind _ _ fun same => by cases same] at checked
          cases checked
          exact ⟨List.cons_ne_nil _ _, Or.inr ⟨nofun, rfl⟩⟩

/-- Several settings are wrong, one of them in two items, and two keys name no setting. -/
theorem conforms_or_lists_standard :
    let fields : Record Json := [("7", .null), ("indent", .string " \n"),
      ("errorPolicy", .string "stop"), ("files", .array [.string "", .string "a", .number "1"]),
      ("__proto__", .object [])]
    ofJson .standard (some (.object fields)) [] =
      .error (.coded .invalidConfig ("Invalid configuration: " ++ "; ".intercalate
        ["files.0: String must contain at least 1 character(s)",
          "files.2: Expected string, received number",
          "indent: indent may only contain spaces and tabs",
          "errorPolicy: Invalid enum value. Expected 'fail' | 'continue', received 'stop'",
          "<root>: Unrecognized key(s) in object: '7', '__proto__'"]) none) ∧
      ¬ Conforms fields ∧ ∃ issues, issues ≠ [] ∧ Lists issues (Violates fields) := by
  intro fields
  have refused : ofJson .standard (some (.object fields)) [] = .error _ := rfl
  obtain ⟨accepts, ⟨config, accepted⟩ | ⟨issues, _, some, lists⟩⟩ :=
    conforms_or_lists .standard (.object fields) []
  · rw [refused] at accepted
    cases accepted
  refine ⟨refused, fun conforms => ?_, ?_⟩
  · obtain ⟨config, accepted⟩ := accepts.mpr ⟨fields, rfl, conforms⟩
    rw [refused] at accepted
    cases accepted
  · rcases lists with ⟨_, ⟨⟩, lists⟩ | ⟨other, _⟩
    · exact ⟨issues, some, lists⟩
    · exact (other rfl).elim

end Config

end SuperCalls
