/-
Module: SuperCalls.Validator
Purpose: What the library asks of a validator.  A shape tells what a value has to be, and fields
  tell what an object has to hold; a validator gives what a JSON value stands for, or all issues
  with it.
Main exports: TextRule, Shape, Shape.Value, Field, Values, Complaint, Issue, Validator,
  Validator.standard
-/
import SuperCalls.Json

namespace SuperCalls

/-!
### Shapes
-/

/-- What a text has to be. -/
inductive TextRule where
  /-- It has a character. -/
  | nonempty
  /-- It passes a test; of one that does not, the message is told. -/
  | passes (test : String → Bool) (message : String)

/-- Whether a rule lets a text pass. -/
def TextRule.allows : TextRule → String → Bool
  | nonempty, s => s != ""
  | passes test _, s => test s

/-- What a value has to be. -/
inductive Shape where
  | text (rules : List TextRule)
  | truth
  /-- One of some texts. -/
  | oneOf (names : List String)
  | list (item : Shape)

namespace Shape

/-- What the values of a shape stand for. -/
@[reducible] def Value : Shape → Type
  | text _ => String
  | truth => Bool
  | oneOf names => { name : String // name ∈ names }
  | list item => List item.Value

/-- The kind of the values of a shape. -/
def kind : Shape → Json.Kind
  | text _ => .string
  | truth => .boolean
  | oneOf _ => .string
  | list _ => .array

/-- What is said to be expected where a value of a shape is. -/
def expected : Shape → String
  | oneOf names => " | ".intercalate (names.map fun name => s!"'{name}'")
  | shape => shape.kind.name

end Shape

/-- A field of an object.  Where it is absent its default stands for it. -/
structure Field where
  name : String
  shape : Shape
  default : Json

/-- The value of a field in an object. -/
def Field.valueIn (field : Field) (object : Record Json) : Json :=
  (Record.get? object field.name).getD field.default

/-- What the values of several fields stand for. -/
@[reducible] def Values : List Field → Type
  | [] => Unit
  | field :: fields => field.shape.Value × Values fields

/-- The keys of an object that no field has as its name. -/
def unknownKeys (fields : List Field) (object : Record Json) : List String :=
  (object.map (·.1)).filter fun key => !(fields.map Field.name).contains key

/-!
### Issues
-/

/-- What is wrong with a value. -/
inductive Complaint where
  /-- There is no value. -/
  | missing
  /-- The value is of another kind. -/
  | wrongKind (expected : String) (received : Json.Kind)
  /-- A text that has to have a character has none. -/
  | tooShort
  /-- A text does not pass a test, of which this is the message. -/
  | untested (message : String)
  /-- A text is none of those that it has to be one of. -/
  | notListed (names : List String) (received : String)
  /-- There are keys that no field has as its name. -/
  | unknownKeys (keys : List String)
deriving Repr, DecidableEq

/-- The complaint about a text that a rule does not let pass. -/
def TextRule.complaint : TextRule → Complaint
  | nonempty => .tooShort
  | passes _ message => .untested message

/-- A complaint and the way to the value that it is about. -/
structure Issue where
  path : List String
  complaint : Complaint
deriving Repr, DecidableEq

/-- An issue, seen from the value that has the other one under a name. -/
def Issue.within (issue : Issue) (name : String) : Issue :=
  ⟨name :: issue.path, issue.complaint⟩

/-- What a value stands for, or what is wrong with it. -/
abbrev Checked (α : Type) := Except (List Issue) α

/-- The issues of a check. -/
def Checked.issues {α : Type} : Checked α → List Issue
  | .ok _ => []
  | .error issues => issues

/-- What fields stand for is what a check makes of their values in an object. -/
def Values.Of (check : (shape : Shape) → Json → Checked shape.Value) (object : Record Json) :
    {fields : List Field} → Values fields → Prop
  | [], _ => True
  | field :: _, (value, values) =>
      check field.shape (field.valueIn object) = .ok value ∧ Values.Of check object values

/-!
### Validators
-/

/-- A validator: its checks, and what it is known to do.  Of a value that is not accepted all
issues are given. -/
structure Validator where
  check : (shape : Shape) → Json → Checked shape.Value
  /-- Check an object that may have no other keys than its fields, or the absence of a value. -/
  checkObject : (fields : List Field) → Option Json → Checked (Values fields)
  /-- The text of a complaint. -/
  message : Complaint → String
  /-- A text is accepted if all rules let it pass. -/
  text_accepted : ∀ rules value s,
    check (.text rules) value = .ok s ↔ value = .string s ∧ ∀ rule ∈ rules, rule.allows s
  /-- There is one issue for each rule that does not let a text pass, in order. -/
  text_issues : ∀ rules s, (check (.text rules) (.string s)).issues =
    (rules.filter fun rule => !rule.allows s).map fun rule => ⟨[], rule.complaint⟩
  truth_accepted : ∀ value b, check .truth value = .ok b ↔ value = .bool b
  /-- A text is accepted as itself if it is listed. -/
  oneOf_accepted : ∀ names value name,
    check (.oneOf names) value = .ok name ↔ value = .string name.val
  oneOf_issues : ∀ names s, s ∉ names →
    (check (.oneOf names) (.string s)).issues = [⟨[], .notListed names s⟩]
  /-- A list is accepted if all its items are. -/
  list_accepted : ∀ item value results, check (.list item) value = .ok results ↔
    ∃ items, value = .array items ∧ items.map (check item) = results.map .ok
  /-- The issues with a list are those with its items, in order. -/
  list_issues : ∀ item items, (check (.list item) (.array items)).issues =
    items.zipIdx.flatMap fun (value, i) => (check item value).issues.map (·.within (toString i))
  /-- With a value of another kind there is one issue. -/
  kind_issues : ∀ shape value, value.kind ≠ shape.kind →
    (check shape value).issues = [⟨[], .wrongKind shape.expected value.kind⟩]
  /-- An object is accepted if the values of its fields are and it has no other keys. -/
  object_accepted : ∀ fields object values,
    checkObject fields (some (.object object)) = .ok values ↔
      Values.Of check object values ∧ unknownKeys fields object = []
  /-- The issues with an object are those with its fields, in the order of the fields, and behind
  these one for all other keys, in the order of the object. -/
  object_issues : ∀ fields object, (checkObject fields (some (.object object))).issues =
    (fields.flatMap fun field =>
      (check field.shape (field.valueIn object)).issues.map (·.within field.name)) ++
      if (unknownKeys fields object).isEmpty then []
      else [⟨[], .unknownKeys (unknownKeys fields object)⟩]
  /-- Anything else than an object is refused for its kind. -/
  object_kind : ∀ fields value, value.kind ≠ .object →
    checkObject fields (some value) = .error [⟨[], .wrongKind Json.Kind.object.name value.kind⟩]
  object_missing : ∀ fields, checkObject fields none = .error [⟨[], .missing⟩]

/-!
### The standard validator
-/

namespace Checked

variable {α β : Type}

/-- A check, seen from the value that has the one checked under a name. -/
def within (name : String) : Checked α → Checked α
  | .ok value => .ok value
  | .error issues => .error (issues.map (·.within name))

/-- Both values, or the issues with both. -/
def both : Checked α → Checked β → Checked (α × β)
  | .ok first, .ok second => .ok (first, second)
  | .ok _, .error issues => .error issues
  | .error issues, .ok _ => .error issues
  | .error issues, .error more => .error (issues ++ more)

@[simp] theorem issues_ok (value : α) : issues (.ok value) = [] :=
  rfl

@[simp] theorem issues_error (list : List Issue) : issues (.error list : Checked α) = list :=
  rfl

@[simp] theorem issues_within (name : String) (checked : Checked α) :
    (checked.within name).issues = checked.issues.map (·.within name) := by
  cases checked <;> rfl

@[simp] theorem within_eq_ok {name : String} {checked : Checked α} {value : α} :
    checked.within name = .ok value ↔ checked = .ok value := by
  cases checked <;> simp [within]

@[simp] theorem issues_both (first : Checked α) (second : Checked β) :
    (first.both second).issues = first.issues ++ second.issues := by
  cases first <;> cases second <;> simp [both]

@[simp] theorem both_eq_ok {first : Checked α} {second : Checked β} {a : α} {b : β} :
    first.both second = .ok (a, b) ↔ first = .ok a ∧ second = .ok b := by
  cases first <;> cases second <;> simp [both]

end Checked

namespace Validator

/-- The refusal of a value for its kind. -/
def wrongKind {α : Type} (expected : String) (value : Json) : Checked α :=
  .error [⟨[], .wrongKind expected value.kind⟩]

/-- Check a text. -/
def checkText (rules : List TextRule) : Json → Checked String
  | .string s =>
      match rules.filter fun rule => !rule.allows s with
      | [] => .ok s
      | broken => .error (broken.map fun rule => ⟨[], rule.complaint⟩)
  | value => wrongKind Json.Kind.string.name value

/-- Check a truth value. -/
def checkTruth : Json → Checked Bool
  | .bool b => .ok b
  | value => wrongKind Json.Kind.boolean.name value

/-- Check one of some texts. -/
def checkOneOf (names : List String) : Json → Checked { name : String // name ∈ names }
  | .string s => if listed : s ∈ names then .ok ⟨s, listed⟩ else .error [⟨[], .notListed names s⟩]
  | value => wrongKind (Shape.oneOf names).expected value

/-- Check the items of a list from a position on. -/
def checkItems {α : Type} (check : Json → Checked α) : Nat → List Json → Checked (List α)
  | _, [] => .ok []
  | n, item :: items =>
      (((check item).within (toString n)).both (checkItems check (n + 1) items)).map
        fun (value, values) => value :: values

/-- Check a list. -/
def checkList {α : Type} (check : Json → Checked α) : Json → Checked (List α)
  | .array items => checkItems check 0 items
  | value => wrongKind Json.Kind.array.name value

/-- Check a value. -/
def checkValue : (shape : Shape) → Json → Checked shape.Value
  | .text rules => checkText rules
  | .truth => checkTruth
  | .oneOf names => checkOneOf names
  | .list item => checkList (checkValue item)

/-- Check the fields of an object. -/
def checkFields (object : Record Json) : (fields : List Field) → Checked (Values fields)
  | [] => .ok ()
  | field :: fields =>
      ((checkValue field.shape (field.valueIn object)).within field.name).both
        (checkFields object fields)

/-- Check that an object has no other keys than its fields. -/
def checkKeys (fields : List Field) (object : Record Json) : Checked Unit :=
  match unknownKeys fields object with
  | [] => .ok ()
  | keys => .error [⟨[], .unknownKeys keys⟩]

/-- Check an object, or the absence of a value. -/
def checkStrict (fields : List Field) : Option Json → Checked (Values fields)
  | none => .error [⟨[], .missing⟩]
  | some (.object object) => ((checkFields object fields).both (checkKeys fields object)).map (·.1)
  | some value => wrongKind Json.Kind.object.name value

/-- The usual text of a complaint. -/
def usualMessage : Complaint → String
  | .missing => "Required"
  | .wrongKind expected received => s!"Expected {expected}, received {received.name}"
  | .tooShort => "String must contain at least 1 character(s)"
  | .untested message => message
  | .notListed names received =>
      s!"Invalid enum value. Expected {(Shape.oneOf names).expected}, received '{received}'"
  | .unknownKeys keys =>
      "Unrecognized key(s) in object: " ++ ", ".intercalate (keys.map fun key => s!"'{key}'")

section

variable {α β : Type}

theorem map_eq_ok {f : α → β} {checked : Checked α} {b : β} :
    checked.map f = .ok b ↔ ∃ a, checked = .ok a ∧ f a = b := by
  cases checked <;> simp [Except.map]

theorem issues_map (f : α → β) (checked : Checked α) :
    Checked.issues (checked.map f) = checked.issues := by
  cases checked <;> rfl

theorem checkItems_eq_ok {check : Json → Checked α} {items : List Json} {results : List α} :
    ∀ n, checkItems check n items = .ok results ↔ items.map check = results.map .ok := by
  induction items generalizing results with
  | nil => intro n; cases results <;> simp [checkItems]
  | cons item items ih =>
      intro n
      rw [checkItems, map_eq_ok]
      constructor
      · rintro ⟨⟨value, values⟩, accepted, rfl⟩
        obtain ⟨first, rest⟩ := Checked.both_eq_ok.mp accepted
        rw [List.map_cons, List.map_cons, Checked.within_eq_ok.mp first, (ih _).mp rest]
      · cases results with
        | nil => intro same; cases same
        | cons value values =>
            intro same
            obtain ⟨first, rest⟩ := List.cons.inj same
            exact ⟨(value, values),
              Checked.both_eq_ok.mpr ⟨Checked.within_eq_ok.mpr first, (ih _).mpr rest⟩, rfl⟩

theorem checkList_eq_ok {check : Json → Checked α} {value : Json} {results : List α} :
    checkList check value = .ok results ↔
      ∃ items, value = .array items ∧ items.map check = results.map .ok := by
  cases value with
  | array items =>
      refine (checkItems_eq_ok 0).trans ⟨fun same => ⟨items, rfl, same⟩, ?_⟩
      rintro ⟨_, ⟨⟩, same⟩
      exact same
  | _ => exact ⟨nofun, nofun⟩

theorem issues_checkItems (check : Json → Checked α) (items : List Json) :
    ∀ n, (checkItems check n items).issues = (items.zipIdx n).flatMap fun (value, i) =>
      (check value).issues.map (·.within (toString i)) := by
  induction items with
  | nil => intro n; rfl
  | cons item items ih =>
      intro n
      rw [checkItems, issues_map, Checked.issues_both, Checked.issues_within, ih, List.zipIdx_cons,
        List.flatMap_cons]

end

theorem checkFields_eq_ok {object : Record Json} :
    ∀ {fields : List Field} {values : Values fields},
      checkFields object fields = .ok values ↔ Values.Of checkValue object values
  | [], () => iff_of_true rfl trivial
  | _ :: _, (_, _) =>
      Checked.both_eq_ok.trans (and_congr Checked.within_eq_ok checkFields_eq_ok)

theorem issues_checkFields (object : Record Json) : ∀ fields : List Field,
    (checkFields object fields).issues = fields.flatMap fun field =>
      (checkValue field.shape (field.valueIn object)).issues.map (·.within field.name)
  | [] => rfl
  | field :: fields =>
      (Checked.issues_both _ _).trans <| by
        rw [Checked.issues_within, issues_checkFields object fields, List.flatMap_cons]

theorem checkText_eq_ok {rules : List TextRule} {value : Json} {s : String} :
    checkText rules value = .ok s ↔ value = .string s ∧ ∀ rule ∈ rules, rule.allows s := by
  cases value with
  | string t =>
      rw [checkText]
      cases broken : rules.filter fun rule => !rule.allows t with
      | nil =>
          have all : ∀ rule ∈ rules, rule.allows t := by simpa using broken
          constructor
          · rintro ⟨⟩
            exact ⟨rfl, all⟩
          · rintro ⟨⟨⟩, _⟩
            rfl
      | cons rule others =>
          have member : rule ∈ rules.filter fun rule => !rule.allows t := by simp [broken]
          refine ⟨nofun, ?_⟩
          rintro ⟨⟨⟩, all⟩
          simp [all rule (List.mem_filter.mp member).1] at member
  | _ => exact ⟨nofun, fun same => by cases same.1⟩

theorem issues_checkText (rules : List TextRule) (s : String) :
    (checkText rules (.string s)).issues =
      (rules.filter fun rule => !rule.allows s).map fun rule => ⟨[], rule.complaint⟩ := by
  rw [checkText]
  cases rules.filter fun rule => !rule.allows s <;> rfl

theorem checkTruth_eq_ok {value : Json} {b : Bool} :
    checkTruth value = .ok b ↔ value = .bool b := by
  cases value <;> simp [checkTruth, wrongKind]

theorem checkOneOf_eq_ok {names : List String} {value : Json}
    {name : { name : String // name ∈ names }} :
    checkOneOf names value = .ok name ↔ value = .string name.val := by
  cases value with
  | string s =>
      rw [checkOneOf]
      split
      · simp [Subtype.ext_iff]
      · next other => exact ⟨nofun, fun same => by cases same; exact (other name.property).elim⟩
  | _ => exact ⟨nofun, nofun⟩

theorem issues_checkKeys (fields : List Field) (object : Record Json) :
    (checkKeys fields object).issues =
      if (unknownKeys fields object).isEmpty then []
      else [⟨[], .unknownKeys (unknownKeys fields object)⟩] := by
  unfold checkKeys
  cases unknownKeys fields object <;> rfl

theorem checkKeys_eq_ok {fields : List Field} {object : Record Json} :
    checkKeys fields object = .ok () ↔ unknownKeys fields object = [] := by
  unfold checkKeys
  cases unknownKeys fields object <;> simp

/-- A value of another kind than its shape is refused for it. -/
theorem checkValue_of_kind {shape : Shape} {value : Json} (other : value.kind ≠ shape.kind) :
    checkValue shape value = wrongKind shape.expected value := by
  cases shape <;> cases value <;> first | rfl | exact (other rfl).elim

/-- The standard validator. -/
def standard : Validator where
  check := checkValue
  checkObject := checkStrict
  message := usualMessage
  text_accepted _ _ _ := checkText_eq_ok
  text_issues := issues_checkText
  truth_accepted _ _ := checkTruth_eq_ok
  oneOf_accepted _ _ _ := checkOneOf_eq_ok
  oneOf_issues names s other := by
    rw [checkValue, checkOneOf, dif_neg other]
    rfl
  list_accepted _ _ _ := checkList_eq_ok
  list_issues item items := issues_checkItems (checkValue item) items 0
  kind_issues shape value other := by
    rw [checkValue_of_kind other]
    rfl
  object_accepted fields object values := by
    refine map_eq_ok.trans ⟨?_, ?_⟩
    · rintro ⟨⟨read, known⟩, accepted, rfl⟩
      obtain ⟨first, second⟩ := Checked.both_eq_ok.mp accepted
      exact ⟨checkFields_eq_ok.mp first, checkKeys_eq_ok.mp second⟩
    · rintro ⟨read, known⟩
      exact ⟨(values, ()),
        Checked.both_eq_ok.mpr ⟨checkFields_eq_ok.mpr read, checkKeys_eq_ok.mpr known⟩, rfl⟩
  object_issues fields object := by
    rw [checkStrict, issues_map, Checked.issues_both, issues_checkFields, issues_checkKeys]
  object_kind fields value other := by
    cases value with
    | object fields => exact (other rfl).elim
    | _ => rfl
  object_missing _ := rfl

end Validator

end SuperCalls
