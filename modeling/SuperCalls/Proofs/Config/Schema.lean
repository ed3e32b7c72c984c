/-
Module: SuperCalls.Proofs.Config.Schema
Purpose: The rules for the settings, told as a schema without reference to a validator: which values
  fit, and what is wrong with the others.  A value is accepted exactly if it conforms to the schema.
Main exports: Form, schema, Conforms, Form.Faults, Violates, conforms_iff, settingFields_has,
  Config.accepts_iff_conforms
-/
import Mathlib.Data.List.Forall2
import Mathlib.Tactic.ByContra
import SuperCalls.Proofs.Config.Acceptance

namespace SuperCalls

/-!
### The schema
-/

/-- What the value of a setting looks like. -/
inductive Form where
  /-- A list of texts, which may have to be no empty ones. -/
  | texts (nonempty : Bool)
  | text
  /-- A text of spaces and tabs. -/
  | indent
  | truth
  | policy
deriving Repr, DecidableEq

/-- The names of the settings with the forms of their values, in order. -/
def schema : List (String × Form) :=
  [("files", .texts true), ("globs", .texts true), ("ignore", .texts false), ("workDir", .text),
    ("indent", .indent), ("dryRun", .truth), ("errorPolicy", .policy), ("enforceBoundary", .truth)]

theorem isIndent_iff {s : String} :
    isIndent s = true ↔ ∀ c ∈ s.toList, c = ' ' ∨ c = '\t' := by
  simp [isIndent]

namespace Form

/-- A value has a form. -/
def Fits : Form → Json → Prop
  | texts nonempty, value =>
      ∃ texts : List String, value = .array (texts.map .string) ∧ (nonempty = true → "" ∉ texts)
  | text, value => ∃ s, value = .string s
  | indent, value => ∃ s, value = .string s ∧ ∀ c ∈ s.toList, c = ' ' ∨ c = '\t'
  | truth, value => ∃ b, value = .bool b
  | policy, value => value = .string "fail" ∨ value = .string "continue"

end Form

/-- The fields of an object are settings, and each that is there has its form. -/
structure Conforms (fields : Record Json) : Prop where
  known : ∀ key ∈ fields.map (·.1), key ∈ schema.map (·.1)
  fits : ∀ name form, (name, form) ∈ schema → ∀ value, Record.get? fields name = some value →
    form.Fits value

/-!
### Faults
-/

/-- What is wrong with a value that should be a text. -/
inductive TextFault (nonempty : Bool) : Json → Complaint → Prop where
  | kind {value : Json} (other : value.kind ≠ .string) :
      TextFault nonempty value (.wrongKind "string" value.kind)
  | empty (wanted : nonempty = true) : TextFault nonempty (.string "") .tooShort

/-- What is wrong with a value that should have a form: the number of the item with the fault, and
the fault, with the way to it from the value.  Where the value has no items the number is zero. -/
inductive Form.Faults : Form → Json → Nat → Issue → Prop where
  | noList {nonempty : Bool} {value : Json} (other : value.kind ≠ .array) :
      Faults (.texts nonempty) value 0 ⟨[], .wrongKind "array" value.kind⟩
  | item {nonempty : Bool} {items : List Json} {i : Nat} {item : Json} {complaint : Complaint}
      (there : items[i]? = some item) (fault : TextFault nonempty item complaint) :
      Faults (.texts nonempty) (.array items) i ⟨[toString i], complaint⟩
  | text {value : Json} {complaint : Complaint} (fault : TextFault false value complaint) :
      Faults .text value 0 ⟨[], complaint⟩
  | noIndent {value : Json} (other : value.kind ≠ .string) :
      Faults .indent value 0 ⟨[], .wrongKind "string" value.kind⟩
  | indent {s : String} {c : Char} (held : c ∈ s.toList) (other : c ≠ ' ' ∧ c ≠ '\t') :
      Faults .indent (.string s) 0 ⟨[], .untested "indent may only contain spaces and tabs"⟩
  | truth {value : Json} (other : value.kind ≠ .boolean) :
      Faults .truth value 0 ⟨[], .wrongKind "boolean" value.kind⟩
  | noPolicy {value : Json} (other : value.kind ≠ .string) :
      Faults .policy value 0 ⟨[], .wrongKind "'fail' | 'continue'" value.kind⟩
  | policy {s : String} (other : s ≠ "fail" ∧ s ≠ "continue") :
      Faults .policy (.string s) 0 ⟨[], .notListed ["fail", "continue"] s⟩

/-- Where something can be wrong: in which setting, and in which item of it.  Behind the settings
comes one spot for the object. -/
structure Spot where
  setting : Nat
  item : Nat
deriving Repr, DecidableEq

/-- The order of the spots. -/
def Spot.Before (a b : Spot) : Prop :=
  a.setting < b.setting ∨ a.setting = b.setting ∧ a.item < b.item

/-- What is wrong with the fields of an object. -/
inductive Violates (fields : Record Json) : Spot → Issue → Prop where
  | setting {n : Nat} {name : String} {form : Form} {value : Json} {i : Nat} {fault : Issue}
      (listed : schema[n]? = some (name, form)) (there : Record.get? fields name = some value)
      (faulty : form.Faults value i fault) : Violates fields ⟨n, i⟩ (fault.within name)
  | unknown {keys : List String}
      (others : keys = (fields.map (·.1)).filter (· ∉ schema.map (·.1))) (some : keys ≠ []) :
      Violates fields ⟨schema.length, 0⟩ ⟨[], .unknownKeys keys⟩

theorem TextFault.unique {nonempty : Bool} {value : Json} {a b : Complaint}
    (first : TextFault nonempty value a) (second : TextFault nonempty value b) : a = b := by
  cases first with
  | kind other =>
      cases second with
      | kind _ => rfl
      | empty _ => exact (other rfl).elim
  | empty _ =>
      cases second with
      | kind other => exact (other rfl).elim
      | empty _ => rfl

/-- At one spot one thing is wrong. -/
theorem Form.Faults.unique {form : Form} {value : Json} {i : Nat} {a b : Issue}
    (first : form.Faults value i a) (second : form.Faults value i b) : a = b := by
  cases first with
  | noList other =>
      cases second with
      | noList _ => rfl
      | item _ _ => exact (other rfl).elim
  | item there fault =>
      cases second with
      | noList other => exact (other rfl).elim
      | item again more =>
          cases there.symm.trans again
          rw [fault.unique more]
  | text fault =>
      cases second with
      | text more => rw [fault.unique more]
  | noIndent other =>
      cases second with
      | noIndent _ => rfl
      | indent _ _ => exact (other rfl).elim
  | indent _ _ =>
      cases second with
      | noIndent other => exact (other rfl).elim
      | indent _ _ => rfl
  | truth _ =>
      cases second with
      | truth _ => rfl
  | noPolicy other =>
      cases second with
      | noPolicy _ => rfl
      | policy _ => exact (other rfl).elim
  | policy _ =>
      cases second with
      | noPolicy other => exact (other rfl).elim
      | policy _ => rfl

/-- Where something is wrong with the value itself, nothing is wrong with an item of it. -/
theorem Form.Faults.whole {form : Form} {value : Json} {complaint : Complaint} {i : Nat}
    {fault : Issue} (own : form.Faults value 0 ⟨[], complaint⟩)
    (faulty : form.Faults value i fault) : i = 0 := by
  cases faulty with
  | item _ _ =>
      cases own with
      | noList other => exact (other rfl).elim
  | noList _ | text _ | noIndent _ | indent _ _ | truth _ | noPolicy _ | policy _ => rfl

/-- A value has the form of a list of texts unless something is wrong with it or with an item. -/
theorem Form.fits_texts {nonempty : Bool} {value : Json}
    (faultless : ∀ i fault, ¬ (Form.texts nonempty).Faults value i fault) :
    (Form.texts nonempty).Fits value := by
  cases value with
  | array items =>
      have texts : ∀ item ∈ items, ∃ s, item = .string s ∧ (nonempty = true → s ≠ "") := by
        intro item member
        obtain ⟨i, there⟩ := List.mem_iff_getElem?.mp member
        have fine (complaint : Complaint) : ¬ TextFault nonempty item complaint :=
          fun fault => faultless i _ (.item there fault)
        cases item with
        | string s =>
            refine ⟨s, rfl, fun wanted none => ?_⟩
            subst none
            exact fine _ (.empty wanted)
        | _ => exact (fine _ (.kind nofun)).elim
      clear faultless
      induction items with
      | nil => exact ⟨[], rfl, fun _ => List.not_mem_nil⟩
      | cons item items ih =>
          obtain ⟨⟨s, rfl, named⟩, others⟩ := List.forall_mem_cons.mp texts
          obtain ⟨rest, same, kept⟩ := ih others
          cases same
          refine ⟨s :: rest, rfl, fun wanted member => ?_⟩
          rcases List.mem_cons.mp member with empty | later
          · exact named wanted empty.symm
          · exact kept wanted later
  | _ => exact (faultless 0 _ (.noList nofun)).elim

/-- Nothing is wrong with a value that has the form. -/
theorem Form.Fits.faultless {form : Form} {value : Json} (fits : form.Fits value) (i : Nat)
    (fault : Issue) : ¬ form.Faults value i fault := by
  intro faulty
  cases faulty with
  | noList other =>
      obtain ⟨texts, rfl, _⟩ := fits
      exact other rfl
  | item there faulty =>
      obtain ⟨texts, same, named⟩ := fits
      cases same
      obtain ⟨s, member, rfl⟩ := List.mem_map.mp (List.mem_of_getElem? there)
      cases faulty with
      | kind other => exact other rfl
      | empty wanted => exact named wanted member
  | text faulty =>
      obtain ⟨s, rfl⟩ := fits
      cases faulty with
      | kind other => exact other rfl
      | empty wanted => cases wanted
  | noIndent other =>
      obtain ⟨s, rfl, _⟩ := fits
      exact other rfl
  | indent held other =>
      obtain ⟨s, same, blank⟩ := fits
      cases same
      rcases blank _ held with space | tab
      · exact other.1 space
      · exact other.2 tab
  | truth other =>
      obtain ⟨b, rfl⟩ := fits
      exact other rfl
  | noPolicy other => rcases fits with rfl | rfl <;> exact other rfl
  | policy other =>
      rcases fits with same | same
      · exact other.1 (Json.string.inj same)
      · exact other.2 (Json.string.inj same)

/-- A value has a form exactly if nothing is wrong with it. -/
theorem Form.fits_iff {form : Form} {value : Json} :
    form.Fits value ↔ ∀ i fault, ¬ form.Faults value i fault := by
  refine ⟨Form.Fits.faultless, fun faultless => ?_⟩
  cases form with
  | texts nonempty => exact fits_texts faultless
  | text =>
      cases value with
      | string s => exact ⟨s, rfl⟩
      | _ => exact (faultless 0 _ (.text (.kind nofun))).elim
  | indent =>
      cases value with
      | string s =>
          refine ⟨s, rfl, fun c held => ?_⟩
          by_contra other
          exact faultless 0 _ (.indent held (not_or.mp other))
      | _ => exact (faultless 0 _ (.noIndent nofun)).elim
  | truth =>
      cases value with
      | bool b => exact ⟨b, rfl⟩
      | _ => exact (faultless 0 _ (.truth nofun)).elim
  | policy =>
      cases value with
      | string s =>
          by_contra other
          obtain ⟨first, second⟩ := not_or.mp other
          exact faultless 0 _ (.policy ⟨fun same => first (congrArg _ same),
            fun same => second (congrArg _ same)⟩)
      | _ => exact (faultless 0 _ (.noPolicy nofun)).elim

/-- An object conforms to the schema exactly if nothing is wrong with its fields. -/
theorem conforms_iff {fields : Record Json} :
    Conforms fields ↔ ∀ spot issue, ¬ Violates fields spot issue := by
  constructor
  · intro conforms spot issue violates
    cases violates with
    | setting listed there faulty =>
        have fits := conforms.fits _ _ (List.mem_of_getElem? listed) _ there
        exact Form.fits_iff.mp fits _ _ faulty
    | unknown others some =>
        obtain ⟨key, member⟩ := List.exists_mem_of_ne_nil _ some
        rw [others] at member
        obtain ⟨here, other⟩ := List.mem_filter.mp member
        exact of_decide_eq_true other (conforms.known key here)
  · intro faultless
    constructor
    · intro key member
      by_contra other
      have held : key ∈ (fields.map (·.1)).filter (· ∉ schema.map (·.1)) :=
        List.mem_filter.mpr ⟨member, decide_eq_true other⟩
      exact faultless _ _ (.unknown rfl (List.ne_nil_of_mem held))
    · intro name form member value there
      obtain ⟨n, listed⟩ := List.mem_iff_getElem?.mp member
      exact Form.fits_iff.mpr fun i fault faulty =>
        faultless _ _ (.setting listed there faulty)

/-!
### Acceptance

A validator knows the settings as fields.  Each field has the shape that goes with the form of its
setting, and its default has that form.
-/

namespace Form

/-- The shape of the values of a form. -/
def shape : Form → Shape
  | texts nonempty => .list (.text (if nonempty then [.nonempty] else []))
  | text => .text []
  | indent => .text [indentRule]
  | truth => .truth
  | policy => .oneOf policyNames

/-- A value is accepted exactly if it has the form. -/
theorem accepted_iff (validator : Validator) (form : Form) (value : Json) :
    (∃ v, validator.check form.shape value = .ok v) ↔ form.Fits value := by
  cases form with
  | texts nonempty =>
      cases nonempty with
      | false =>
          exact exists_congr fun _ => validator.any_texts_accepted.trans (by simp)
      | true => exact exists_congr fun _ => validator.nonempty_texts_accepted.trans (by simp)
  | text => exact exists_congr fun _ => validator.any_text_accepted
  | indent =>
      exact exists_congr fun _ => validator.indent_accepted.trans (and_congr_right fun _ => isIndent_iff)
  | truth => exact exists_congr fun _ => validator.truth_accepted _ _
  | policy =>
      refine (exists_congr fun _ => validator.oneOf_accepted _ _ _).trans ⟨?_, ?_⟩
      · rintro ⟨⟨name, listed⟩, same⟩
        simp only [policyNames, List.mem_cons, List.not_mem_nil, or_false] at listed
        rcases listed with rfl | rfl
        · exact Or.inl same
        · exact Or.inr same
      · rintro (same | same)
        · exact ⟨⟨"fail", List.mem_cons_self⟩, same⟩
        · exact ⟨⟨"continue", List.mem_cons_of_mem _ List.mem_cons_self⟩, same⟩

end Form

/-- A field is that of a setting, and its default has the form of the setting. -/
structure Field.Has (field : Field) (setting : String × Form) : Prop where
  name : field.name = setting.1
  shape : field.shape = setting.2.shape
  default : setting.2.Fits field.default

/-- The fields are those of the settings, in order. -/
theorem settingFields_has : List.Forall₂ Field.Has settingFields schema := by
  refine .cons ⟨rfl, rfl, [], rfl, nofun⟩ <| .cons ⟨rfl, rfl, [], rfl, nofun⟩ <|
    .cons ⟨rfl, rfl, defaultIgnore, rfl, nofun⟩ <| .cons ⟨rfl, rfl, ".", rfl⟩ <|
    .cons ⟨rfl, rfl, defaultIndent, rfl, ?_⟩ <| .cons ⟨rfl, rfl, false, rfl⟩ <|
    .cons ⟨rfl, rfl, Or.inl rfl⟩ <| .cons ⟨rfl, rfl, true, rfl⟩ .nil
  exact isIndent_iff.mp (by decide)

/-- A setting is accepted if it is absent or its value has the form. -/
theorem Field.Has.accepted_iff {field : Field} {name : String} {form : Form}
    (has : field.Has (name, form)) (validator : Validator) (object : Record Json) :
    (∃ v, validator.check field.shape (field.valueIn object) = .ok v) ↔
      ∀ value, Record.get? object name = some value → form.Fits value := by
  rw [has.shape, form.accepted_iff, Field.valueIn, has.name]
  cases Record.get? object name with
  | none => exact iff_of_true has.default nofun
  | some value => simp

/-- All settings are accepted if each is absent or its value has the form. -/
theorem forall_accepted_iff (validator : Validator) (object : Record Json) {fields : List Field}
    {settings : List (String × Form)} (are : List.Forall₂ Field.Has fields settings) :
    (∀ field ∈ fields, ∃ v, validator.check field.shape (field.valueIn object) = .ok v) ↔
      ∀ name form, (name, form) ∈ settings → ∀ value, Record.get? object name = some value →
        form.Fits value := by
  induction are with
  | nil => simp
  | @cons field setting fields settings has _ ih =>
      rw [List.forall_mem_cons, has.accepted_iff validator object, ih]
      constructor
      · rintro ⟨own, others⟩ name form member
        rcases List.mem_cons.mp member with rfl | later
        · exact own
        · exact others name form later
      · intro all
        exact ⟨all _ _ List.mem_cons_self,
          fun name form member => all name form (List.mem_cons_of_mem _ member)⟩

/-- The fields of an object stand for something if each of them does. -/
theorem exists_values_iff {check : (shape : Shape) → Json → Checked shape.Value}
    {object : Record Json} : ∀ {fields : List Field},
      (∃ values : Values fields, values.Of check object) ↔
        ∀ field ∈ fields, ∃ v, check field.shape (field.valueIn object) = .ok v
  | [] => iff_of_true ⟨(), trivial⟩ nofun
  | field :: fields => by
      rw [List.forall_mem_cons, ← exists_values_iff]
      constructor
      · rintro ⟨⟨v, values⟩, first, rest⟩
        exact ⟨⟨v, first⟩, values, rest⟩
      · rintro ⟨⟨v, first⟩, values, rest⟩
        exact ⟨(v, values), first, rest⟩

/-- There are no unknown keys if every key names a setting. -/
theorem unknownKeys_eq_nil_iff {object : Record Json} :
    unknownKeys settingFields object = [] ↔
      ∀ key ∈ object.map (·.1), key ∈ schema.map (·.1) := by
  rw [unknownKeys, List.filter_eq_nil_iff,
    show settingFields.map Field.name = schema.map (·.1) from rfl]
  simp

namespace Config

/-- A value is accepted exactly if it is an object that conforms to the schema. -/
theorem accepts_iff_conforms (validator : Validator) (raw : Json) (base : Location) :
    (∃ config, ofJson validator (some raw) base = .ok config) ↔
      ∃ fields, raw = .object fields ∧ Conforms fields := by
  have checked : (∃ config, ofJson validator (some raw) base = .ok config) ↔
      ∃ values, validator.checkObject settingFields (some raw) = .ok values := by
    unfold ofJson
    cases validator.checkObject settingFields (some raw) <;> simp
  rw [checked]
  cases raw with
  | object fields =>
      simp only [validator.object_accepted, exists_and_right, exists_values_iff,
        forall_accepted_iff validator _ settingFields_has, unknownKeys_eq_nil_iff]
      constructor
      · rintro ⟨fits, known⟩
        exact ⟨fields, rfl, known, fits⟩
      · rintro ⟨_, ⟨⟩, conforms⟩
        exact ⟨conforms.fits, conforms.known⟩
  | _ =>
      rw [validator.object_kind _ _ fun same => by cases same]
      exact iff_of_false nofun nofun

end Config

end SuperCalls
