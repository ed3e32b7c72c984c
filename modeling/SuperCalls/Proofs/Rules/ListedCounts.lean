/-
Module: SuperCalls.Proofs.Rules.ListedCounts
Purpose: When the counts of rules are listed rule by rule.  A record has an order of its own, keeps one
  count under a name and none under the reserved one, so the listing is faithful exactly for the names
  that are in that order already.
Main exports: arrayIndex?_eq_some_iff, Record.Leads, Record.Ordered, IndexesFirst, Listable,
  Counts.ofList_eq_self_iff, ownCounts, Replacements, ownCounts_eq_iff, counts_listed_iff,
  listable_superCallRules
-/
import Mathlib.Data.List.Induction
import Mathlib.Data.List.Pairwise
import SuperCalls.Proofs.Bus.Moments
import SuperCalls.Proofs.Rules.Recognition

namespace SuperCalls

/-!
### Array indexes

An array index is a numeral that is written as numbers are: in decimal digits, of which the first is
not zero, or as a single zero.
-/

/-- The number that decimal digits write behind a number. -/
def numberBehind (n : Nat) (digits : List Char) : Nat :=
  digits.foldl (fun n d => n * 10 + (d.toNat - 48)) n

theorem digitChar_of_isDigit {d : Char} (digit : d.isDigit = true) :
    d.toNat - 48 < 10 ∧ Nat.digitChar (d.toNat - 48) = d := by
  have bounds : 48 ≤ d.toNat ∧ d.toNat ≤ 57 := by
    simp only [Char.isDigit, Bool.and_eq_true, decide_eq_true_eq, UInt32.le_iff_toNat_le,
      ge_iff_le] at digit
    exact digit
  have small : d.toNat - 48 < 10 := by omega
  refine ⟨small, Char.toNat_inj.mp ?_⟩
  rw [Nat.toNat_digitChar_of_lt_ten small]
  omega

/-- Digits behind a positive number are the end of the numeral that they make. -/
theorem toDigits_numberBehind {digits : List Char} :
    ∀ {n : Nat}, 0 < n → (∀ d ∈ digits, d.isDigit = true) →
      Nat.toDigits 10 (numberBehind n digits) = Nat.toDigits 10 n ++ digits := by
  induction digits with
  | nil => exact fun _ _ => (List.append_nil _).symm
  | cons d digits ih =>
      intro n positive all
      obtain ⟨small, same⟩ := digitChar_of_isDigit (all d List.mem_cons_self)
      have step : Nat.toDigits 10 n ++ [d] = Nat.toDigits 10 (n * 10 + (d.toNat - 48)) := by
        rw [Nat.mul_comm, ← Nat.toDigits_append_toDigits (b := 10) (by decide) positive small,
          Nat.toDigits_of_lt_base small, same]
      have rest := ih (n := n * 10 + (d.toNat - 48)) (by omega) fun e member =>
        all e (List.mem_cons_of_mem _ member)
      rw [← step, List.append_assoc] at rest
      exact rest

/-- Digits without zeros in front are the numeral of the number that they write. -/
theorem toDigits_of_digits {digits : List Char} (nonempty : digits ≠ [])
    (all : ∀ d ∈ digits, d.isDigit = true) (front : digits.head? = some '0' → digits = ['0']) :
    Nat.toDigits 10 (numberBehind 0 digits) = digits := by
  cases digits with
  | nil => exact absurd rfl nonempty
  | cons d digits =>
      by_cases zero : d = '0'
      · subst zero
        rw [front rfl]
        rfl
      · obtain ⟨small, same⟩ := digitChar_of_isDigit (all d List.mem_cons_self)
        have positive : 0 < 0 * 10 + (d.toNat - 48) := by
          rw [Nat.zero_mul, Nat.zero_add]
          refine Nat.pos_of_ne_zero fun none => zero ?_
          rw [← same, none]
          rfl
        have rest := toDigits_numberBehind positive fun e member =>
          all e (List.mem_cons_of_mem _ member)
        rw [Nat.zero_mul, Nat.zero_add, Nat.toDigits_of_lt_base small, same] at rest
        rw [numberBehind, List.foldl_cons, Nat.zero_mul, Nat.zero_add]
        exact rest

/-- Only zero is written with a zero in front. -/
theorem head?_toDigits {n : Nat} (zero : (Nat.toDigits 10 n).head? = some '0') : n = 0 := by
  induction n using Nat.strongRecOn with
  | ind n ih =>
      rw [Nat.toDigits_eq_if (by decide)] at zero
      split at zero
      · exact Nat.digitChar_eq_zero.mp (by simpa using zero)
      · rw [List.head?_append_of_ne_nil _ Nat.toDigits_ne_nil] at zero
        have none := ih (n / 10) (by omega) zero
        omega

theorem numberBehind_toDigits (n : Nat) : numberBehind 0 (Nat.toDigits 10 n) = n := by
  have value := Nat.ofDigitChars_toDigits (b := 10) (n := n) (by decide) (by decide)
  simp only [Nat.ofDigitChars_eq_foldl, Nat.mul_comm 10] at value
  exact value

/-- A key writes an array index if it is the numeral of one. -/
theorem arrayIndex?_eq_some_iff {key : String} {n : Nat} :
    arrayIndex? key = some n ↔ key = toString n ∧ n < 2 ^ 32 - 1 := by
  have numeral : key = toString n ↔ Nat.toDigits 10 n = key.toList := by
    rw [← String.toList_inj, Nat.toString_eq_ofList_toDigits, String.toList_ofList, eq_comm]
  rw [numeral]
  unfold arrayIndex?
  constructor
  · intro found
    simp only [Bool.or_eq_true, Option.ite_none_left_eq_some, not_or, Bool.not_eq_true] at found
    obtain ⟨⟨⟨⟨nonempty, all⟩, front⟩, _⟩, value⟩ := found
    obtain ⟨small, value⟩ := Option.ite_none_right_eq_some.mp value
    obtain rfl : numberBehind 0 key.toList = n := Option.some.inj value
    refine ⟨toDigits_of_digits ?_ ?_ ?_, small⟩
    · exact List.isEmpty_eq_false_iff.mp nonempty
    · simpa using all
    · intro zero
      simpa [zero] using front
  · rintro ⟨digits, small⟩
    have all : key.toList.all Char.isDigit = true := by
      rw [← digits]
      exact List.all_eq_true.mpr fun d member =>
        Nat.isDigit_of_mem_toDigits (by decide) (by decide) member
    have nonempty : key.toList.isEmpty = false := by
      rw [← digits]
      exact List.isEmpty_eq_false_iff.mpr Nat.toDigits_ne_nil
    have front : (key.toList.head? == some '0' && key.toList != ['0']) = false := by
      by_contra other
      simp only [Bool.not_eq_false, Bool.and_eq_true, beq_iff_eq, bne_iff_ne] at other
      rw [← digits] at other
      have zero := head?_toDigits other.1
      exact other.2 (by rw [zero]; rfl)
    have short : key.toList.length ≤ 10 := by
      rw [← digits]
      exact (Nat.length_toDigits_le_iff (by decide) (by decide)).mpr (by omega)
    have value : numberBehind 0 key.toList = n := by rw [← digits, numberBehind_toDigits]
    unfold numberBehind at value
    simp only [nonempty, all, front, value]
    simpa [short] using small

theorem arrayIndex?_eq_none_iff {key : String} :
    arrayIndex? key = none ↔ ∀ n < 2 ^ 32 - 1, key ≠ toString n := by
  simp only [Option.eq_none_iff_forall_ne_some, ne_eq, arrayIndex?_eq_some_iff, not_and']

/-!
### The order of a record
-/

namespace Record

variable {α : Type} {first second third key : String} {value : α} {record : Record α}

/-- A name can stand in front of another in a record: if the other one is an array index, it is a
lower one. -/
def Leads (first second : String) : Prop :=
  ∀ j, arrayIndex? second = some j → ∃ i, arrayIndex? first = some i ∧ i < j

theorem Leads.trans (one : Leads first second) (two : Leads second third) : Leads first third := by
  intro k third
  obtain ⟨j, second, less⟩ := two k third
  obtain ⟨i, first, lower⟩ := one j second
  exact ⟨i, first, Nat.lt_trans lower less⟩

/-- A new key goes in front of those that it leads. -/
theorem leads_of_precedes (before : precedes first second = true) : Leads first second := by
  intro j index
  rw [precedes, index] at before
  cases own : arrayIndex? first with
  | none => rw [own] at before; cases before
  | some i => rw [own] at before; exact ⟨i, rfl, of_decide_eq_true before⟩

theorem Leads.not_precedes (leads : Leads first second) : precedes second first = false := by
  cases index : arrayIndex? second with
  | none => rw [precedes, index]
  | some j =>
      obtain ⟨i, other, less⟩ := leads j index
      rw [precedes, index, other]
      exact decide_eq_false (by omega)

/-- A new key goes behind those that lead it. -/
theorem leads_of_not_precedes (apart : first ≠ second) (behind : precedes second first = false) :
    Leads first second := by
  intro j index
  rw [precedes, index] at behind
  cases other : arrayIndex? first with
  | none => rw [other] at behind; cases behind
  | some i =>
      rw [other] at behind
      refine ⟨i, rfl, Nat.lt_of_le_of_ne (Nat.not_lt.mp (of_decide_eq_false behind)) ?_⟩
      rintro rfl
      exact apart ((arrayIndex?_eq_some_iff.mp other).1.trans (arrayIndex?_eq_some_iff.mp index).1.symm)

/-- A key that is no array index can stand behind every other one. -/
theorem leads_of_index_eq_none (none : arrayIndex? second = none) : Leads first second := by
  intro j index
  rw [none] at index
  cases index

theorem leads_toString_iff {i j : Nat} (small : i < 2 ^ 32 - 1) (other : j < 2 ^ 32 - 1) :
    Leads (toString i) (toString j) ↔ i < j := by
  rw [Leads, arrayIndex?_eq_some_iff.mpr ⟨rfl, small⟩, arrayIndex?_eq_some_iff.mpr ⟨rfl, other⟩]
  simp

/-- The keys of a record stand in its order. -/
def Ordered (record : Record α) : Prop :=
  (record.map Prod.fst).Pairwise Leads

theorem Ordered.place (ordered : record.Ordered) (fresh : key ∉ record.map Prod.fst) :
    Ordered (place key value record) := by
  induction record with
  | nil => exact List.pairwise_singleton Leads key
  | cons first record ih =>
      obtain ⟨other, v⟩ := first
      obtain ⟨front, rest⟩ := List.pairwise_cons.mp ordered
      have apart := List.ne_of_not_mem_cons fresh
      rw [Record.place]
      split
      · next before =>
          have leads := leads_of_precedes before
          refine List.pairwise_cons.mpr ⟨fun name member => ?_, ordered⟩
          obtain rfl | member := List.mem_cons.mp member
          · exact leads
          · exact leads.trans (front name member)
      · next behind =>
          have leads := leads_of_not_precedes (Ne.symm apart) (Bool.not_eq_true _ ▸ behind)
          refine List.pairwise_cons.mpr
            ⟨fun name member => ?_, ih rest (List.not_mem_of_not_mem_cons fresh)⟩
          obtain rfl | member :=
            List.mem_cons.mp (((place_perm key value record).map Prod.fst).mem_iff.mp member)
          · exact leads
          · exact front name member

/-- The order is one of the keys: other values do not matter. -/
theorem Ordered.map (ordered : record.Ordered) {f : String × α → String × α}
    (kept : ∀ entry, (f entry).1 = entry.1) : Ordered (record.map f) := by
  have same : (record.map f).map Prod.fst = record.map Prod.fst := by
    rw [List.map_map]
    exact List.map_congr_left fun entry _ => kept entry
  rw [Ordered, same]
  exact ordered

theorem Ordered.set (ordered : record.Ordered) (key : String) (value : α) :
    Ordered (record.set key value) := by
  rw [Record.set]
  split
  · exact ordered.map fun entry => by dsimp only; split <;> rfl
  · next absent => exact ordered.place (mt any_key_iff.mpr absent)

/-- A key that all others lead is put at the end. -/
theorem place_of_leads (last : ∀ name ∈ record.map Prod.fst, Leads name key) :
    place key value record = record ++ [(key, value)] := by
  induction record with
  | nil => rfl
  | cons first record ih =>
      have leads := last first.1 List.mem_cons_self
      rw [place, leads.not_precedes, if_neg Bool.false_ne_true,
        ih fun name member => last name (List.mem_cons_of_mem _ member), List.cons_append]

/-- A new key that all others lead is set at the end. -/
theorem set_of_leads (fresh : key ∉ record.map Prod.fst)
    (last : ∀ name ∈ record.map Prod.fst, Leads name key) :
    record.set key value = record ++ [(key, value)] := by
  rw [Record.set, if_neg (mt any_key_iff.mp fresh), place_of_leads last]

end Record

/-!
### Names that are listed as they come
-/

/-- The array indexes among the names come first, in ascending order. -/
def IndexesFirst (names : List String) : Prop :=
  ∃ (indexes : List Nat) (others : List String),
    names = indexes.map toString ++ others ∧ indexes.Pairwise (· < ·) ∧
      (∀ i ∈ indexes, i < 2 ^ 32 - 1) ∧ ∀ name ∈ others, ∀ i < 2 ^ 32 - 1, name ≠ toString i

/-- Names of rules that a record of counts keeps as they come: no two are the same, the reserved one
is not among them, and those that are array indexes come first. -/
structure Listable (names : List String) : Prop where
  distinct : names.Nodup
  unreserved : Counts.reservedName ∉ names
  indexesFirst : IndexesFirst names

theorem IndexesFirst.pairwise_leads {names : List String} (first : IndexesFirst names) :
    names.Pairwise Record.Leads := by
  obtain ⟨indexes, others, rfl, ascending, small, plain⟩ := first
  have behind (name : String) {other : String} (member : other ∈ others) :
      Record.Leads name other :=
    Record.leads_of_index_eq_none (arrayIndex?_eq_none_iff.mpr (plain other member))
  refine List.pairwise_append.mpr ⟨?_, ?_, fun name _ other member => behind name member⟩
  · refine List.pairwise_map.mpr (ascending.imp_of_mem fun {i j} one two less => ?_)
    exact (Record.leads_toString_iff (small i one) (small j two)).mpr less
  · exact List.pairwise_of_forall_mem_list fun name _ other member => behind name member

theorem indexesFirst_of_pairwise_leads {names : List String} (ordered : names.Pairwise Record.Leads) :
    IndexesFirst names := by
  induction names with
  | nil => exact ⟨[], [], rfl, .nil, nofun, nofun⟩
  | cons name names ih =>
      obtain ⟨leads, rest⟩ := List.pairwise_cons.mp ordered
      obtain ⟨indexes, others, rfl, ascending, small, plain⟩ := ih rest
      cases own : arrayIndex? name with
      | some i =>
          obtain ⟨rfl, bound⟩ := arrayIndex?_eq_some_iff.mp own
          refine ⟨i :: indexes, others, rfl, List.pairwise_cons.mpr ⟨fun j member => ?_, ascending⟩,
            List.forall_mem_cons.mpr ⟨bound, small⟩, plain⟩
          exact (Record.leads_toString_iff bound (small j member)).mp
            (leads (toString j) (List.mem_append_left _ (List.mem_map_of_mem member)))
      | none =>
          cases indexes with
          | nil =>
              exact ⟨[], name :: others, rfl, .nil, nofun,
                List.forall_mem_cons.mpr ⟨arrayIndex?_eq_none_iff.mp own, plain⟩⟩
          | cons j indexes =>
              -- an index behind a name that is none would have come in front of it
              obtain ⟨i, here, _⟩ := leads (toString j) List.mem_cons_self j
                (arrayIndex?_eq_some_iff.mpr ⟨rfl, small j List.mem_cons_self⟩)
              rw [own] at here
              cases here

namespace Counts

variable {α : Type} {pairs : List (String × α)}

theorem ofList_append_singleton (pairs : List (String × α)) (name : String) (count : α) :
    ofList (pairs ++ [(name, count)]) = assign (ofList pairs) name count := by
  rw [ofList, List.foldl_append]
  rfl

/-- A record of counts has every name once, is in the order of records and lacks the reserved name. -/
theorem ofList_wellFormed (pairs : List (String × α)) :
    (ofList pairs).Keyed ∧ (ofList pairs).Ordered ∧
      reservedName ∉ (ofList pairs).map Prod.fst := by
  induction pairs using List.reverseRecOn with
  | nil => exact ⟨List.nodup_nil, .nil, List.not_mem_nil⟩
  | append_singleton pairs last ih =>
      obtain ⟨name, count⟩ := last
      obtain ⟨keyed, ordered, lacking⟩ := ih
      rw [ofList_append_singleton, assign]
      split
      · exact ⟨keyed, ordered, lacking⟩
      · next other =>
          refine ⟨keyed.set name count, ordered.set name count, fun member => ?_⟩
          have perm := (Record.set_perm keyed name count).map Prod.fst
          obtain reserved | member := List.mem_cons.mp (perm.mem_iff.mp member)
          · exact other reserved.symm
          · exact lacking ((List.filter_sublist.map Prod.fst).subset member)

/-- The counts are the list that they come from exactly if its names are listable. -/
theorem ofList_eq_self_iff : ofList pairs = pairs ↔ Listable (pairs.map Prod.fst) := by
  constructor
  · intro same
    obtain ⟨keyed, ordered, lacking⟩ := ofList_wellFormed pairs
    rw [same] at keyed ordered lacking
    exact ⟨keyed, lacking, indexesFirst_of_pairwise_leads ordered⟩
  · rintro ⟨distinct, unreserved, ordered⟩
    replace ordered := ordered.pairwise_leads
    induction pairs using List.reverseRecOn with
    | nil => rfl
    | append_singleton pairs last ih =>
        obtain ⟨name, count⟩ := last
        rw [List.map_append] at distinct unreserved ordered
        obtain ⟨ordered, _, behind⟩ := List.pairwise_append.mp ordered
        obtain ⟨distinct, _, apart⟩ := List.nodup_append.mp distinct
        rw [List.mem_append, not_or] at unreserved
        obtain ⟨unreserved, other⟩ := unreserved
        have absent : name ∉ pairs.map Prod.fst := fun member =>
          apart name member name List.mem_cons_self rfl
        rw [ofList_append_singleton, ih distinct unreserved ordered, assign,
          if_neg (fun reserved => other (by simp [reserved]))]
        exact Record.set_of_leads absent fun first member =>
          behind first member name List.mem_cons_self

/-- A name that is an array index is listed before its time. -/
example : ofList [("b", 0), ("7", 1), ("b", 2)] = [("7", 1), ("b", 2)] := by decide

end Counts

/-!
### The counts of rules
-/

/-- The rules in order, each with the number of replacements that it made itself in the text that the
rules before it left. -/
def ownCounts : List Rule → List Char → List (String × Nat)
  | [], _ => []
  | rule :: rules, text => (rule.name, (rule.apply text).2) :: ownCounts rules (rule.apply text).1

/-- The rules in order, each with the number of matches that it replaces in the text that the rules
before it leave. -/
inductive Replacements : List Rule → List Char → List (String × Nat) → Prop where
  | nil {text : List Char} : Replacements [] text []
  | cons {rule : Rule} {rules : List Rule} {text out : List Char} {n : Nat}
      {counts : List (String × Nat)} (rewrites : rule.Rewrites true none text out n)
      (later : Replacements rules out counts) :
      Replacements (rule :: rules) text ((rule.name, n) :: counts)

/-- The own counts of rules are the numbers of their replacements. -/
theorem ownCounts_eq_iff {rules : List Rule} (honest : ∀ rule ∈ rules, rule.Honest) {text : List Char}
    {counts : List (String × Nat)} :
    ownCounts rules text = counts ↔ Replacements rules text counts := by
  induction rules generalizing text counts with
  | nil =>
      constructor
      · rintro rfl
        exact .nil
      · rintro ⟨⟩
        rfl
  | cons rule rules ih =>
      obtain ⟨own, rest⟩ := List.forall_mem_cons.mp honest
      constructor
      · rintro rfl
        exact .cons (own.apply_eq_iff.mp rfl) ((ih rest).mp rfl)
      · rintro (_ | ⟨rewrites, later⟩)
        rw [ownCounts, rewrites.apply_eq, (ih rest).mpr later]

theorem map_fst_ownCounts {rules : List Rule} :
    ∀ {text : List Char}, (ownCounts rules text).map Prod.fst = rules.map Rule.name := by
  induction rules with
  | nil => exact rfl
  | cons rule rules ih =>
      intro text
      rw [ownCounts, List.map_cons, List.map_cons, ih]

/-- Rules record their own counts one after the other. -/
theorem counts_applyRules (rules : List Rule) (content : String) :
    (applyRules rules content).counts = Counts.ofList (ownCounts rules content.toList) := by
  have all : ∀ (text : List Char) (counts : Counts),
      (rules.foldl
        (fun pass rule =>
          ((rule.apply pass.1).1, Counts.assign pass.2 rule.name (rule.apply pass.1).2))
        (text, counts)).2 =
      (ownCounts rules text).foldl (fun counts own => Counts.assign counts own.1 own.2) counts := by
    induction rules with
    | nil => exact fun _ _ => rfl
    | cons rule rules ih => exact fun text counts => ih _ _
  exact all content.toList []

/-- The record of the counts has one entry for each rule, in the order of the rules and with the
rule's own count, exactly if the names of the rules are listable; and then this is what its line says.
The own count of a rule is the number of matches that it replaces, as long as matches stand where they
are found. -/
theorem counts_listed_iff (rules : List Rule) (content : String) :
    ((applyRules rules content).counts = ownCounts rules content.toList ↔
      Listable (rules.map Rule.name)) ∧
    (Listable (rules.map Rule.name) →
      (applyRules rules content).counts.text =
        ", ".intercalate ((ownCounts rules content.toList).map fun (name, count) =>
          s!"{name}: {count}")) ∧
    ((∀ rule ∈ rules, rule.Honest) →
      ∀ counts, ownCounts rules content.toList = counts ↔
        Replacements rules content.toList counts) := by
  have listed : (applyRules rules content).counts = ownCounts rules content.toList ↔
      Listable (rules.map Rule.name) := by
    rw [counts_applyRules, Counts.ofList_eq_self_iff, map_fst_ownCounts]
  refine ⟨listed, fun listable => ?_, fun honest counts => ownCounts_eq_iff honest⟩
  rw [listed.mpr listable, Counts.text, Counts.listing, List.map_map]
  rfl

/-- The rules for calls have listable names. -/
theorem listable_superCallRules (indent : String) :
    Listable ((superCallRules indent).map Rule.name) := by
  have names : (superCallRules indent).map Rule.name = ["two-argument", "one-argument"] := rfl
  have plain : ∀ name ∈ ["two-argument", "one-argument"], arrayIndex? name = none := by decide
  rw [names]
  refine ⟨by decide, by decide, [], _, rfl, .nil, nofun, fun name member => ?_⟩
  exact arrayIndex?_eq_none_iff.mp (plain name member)

/-- The counts of one call of each kind. -/
theorem counts_listed_iff_superCalls :
    let rules := superCallRules "\t"
    let content := "super(1);super(2,true);"
    Listable (rules.map Rule.name) ∧
      (applyRules rules content).counts = ownCounts rules content.toList ∧
      (applyRules rules content).counts.text =
        ", ".intercalate ((ownCounts rules content.toList).map fun (name, count) =>
          s!"{name}: {count}") ∧
      Replacements rules content.toList [("two-argument", 1), ("one-argument", 1)] := by
  intro rules content
  have listable := listable_superCallRules "\t"
  obtain ⟨listed, line, replaced⟩ := counts_listed_iff rules content
  have counted : ownCounts rules content.toList = [("two-argument", 1), ("one-argument", 1)] := by
    decide +kernel
  exact ⟨listable, listed.mpr listable, line listable,
    (replaced (honest_superCallRules "\t") _).mp counted⟩

end SuperCalls
