/-
Module: SuperCalls.Proofs.Rules.Rewriting
Purpose: What one pass of a rule does, told without the state of the pass: a relation between a
  text, the text that the pass leaves, and the number of replacements.
Main exports: behind, Rule.Rewrites, Rule.Rewrites.apply_eq, Rule.Honest, Rule.Honest.apply_eq_iff,
  Rule.Unmatched, applyRules_of_unmatched
-/
import SuperCalls.Rule

namespace SuperCalls

/-- The character before the end of a text that stands behind a character. -/
def behind (before : Option Char) : List Char → Option Char
  | [] => before
  | c :: text => behind (some c) text

theorem behind_append (before : Option Char) (first second : List Char) :
    behind before (first ++ second) = behind (behind before first) second := by
  induction first generalizing before with
  | nil => rfl
  | cons c first ih => exact ih (some c)

@[simp] theorem behind_concat (before : Option Char) (text : List Char) (c : Char) :
    behind before (text ++ [c]) = some c := by
  rw [behind_append]
  rfl

namespace Rule

/-- A rule turns a text that stands behind a character into another text, with a number of
replacements, if it seeks matches at all: one that replaces the first match only seeks no other one.  A
match that is empty is replaced in front of the next character, which is copied. -/
inductive Rewrites (rule : Rule) : Bool → Option Char → List Char → List Char → Nat → Prop where
  | done {seeks : Bool} {before : Option Char} (miss : seeks → rule.pattern before [] = none) :
      Rewrites rule seeks before [] [] 0
  | last {before : Option Char} {hit : Hit} (found : rule.pattern before [] = some hit) :
      Rewrites rule true before [] (rule.output hit) 1
  | copy {seeks : Bool} {before : Option Char} {c : Char} {rest out : List Char} {n : Nat}
      (miss : seeks → rule.pattern before (c :: rest) = none)
      (tail : Rewrites rule seeks (some c) rest out n) :
      Rewrites rule seeks before (c :: rest) (c :: out) n
  | insert {before : Option Char} {hit : Hit} {c : Char} {rest out : List Char} {n : Nat}
      (text : hit.text = []) (found : rule.pattern before (c :: rest) = some hit)
      (tail : Rewrites rule rule.everywhere (some c) rest out n) :
      Rewrites rule true before (c :: rest) (rule.output hit ++ c :: out) (n + 1)
  | replace {before : Option Char} {hit : Hit} {c : Char} {covered rest out : List Char} {n : Nat}
      (text : hit.text = c :: covered)
      (found : rule.pattern before (c :: covered ++ rest) = some hit)
      (tail : Rewrites rule rule.everywhere (behind before (c :: covered)) rest out n) :
      Rewrites rule true before (c :: covered ++ rest) (rule.output hit ++ out) (n + 1)

/-- A pass seeks a match if the rule replaces every one or has replaced none yet. -/
def seeks (rule : Rule) (pass : Pass) : Bool :=
  rule.everywhere || pass.count == 0

theorem hit?_of_seeks {rule : Rule} {pass : Pass} (seeking : rule.seeks pass = true)
    (before : Option Char) (text : List Char) :
    rule.hit? pass before text = rule.pattern before text :=
  if_pos seeking

theorem hit?_eq_none {rule : Rule} (pass : Pass) {before : Option Char} {text : List Char}
    (miss : rule.seeks pass → rule.pattern before text = none) :
    rule.hit? pass before text = none := by
  unfold hit?
  split
  · next seeking => exact miss seeking
  · rfl

/-- Behind a replacement only a rule that replaces every match seeks another one. -/
theorem seeks_put (rule : Rule) (pass : Pass) (replacement : List Char) :
    rule.seeks (pass.put replacement) = rule.everywhere := by
  simp [seeks, Pass.put]

/-- Nothing happens to the characters that a match covers. -/
theorem passFrom_covered (rule : Rule) (pass : Pass) (rest : List Char) :
    ∀ (covered : List Char) (before : Option Char),
      passFrom rule before covered.length pass (covered ++ rest) =
        passFrom rule (behind before covered) 0 pass rest
  | [], _ => rfl
  | c :: covered, before => by
      show passFrom rule before (covered.length + 1) pass (c :: (covered ++ rest)) = _
      rw [passFrom]
      exact passFrom_covered rule pass rest covered (some c)

namespace Rewrites

variable {rule : Rule} {seeks : Bool} {before : Option Char} {text out : List Char} {n : Nat}

/-- The pass keeps what it wrote before and goes on as the relation says. -/
theorem passFrom_eq (rewrites : Rewrites rule seeks before text out n) {pass : Pass}
    (seeking : rule.seeks pass = seeks) :
    passFrom rule before 0 pass text = ⟨out.reverse ++ pass.out, pass.count + n⟩ := by
  induction rewrites generalizing pass with
  | done miss =>
      have nothing := hit?_eq_none pass fun asked => miss (seeking ▸ asked)
      simp [passFrom, nothing]
  | last found => simp [passFrom, hit?_of_seeks seeking, found, Pass.put]
  | @copy seeks before c rest out n miss tail ih =>
      have nothing := hit?_eq_none pass fun asked => miss (seeking ▸ asked)
      have copied : rule.seeks (pass.copy c) = seeks := seeking
      simp only [passFrom, nothing]
      rw [ih copied]
      simp [Pass.copy]
  | @insert before hit c rest out n text found tail ih =>
      have put : rule.seeks ((pass.put (rule.output hit)).copy c) = rule.everywhere :=
        seeks_put rule pass (rule.output hit)
      simp only [passFrom, hit?_of_seeks seeking, found, text]
      rw [ih put]
      simp [Pass.copy, Pass.put, Nat.add_comm, Nat.add_left_comm]
  | @replace before hit c covered rest out n text found tail ih =>
      rw [List.cons_append, passFrom, hit?_of_seeks seeking]
      rw [List.cons_append] at found
      simp only [found, text]
      rw [passFrom_covered, ← behind, ih (seeks_put rule pass _), Pass.put]
      simp only [List.reverse_append, List.append_assoc, Pass.mk.injEq, true_and]
      omega

/-- What the relation says is what the rule does to a whole text. -/
theorem apply_eq (rewrites : Rewrites rule true none text out n) : rule.apply text = (out, n) := by
  have start : rule.seeks ⟨[], 0⟩ = true := by simp [Rule.seeks]
  simp [apply, rewrites.passFrom_eq start]

end Rewrites

/-- Every match of a rule stands where it is found. -/
def Honest (rule : Rule) : Prop :=
  ∀ before text hit, rule.pattern before text = some hit → hit.text <+: text

variable {rule : Rule}

/-- Where a rule finds no match it copies. -/
theorem exists_rewrites_copy {seeks : Bool} {before : Option Char} {c : Char} {rest : List Char}
    (miss : seeks → rule.pattern before (c :: rest) = none)
    (tail : ∃ out n, rule.Rewrites seeks (some c) rest out n) :
    ∃ out n, rule.Rewrites seeks before (c :: rest) out n := by
  obtain ⟨out, n, tail⟩ := tail
  exact ⟨c :: out, n, .copy miss tail⟩

/-- A rule whose matches stand where they are found turns every text into some text. -/
theorem Honest.exists_rewrites (honest : rule.Honest) :
    ∀ (seeks : Bool) (before : Option Char) (text : List Char),
      ∃ out n, rule.Rewrites seeks before text out n
  | false, _, [] => ⟨[], 0, .done nofun⟩
  | true, before, [] => by
      cases found : rule.pattern before [] with
      | none => exact ⟨[], 0, .done fun _ => found⟩
      | some hit => exact ⟨_, 1, .last found⟩
  | false, _, c :: rest => exists_rewrites_copy nofun (honest.exists_rewrites false (some c) rest)
  | true, before, c :: rest => by
      cases found : rule.pattern before (c :: rest) with
      | none =>
          exact exists_rewrites_copy (fun _ => found) (honest.exists_rewrites true (some c) rest)
      | some hit =>
          have stands := honest before (c :: rest) hit found
          cases text : hit.text with
          | nil =>
              obtain ⟨out, n, tail⟩ := honest.exists_rewrites rule.everywhere (some c) rest
              exact ⟨_, _, .insert text found tail⟩
          | cons first covered =>
              rw [text] at stands
              obtain ⟨rfl, later, rfl⟩ := List.cons_prefix_cons.mp stands
              obtain ⟨out, n, tail⟩ :=
                honest.exists_rewrites rule.everywhere (behind before (first :: covered)) later
              exact ⟨_, _, .replace text found tail⟩
termination_by _ _ text => text.length

/-- A rule whose matches stand where they are found does what the relation says, and nothing else. -/
theorem Honest.apply_eq_iff (honest : rule.Honest) {text out : List Char} {n : Nat} :
    rule.apply text = (out, n) ↔ rule.Rewrites true none text out n := by
  constructor
  · intro applied
    obtain ⟨left, count, rewrites⟩ := honest.exists_rewrites true none text
    cases rewrites.apply_eq.symm.trans applied
    exact rewrites
  · exact Rewrites.apply_eq

/-!
### Texts without a match
-/

/-- The pattern of a rule matches nowhere in a text. -/
def Unmatched (rule : Rule) (text : List Char) : Prop :=
  ∀ front rest, text = front ++ rest → rule.pattern (behind none front) rest = none

/-- A pass copies what matches nowhere. -/
theorem passFrom_of_miss (rule : Rule) (text : List Char) :
    ∀ (before : Option Char) (pass : Pass),
      (∀ front rest, text = front ++ rest → rule.pattern (behind before front) rest = none) →
      passFrom rule before 0 pass text = ⟨text.reverse ++ pass.out, pass.count⟩ := by
  induction text with
  | nil =>
      intro before pass miss
      have here : rule.pattern before [] = none := miss [] [] rfl
      have nothing := hit?_eq_none pass fun _ => here
      simp [passFrom, nothing]
  | cons c text ih =>
      intro before pass miss
      have later : ∀ front rest, text = front ++ rest →
          rule.pattern (behind (some c) front) rest = none := by
        rintro front rest rfl
        exact miss (c :: front) rest rfl
      have here : rule.pattern before (c :: text) = none := miss [] (c :: text) rfl
      have nothing := hit?_eq_none pass fun _ => here
      simp only [passFrom, nothing]
      rw [ih (some c) (pass.copy c) later]
      simp [Pass.copy]

theorem apply_of_unmatched {rule : Rule} {text : List Char} (unmatched : rule.Unmatched text) :
    rule.apply text = (text, 0) := by
  simp [apply, passFrom_of_miss rule text none ⟨[], 0⟩ unmatched]

end Rule

/-- Rules that match nowhere in a text do not change it. -/
theorem applyRules_of_unmatched {rules : List Rule} {content : String}
    (unmatched : ∀ rule ∈ rules, rule.Unmatched content.toList) :
    (applyRules rules content).changed = false := by
  have left : (applyAll rules content.toList).1 = content.toList := by
    refine List.foldlRecOn rules _
      (motive := fun (state : List Char × Counts) => state.1 = content.toList) rfl ?_
    intro state same rule member
    change (rule.apply state.1).1 = content.toList
    rw [same, Rule.apply_of_unmatched (unmatched rule member)]
  have same : (applyRules rules content).content = content := by
    apply String.toList_injective
    rw [toList_applyRules, left]
  exact bne_eq_false_iff_eq.mpr same

end SuperCalls
