/-
Module: SuperCalls.Proofs.Rules.Recognition
Purpose: The patterns of the two rules recognise the super calls of the grammar: they find a match
  where a call begins and nowhere else.
Main exports: twoArguments_eq_some_iff, oneArgument_eq_some_iff, Rule.Settles,
  twoArgumentRule_settles, oneArgumentRule_settles, honest_superCallRules
-/
import Mathlib.Data.List.TakeDrop
import Mathlib.Data.List.TakeWhile
import SuperCalls.Proofs.Rules.Grammar
import SuperCalls.Rule.SuperCall

namespace SuperCalls

open Text (isBlank isWord)

/-!
### Literals and runs
-/

theorem afterLiteral?_eq_some_iff {literal text rest : List Char} :
    afterLiteral? literal text = some rest ↔ text = literal ++ rest := by
  induction literal generalizing text with
  | nil => simp [afterLiteral?]
  | cons l literal ih =>
      cases text with
      | nil => simp [afterLiteral?]
      | cons c text =>
          simp only [afterLiteral?, List.cons_append, List.cons.injEq]
          split
          · next same => simp [ih, same]
          · next other => simp [Ne.symm other]

theorem afterSuper?_eq_some_iff {before : Option Char} {text rest : List Char} :
    afterSuper? before text = some rest ↔
      before.any isWord = false ∧ text = "super(".toList ++ rest := by
  unfold afterSuper?
  split
  · next inside => simp [inside]
  · next boundary =>
      rw [Bool.not_eq_true] at boundary
      rw [afterLiteral?_eq_some_iff, boundary]
      simp

/-- A run of a class ends where the class does. -/
theorem span_append {p : Char → Bool} {run rest : List Char} (all : ∀ c ∈ run, p c)
    (stop : ∀ c ∈ rest.head?, p c = false) : (run ++ rest).span p = (run, rest) := by
  have ended : rest.takeWhile p = [] ∧ rest.dropWhile p = rest := by
    cases rest with
    | nil => exact ⟨rfl, rfl⟩
    | cons c rest =>
        have fails : p c = false := stop c rfl
        simp [fails]
  rw [List.span_eq_takeWhile_dropWhile, List.takeWhile_append_of_pos all,
    List.dropWhile_append_of_pos all, ended.1, ended.2, List.append_nil]

/-- What a span takes is a run of the class, in front of what it leaves. -/
theorem span_sound {p : Char → Bool} {text run rest : List Char}
    (spans : text.span p = (run, rest)) : text = run ++ rest ∧ ∀ c ∈ run, p c := by
  rw [List.span_eq_takeWhile_dropWhile, Prod.mk.injEq] at spans
  obtain ⟨rfl, rfl⟩ := spans
  exact ⟨List.takeWhile_append_dropWhile.symm, fun c member => List.mem_takeWhile_imp member⟩

/-!
### Weights and truth values
-/

theorem weight?_sound {text weight rest : List Char} (found : weight? text = some (weight, rest)) :
    IsWeight weight ∧ text = weight ++ rest := by
  unfold weight? at found
  cases spans : text.span Char.isDigit with
  | mk whole tail =>
      obtain ⟨rfl, digits⟩ := span_sound spans
      simp only [spans] at found
      split at found
      · next more =>
          cases inner : more.span Char.isDigit with
          | mk part left =>
              obtain ⟨rfl, partDigits⟩ := span_sound inner
              simp only [inner] at found
              split at found
              · cases found
              · next some =>
                  cases found
                  exact ⟨.fraction (by simpa using some) partDigits, by simp⟩
      · cases found
      · next more some =>
          cases inner : more.span Char.isDigit with
          | mk part left =>
              obtain ⟨rfl, partDigits⟩ := span_sound inner
              simp only [inner] at found
              cases found
              exact ⟨.pointed some digits partDigits, by simp⟩
      · next some _ _ =>
          cases found
          exact ⟨.whole some digits, rfl⟩

/-- A weight is read up to the first character that no weight holds. -/
theorem weight?_append (weight : Weight) {rest : List Char}
    (stop : ∀ c ∈ rest.head?, isWeightChar c = false) :
    weight? (weight.text ++ rest) = some (weight.text, rest) := by
  have noDigit : ∀ c ∈ rest.head?, c.isDigit = false := by
    intro c head
    have fails := stop c head
    simp only [isWeightChar, Bool.or_eq_false_iff] at fails
    exact fails.1
  have noPoint : ∀ more, rest ≠ '.' :: more := by
    rintro more rfl
    have fails := stop '.' rfl
    cases fails
  obtain ⟨text, isWeight⟩ := weight
  unfold weight?
  cases isWeight with
  | whole some all =>
      rw [span_append all noDigit]
      cases text with
      | nil => exact absurd rfl some
      | cons d digits =>
          cases rest with
          | nil => rfl
          | cons c rest =>
              -- no point follows, so the last case of the match is the one
              simp only
  | @pointed digits part some all behind =>
      have point : ∀ c ∈ ('.' :: (part ++ rest)).head?, c.isDigit = false := by simp
      rw [List.append_assoc, List.cons_append, span_append all point]
      cases digits with
      | nil => exact absurd rfl some
      | cons d digits => simp only [span_append behind noDigit]
  | @fraction part some all =>
      have point : ∀ c ∈ ('.' :: (part ++ rest)).head?, c.isDigit = false := by simp
      have none : ('.' :: (part ++ rest)).span Char.isDigit = ([], '.' :: (part ++ rest)) :=
        @span_append _ [] _ (by simp) point
      rw [List.cons_append, none]
      simp only [span_append all noDigit]
      simp [some]

theorem boolean?_eq_some_iff {text truth rest : List Char} :
    boolean? text = some (truth, rest) ↔
      ∃ b, truth = truthText b ∧ text = truthText b ++ rest := by
  unfold boolean?
  constructor
  · intro found
    split at found
    · next left holds =>
        rw [afterLiteral?_eq_some_iff] at holds
        cases found
        exact ⟨true, rfl, holds⟩
    · simp only [Option.map_eq_some_iff, Prod.mk.injEq] at found
      obtain ⟨left, fails, rfl, rfl⟩ := found
      rw [afterLiteral?_eq_some_iff] at fails
      exact ⟨false, rfl, fails⟩
  · rintro ⟨b, rfl, rfl⟩
    cases b with
    | true =>
        have holds : afterLiteral? "true".toList (truthText true ++ rest) = some rest :=
          afterLiteral?_eq_some_iff.mpr rfl
        rw [holds]
        rfl
    | false => rfl

/-!
### Calls
-/

/-- The pattern for one argument finds the calls of one argument. -/
theorem oneArgument_eq_some_iff {before : Option Char} {text : List Char} {hit : Hit} :
    oneArgument before text = some hit ↔
      ∃ weight, Begins before text (.one weight) ∧
        hit = ⟨(SuperCall.one weight).text, [some weight.text]⟩ := by
  unfold oneArgument
  simp only [Option.bind_eq_bind, Option.bind_eq_some_iff, afterSuper?_eq_some_iff,
    afterLiteral?_eq_some_iff]
  constructor
  · rintro ⟨_, ⟨boundary, rfl⟩, ⟨weight, _⟩, found, rest, rfl, same⟩
    obtain ⟨isWeight, rfl⟩ := weight?_sound found
    refine ⟨⟨weight, isWeight⟩, ⟨boundary, rest, ?_⟩, ?_⟩
    · simp [SuperCall.text_eq, SuperCall.arguments]
    · rw [← Option.some.inj same]
      simp [SuperCall.text_eq, SuperCall.arguments]
  · rintro ⟨weight, ⟨boundary, rest, rfl⟩, rfl⟩
    refine ⟨(SuperCall.one weight).arguments ++ rest, ⟨boundary, ?_⟩, (weight.text, ");".toList ++ rest),
      ?_, rest, rfl, ?_⟩
    · simp [SuperCall.text_eq]
    · rw [SuperCall.arguments, List.append_assoc]
      exact weight?_append weight (by simp; decide)
    · simp [SuperCall.text_eq, SuperCall.arguments]

/-- The pattern for two arguments finds the calls of two arguments. -/
theorem twoArguments_eq_some_iff {before : Option Char} {text : List Char} {hit : Hit} :
    twoArguments before text = some hit ↔
      ∃ weight lead enabled trail, Begins before text (.two weight lead enabled trail) ∧
        hit = ⟨(SuperCall.two weight lead enabled trail).text,
          [some weight.text, some (truthText enabled)]⟩ := by
  unfold twoArguments
  simp only [Option.bind_eq_bind, Option.bind_eq_some_iff, afterSuper?_eq_some_iff,
    afterLiteral?_eq_some_iff]
  constructor
  · rintro ⟨_, ⟨boundary, rfl⟩, ⟨weight, _⟩, found, second, rfl, ⟨_, left⟩, truth, rest, closed,
      same⟩
    obtain ⟨isWeight, rfl⟩ := weight?_sound found
    cases leads : second.span isBlank with
    | mk lead behindLead =>
        cases trails : left.span isBlank with
        | mk trail behindTrail =>
            simp only [leads, trails] at truth closed same
            obtain ⟨rfl, leadBlank⟩ := span_sound leads
            obtain ⟨rfl, trailBlank⟩ := span_sound trails
            obtain ⟨enabled, rfl, rfl⟩ := boolean?_eq_some_iff.mp truth
            subst closed
            refine ⟨⟨weight, isWeight⟩, ⟨lead, leadBlank⟩, enabled, ⟨trail, trailBlank⟩,
              ⟨boundary, rest, ?_⟩, ?_⟩
            · simp [SuperCall.text_eq, SuperCall.arguments]
            · rw [← Option.some.inj same]
              simp [SuperCall.text_eq, SuperCall.arguments]
  · rintro ⟨weight, lead, enabled, trail, ⟨boundary, rest, rfl⟩, rfl⟩
    have leads : (lead.text ++ (truthText enabled ++ (trail.text ++ (");".toList ++ rest)))).span
        isBlank = (lead.text, truthText enabled ++ (trail.text ++ (");".toList ++ rest))) :=
      span_append lead.blank (SuperCall.truthText_head enabled _)
    have trails : (trail.text ++ (");".toList ++ rest)).span isBlank =
        (trail.text, ");".toList ++ rest) :=
      span_append trail.blank (by simp; decide)
    refine ⟨(SuperCall.two weight lead enabled trail).arguments ++ rest, ⟨boundary, ?_⟩,
      (weight.text, ',' :: (lead.text ++ (truthText enabled ++ (trail.text ++ (");".toList ++ rest))))),
      ?_, lead.text ++ (truthText enabled ++ (trail.text ++ (");".toList ++ rest))), rfl,
      (truthText enabled, trail.text ++ (");".toList ++ rest)), ?_, rest, ?_, ?_⟩
    · simp [SuperCall.text_eq]
    · rw [← weight?_append weight (by simp; decide)]
      simp [SuperCall.arguments]
    · rw [leads]
      exact boolean?_eq_some_iff.mpr ⟨enabled, rfl, rfl⟩
    · rw [trails]
    · rw [leads, trails]
      simp [SuperCall.text_eq, SuperCall.arguments]

/-!
### Rules
-/

/-- A rule replaces the calls of a kind by their setters: it finds every one of them where it
begins, and nothing else. -/
structure Rule.Settles (rule : Rule) (kind : SuperCall → Bool) (indent : List Char) : Prop where
  everywhere : rule.everywhere = true
  found : ∀ {before : Option Char} {text : List Char} {call : SuperCall}, kind call →
    Begins before text call → ∃ hit, rule.pattern before text = some hit ∧
      hit.text = call.text ∧ rule.output hit = call.setters indent
  missed : ∀ {before : Option Char} {text : List Char},
    (∀ call, kind call → ¬ Begins before text call) → rule.pattern before text = none

theorem twoArgumentRule_settles (indent : String) :
    (twoArgumentRule indent).Settles SuperCall.isTwo indent.toList where
  everywhere := rfl
  found {before text call} kind begins := by
    cases call with
    | one weight => cases kind
    | two weight lead enabled trail =>
        refine ⟨_, twoArguments_eq_some_iff.mpr ⟨weight, lead, enabled, trail, begins, rfl⟩, rfl, ?_⟩
        unfold Rule.output twoArgumentRule weightSetter setterLine SuperCall.setters
        simp
  missed {before text} absent := by
    apply Option.eq_none_iff_forall_ne_some.mpr
    intro hit found
    obtain ⟨weight, lead, enabled, trail, begins, _⟩ := twoArguments_eq_some_iff.mp found
    exact absent _ rfl begins

/-- A match of the rule is the text of a call that begins where it is found. -/
theorem twoArgumentRule_honest (indent : String) : (twoArgumentRule indent).Honest := by
  intro before text hit found
  obtain ⟨weight, lead, enabled, trail, begins, rfl⟩ := twoArguments_eq_some_iff.mp found
  exact begins.2

theorem oneArgumentRule_settles (indent : String) :
    (oneArgumentRule indent).Settles SuperCall.isOne indent.toList where
  everywhere := rfl
  found {before text call} kind begins := by
    cases call with
    | one weight =>
        refine ⟨_, oneArgument_eq_some_iff.mpr ⟨weight, begins, rfl⟩, rfl, ?_⟩
        unfold Rule.output oneArgumentRule weightSetter setterLine SuperCall.setters
        simp
    | two weight lead enabled trail => cases kind
  missed {before text} absent := by
    apply Option.eq_none_iff_forall_ne_some.mpr
    intro hit found
    obtain ⟨weight, begins, _⟩ := oneArgument_eq_some_iff.mp found
    exact absent _ rfl begins

theorem oneArgumentRule_honest (indent : String) : (oneArgumentRule indent).Honest := by
  intro before text hit found
  obtain ⟨weight, begins, rfl⟩ := oneArgument_eq_some_iff.mp found
  exact begins.2

/-- The matches of the rules for calls stand where they are found. -/
theorem honest_superCallRules (indent : String) : ∀ rule ∈ superCallRules indent, rule.Honest :=
  List.forall_mem_cons.mpr
    ⟨twoArgumentRule_honest indent, List.forall_mem_singleton.mpr (oneArgumentRule_honest indent)⟩

end SuperCalls
