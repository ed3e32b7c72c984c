/-
Module: SuperCalls.Proofs.Rules.ChangeCounts
Purpose: What is counted tells whether a text is changed.  Every replacement writes a letter that no
  call is written with, and no pass takes one away, so replacements never cancel out, not even where
  the second pass rewrites what the first one wrote.
Main exports: marks, marks_le_of_settle, applyAll_tally, Outcome.Tallies, Batch.tallies_course,
  changed_iff_counted
-/
import SuperCalls.Proofs.Batch.Course
import SuperCalls.Proofs.Rules.SimultaneousReplacement
import SuperCalls.Sandbox.Memory

namespace SuperCalls

/-!
### A letter that calls lack
-/

/-- How often a text holds the letter that setters are written with and calls are not. -/
def marks (text : List Char) : Nat :=
  text.count 'W'

theorem marks_append (first second : List Char) :
    marks (first ++ second) = marks first + marks second :=
  List.count_append

theorem Weight.marks_text (weight : Weight) : marks weight.text = 0 :=
  List.count_eq_zero.mpr fun member => weight.ne_of_mem member (by decide) rfl

theorem marks_truthText (enabled : Bool) : marks (truthText enabled) = 0 := by
  cases enabled <;> rfl

namespace SuperCall

theorem marks_arguments (call : SuperCall) : marks call.arguments = 0 := by
  have closing : marks ");".toList = 0 := rfl
  cases call with
  | one weight => rw [arguments, marks_append, weight.marks_text, closing]
  | two weight lead enabled trail =>
      have blank (blanks : Blanks) : marks blanks.text = 0 :=
        List.count_eq_zero.mpr fun member => blanks.ne_of_mem member (by decide) rfl
      have comma (text : List Char) : marks (',' :: text) = marks text :=
        List.count_cons_of_ne (by decide)
      rw [arguments, marks_append, comma, marks_append, marks_append, marks_append, weight.marks_text,
        blank, marks_truthText, blank, closing]

/-- No call holds a mark. -/
theorem marks_text (call : SuperCall) : marks call.text = 0 := by
  rw [text_eq, marks_append, marks_arguments]
  rfl

/-- The setters of a call hold a mark, whatever the indent is. -/
theorem marks_setters_pos (indent : List Char) (call : SuperCall) :
    0 < marks (call.setters indent) := by
  have named : 'W' ∈ "setWeight(".toList := by decide
  apply List.count_pos_iff.mpr
  cases call with
  | one weight =>
      rw [setters_one]
      simp only [List.mem_append]
      exact Or.inr (Or.inr (Or.inr (Or.inl named)))
  | two weight lead enabled trail =>
      rw [setters_two]
      simp only [List.mem_append]
      exact Or.inr (Or.inr (Or.inr (Or.inl named)))

end SuperCall

/-!
### Passes
-/

/-- A pass leaves all marks and adds at least one for each replacement. -/
theorem marks_le_of_settle (kind : SuperCall → Bool) (indent : List Char) :
    ∀ pieces : List Piece,
      marks (source pieces) + pieces.countP (Piece.isCall kind) ≤
        marks (source (pieces.flatMap (Piece.settle kind indent)))
  | [] => Nat.le_refl _
  | .char c :: pieces => by
      have rest := marks_le_of_settle kind indent pieces
      have kept : marks (source (.char c :: pieces)) = marks [c] + marks (source pieces) :=
        marks_append [c] (source pieces)
      rw [List.flatMap_cons, source_append, List.countP_cons, marks_append, kept]
      simp only [Piece.settle, Piece.isCall, source_char, source_nil, Bool.false_eq_true, if_false]
      omega
  | .call call :: pieces => by
      have rest := marks_le_of_settle kind indent pieces
      have written := call.marks_setters_pos indent
      rw [List.flatMap_cons, source_append, List.countP_cons, source_call, marks_append, marks_append,
        call.marks_text]
      by_cases matched : kind call
      · simp only [Piece.settle, Piece.isCall, matched, source_map_char, if_true]
        omega
      · simp only [Piece.settle, Piece.isCall, matched, Bool.false_eq_true, if_false]
        omega

/-- Only calls of a kind are changed by settling that kind. -/
theorem settle_of_countP_eq_zero {kind : SuperCall → Bool} (indent : List Char) :
    ∀ {pieces : List Piece}, pieces.countP (Piece.isCall kind) = 0 →
      pieces.flatMap (Piece.settle kind indent) = pieces
  | [], _ => rfl
  | .char c :: pieces, absent => by
      have rest : pieces.countP (Piece.isCall kind) = 0 := absent
      rw [List.flatMap_cons, settle_of_countP_eq_zero indent rest]
      rfl
  | .call call :: pieces, absent => by
      rw [List.countP_cons, Nat.add_eq_zero_iff] at absent
      have other : ¬ kind call := by
        intro matched
        simp [Piece.isCall, matched] at absent
      rw [List.flatMap_cons, settle_of_countP_eq_zero indent absent.1, Piece.settle, if_neg other]
      rfl

theorem mem_of_mem_places {k : Nat} {call : SuperCall} :
    ∀ {pieces : List Piece} {j : Nat}, (k, call) ∈ places j pieces → .call call ∈ pieces
  | [], _, member => by cases member
  | .char _ :: pieces, _, member => List.mem_cons_of_mem _ (mem_of_mem_places member)
  | .call _ :: pieces, _, member => by
      rcases List.mem_cons.mp member with here | later
      · cases here
        exact List.mem_cons_self
      · exact List.mem_cons_of_mem _ (mem_of_mem_places later)

/-- A text that holds a call is read with a call of one of the kinds. -/
theorem Reads.countP_pos_of_hasCall {pieces : List Piece} (reads : Reads none pieces)
    (calls : HasCall (source pieces)) :
    0 < pieces.countP (Piece.isCall SuperCall.isTwo) ∨
      0 < pieces.countP (Piece.isCall SuperCall.isOne) := by
  obtain ⟨k, call, occurs⟩ := calls
  have member : .call call ∈ pieces :=
    mem_of_mem_places ((@Reads.occursAt_iff k call pieces [] reads (Nat.zero_le k)).mp occurs)
  cases kind : call.isTwo with
  | true => exact Or.inl (List.countP_pos_iff.mpr ⟨_, member, kind⟩)
  | false =>
      have one : call.isOne = true := by rw [SuperCall.isOne, kind, Bool.not_false]
      exact Or.inr (List.countP_pos_iff.mpr ⟨_, member, one⟩)

/-- What both passes count: the text has as many marks more, at least, and is left as it is if nothing
is counted, which happens only to texts without calls. -/
theorem applyAll_tally (indent : String) (text : List Char) :
    let patched := applyAll (superCallRules indent) text
    ∃ two one, patched.2 = [("two-argument", two), ("one-argument", one)] ∧
      marks text + (two + one) ≤ marks patched.1 ∧
      (two = 0 ∧ one = 0 → patched.1 = text) ∧ (HasCall text → 0 < two ∨ 0 < one) := by
  intro patched
  obtain ⟨pieces, rfl, reads⟩ := exists_reads text none
  have first := marks_le_of_settle SuperCall.isTwo indent.toList pieces
  rcases Nat.eq_zero_or_pos (pieces.countP (Piece.isCall SuperCall.isTwo)) with none | some
  · -- the first pass finds nothing, so the second one reads the same pieces
    have same := settle_of_countP_eq_zero indent.toList none
    have applied : patched = _ := applyAll_superCallRules indent reads reads (by rw [same])
    have second := marks_le_of_settle SuperCall.isOne indent.toList pieces
    rw [applied]
    refine ⟨_, _, rfl, ?_, ?_, reads.countP_pos_of_hasCall⟩
    · simp only
      omega
    · rintro ⟨_, noneLeft⟩
      simp only [settle_of_countP_eq_zero indent.toList noneLeft]
  · obtain ⟨between, same, readsBetween⟩ :=
      exists_reads (source (pieces.flatMap (Piece.settle SuperCall.isTwo indent.toList))) none
    have applied : patched = _ := applyAll_superCallRules indent reads readsBetween same
    have second := marks_le_of_settle SuperCall.isOne indent.toList between
    rw [same] at second
    rw [applied]
    refine ⟨_, _, rfl, ?_, ?_, fun _ => Or.inl some⟩
    · simp only
      omega
    · rintro ⟨noneFound, _⟩
      omega

/-- A text is changed exactly if something is counted in it, and it is if a call stands in it. -/
theorem applyRules_tally (indent content : String) :
    let patched := applyRules (superCallRules indent) content
    ∃ two one, patched.counts = [("two-argument", two), ("one-argument", one)] ∧
      (patched.changed = true ↔ 0 < two ∨ 0 < one) ∧
      (HasCall content.toList → patched.changed = true) := by
  intro patched
  obtain ⟨two, one, counted, more, same, calls⟩ := applyAll_tally indent content.toList
  have changed : patched.changed = true ↔ 0 < two ∨ 0 < one := by
    rw [changed_iff_content_ne, ne_eq, ← String.toList_inj, toList_applyRules]
    constructor
    · intro other
      by_contra nothing
      exact other (same (by omega))
    · intro some equal
      rw [equal] at more
      omega
  exact ⟨two, one, counted, changed, fun stands => changed.mpr (calls stands)⟩

/-!
### Outcomes
-/

/-- A file is reported as fixed exactly if some replacement is counted for it, and if it is reported as
unchanged, no replacement is counted by either rule. -/
structure Outcome.Tallies (outcome : Outcome) : Prop where
  fixed_iff : outcome.status = .fixed ↔ ∃ entry ∈ outcome.counts, 0 < entry.2
  unchanged : outcome.status = .unchanged →
    outcome.counts = [("two-argument", 0), ("one-argument", 0)]

/-- An outcome without counts is neither fixed nor unchanged. -/
theorem Outcome.Tallies.of_nil {path : String} {status : Status} (unfixed : status ≠ .fixed)
    (other : status ≠ .unchanged) : Outcome.Tallies ⟨path, status, []⟩ where
  fixed_iff := by simp [unfixed]
  unchanged same := absurd same other

namespace Batch

variable {σ : Type} {batch : Batch} {indent : String}

section

variable (rules : batch.rules = superCallRules indent)

include rules

theorem tallies_of_changed {content path : String}
    (changed : (applyRules batch.rules content).changed = true) :
    Outcome.Tallies ⟨path, .fixed, (applyRules batch.rules content).counts⟩ := by
  rw [rules] at changed ⊢
  obtain ⟨two, one, counted, tally, _⟩ := applyRules_tally indent content
  rw [counted]
  refine ⟨?_, nofun⟩
  simpa using tally.mp changed

theorem tallies_of_same {content path : String}
    (same : (applyRules batch.rules content).changed = false) :
    Outcome.Tallies ⟨path, .unchanged, (applyRules batch.rules content).counts⟩ := by
  rw [rules] at same ⊢
  obtain ⟨two, one, counted, tally, _⟩ := applyRules_tally indent content
  rw [same] at tally
  have nothing : two = 0 ∧ one = 0 := by
    have none := mt tally.mpr Bool.false_ne_true
    omega
  rw [counted, nothing.1, nothing.2]
  exact ⟨by simp, fun _ => rfl⟩

/-- Patching a file comes to an outcome that tallies. -/
theorem tallies_of_patches {sandbox : Sandbox (StateM σ)} {path : String} {s t : σ}
    {outcome : Outcome} (patches : Patches batch sandbox path s (.ok outcome) t) :
    outcome.Tallies := by
  cases patches with
  | skipped => exact .of_nil (by simp) (by simp)
  | unchanged _ _ same => exact tallies_of_same rules same
  | unwritten _ _ changed | written _ _ changed => exact tallies_of_changed rules changed

/-- All outcomes of a course tally. -/
theorem tallies_course (sandbox : Sandbox (StateM σ)) (paths : List String) (s : σ) :
    ∀ outcome ∈ (batch.course sandbox s paths).outcomes, outcome.Tallies := by
  induction paths generalizing s with
  | nil => exact fun _ member => (List.not_mem_nil member).elim
  | cons path paths ih =>
      have patches := patches_patched batch sandbox path s
      rw [course]
      cases settled : batch.settle path (batch.patched sandbox path s).1 with
      | error failure => exact fun _ member => (List.not_mem_nil member).elim
      | ok outcome =>
          have own : outcome.Tallies := by
            rcases outcome_of_settle settled with done | ⟨failure, _, rfl⟩
            · rw [done] at patches
              exact tallies_of_patches rules patches
            · exact .of_nil (by simp) (by simp)
          intro other member
          rcases List.mem_cons.mp member with rfl | later
          · exact own
          · exact ih _ other later

end

end Batch

/-- Whatever the indent is, a text is changed exactly if one of the two counts is positive.  So a file is
reported as fixed exactly if some replacement is, and with zeros only if it is reported as unchanged,
whatever it is that the batch works on and whoever listens. -/
theorem changed_iff_counted (indent : String) :
    (∀ content, ∃ two one,
      (applyRules (superCallRules indent) content).counts =
        [("two-argument", two), ("one-argument", one)] ∧
      ((applyRules (superCallRules indent) content).changed = true ↔ 0 < two ∨ 0 < one)) ∧
    ∀ (σ ν : Type) (sandbox : Sandbox (StateM σ)) (dryRun : Bool) (policy : ErrorPolicy) (s : σ),
      let batch : Batch := ⟨superCallRules indent, dryRun, policy⟩
      (∀ path outcome, ((batch.patchFile sandbox path).run s).1 = .ok outcome → outcome.Tallies) ∧
      ∀ (bus : Bus Event ν) paths report,
        ((batch.run sandbox bus paths).run s).1.2 = .ok report →
          ∀ outcome ∈ report.outcomes, outcome.Tallies := by
  refine ⟨fun content => ?_, fun σ ν sandbox dryRun policy s => ⟨?_, ?_⟩⟩
  · obtain ⟨two, one, counted, tally, _⟩ := applyRules_tally indent content
    exact ⟨two, one, counted, tally⟩
  · intro path outcome done
    have patches :=
      Batch.patches_patched ⟨superCallRules indent, dryRun, policy⟩ sandbox path s
    rw [show (Batch.patched _ sandbox path s).1 = .ok outcome from done] at patches
    exact Batch.tallies_of_patches rfl patches
  · intro bus paths report reported
    obtain ⟨_, rfl, _⟩ := Batch.report_of_run reported
    rw [Batch.outcomes_report]
    exact Batch.tallies_course rfl sandbox paths s

/-- A call stands in the indent, so the second pass replaces what the first one wrote; of three files one
has a call, one has none, and one is not there. -/
theorem changed_iff_counted_nested :
    let store : MemoryStore := ⟨[("a", "super(2,true);"), ("b", "x")], [], [], []⟩
    let batch : Batch := ⟨superCallRules "super(1);", false, .continue⟩
    let outcomes : List Outcome :=
      [⟨"a", .fixed, [("two-argument", 1), ("one-argument", 2)]⟩,
        ⟨"b", .unchanged, [("two-argument", 0), ("one-argument", 0)]⟩, ⟨"c", .skipped, []⟩]
    ((batch.patchFile MemoryStore.sandbox "a").run store).1 =
        .ok ⟨"a", .fixed, [("two-argument", 1), ("one-argument", 2)]⟩ ∧
      Outcome.Tallies ⟨"a", .fixed, [("two-argument", 1), ("one-argument", 2)]⟩ ∧
      ((batch.run MemoryStore.sandbox (Bus.empty : Bus Event Nat) ["a", "b", "c"]).run store).1.2 =
        .ok ⟨outcomes, 1, 0, false⟩ ∧
      ∀ outcome ∈ outcomes, outcome.Tallies := by
  intro store batch outcomes
  have patched : ((batch.patchFile MemoryStore.sandbox "a").run store).1 =
      .ok ⟨"a", .fixed, [("two-argument", 1), ("one-argument", 2)]⟩ := by rfl
  have reported :
      ((batch.run MemoryStore.sandbox (Bus.empty : Bus Event Nat) ["a", "b", "c"]).run store).1.2 =
        .ok ⟨outcomes, 1, 0, false⟩ := by rfl
  obtain ⟨file, whole⟩ := (changed_iff_counted "super(1);").2 MemoryStore Nat MemoryStore.sandbox
    false .continue store
  exact ⟨patched, file "a" _ patched, reported, whole Bus.empty _ _ reported⟩

end SuperCalls
