/-
Module: SuperCalls.Proofs.Rules.SimultaneousReplacement
Purpose: What the two rules for super calls do together.  Two passes, the second over what the
  first one left, replace all calls of the text at once, and count them; so the order of the two does
  not matter.
Main exports: applyAll_superCallRules, applyAll_pair, applyAll_of_free, Simultaneous,
  superCalls_replaced_at_once, Patched.Alike, superCallRules_commute
-/
import Mathlib.Data.Set.Card
import SuperCalls.Proofs.Config.Acceptance
import SuperCalls.Proofs.Rules.Pieces

namespace SuperCalls

/-!
### Two passes
-/

theorem assign_both (two one : Nat) :
    Counts.assign (Counts.assign ([] : Counts) "two-argument" two) "one-argument" one =
      [("two-argument", two), ("one-argument", one)] := by
  rfl

/-- One pass over a whole text. -/
theorem Rule.Settles.apply_eq {rule : Rule} {kind : SuperCall → Bool} {indent : List Char}
    (settles : rule.Settles kind indent) {pieces : List Piece} (reads : Reads none pieces) :
    rule.apply (source pieces) =
      (source (pieces.flatMap (Piece.settle kind indent)), pieces.countP (Piece.isCall kind)) :=
  (reads.rewrites settles).apply_eq

/-- The second pass works on what the first one left, which is read anew. -/
theorem applyAll_superCallRules (indent : String) {pieces between : List Piece}
    (reads : Reads none pieces) (readsBetween : Reads none between)
    (same : source between = source (pieces.flatMap (Piece.settle SuperCall.isTwo indent.toList))) :
    applyAll (superCallRules indent) (source pieces) =
      (source (between.flatMap (Piece.settle SuperCall.isOne indent.toList)),
        [("two-argument", pieces.countP (Piece.isCall SuperCall.isTwo)),
          ("one-argument", between.countP (Piece.isCall SuperCall.isOne))]) := by
  have first := (twoArgumentRule_settles indent).apply_eq reads
  have second := (oneArgumentRule_settles indent).apply_eq readsBetween
  rw [same] at second
  simp only [applyAll, superCallRules, List.foldl_cons, List.foldl_nil, first, second]
  exact congrArg (Prod.mk _) (assign_both _ _)

/-- Characters stay what they are. -/
theorem settle_map_char (kind : SuperCall → Bool) (indent text : List Char) :
    (text.map Piece.char).flatMap (Piece.settle kind indent) = text.map Piece.char := by
  induction text with
  | nil => rfl
  | cons c text ih => rw [List.map_cons, List.flatMap_cons, ih]; rfl

section Passes

variable {kind other : SuperCall → Bool} (rest : ∀ call, other call = !kind call)

include rest

/-- The calls that a pass for one kind leaves are those that a pass for the rest replaces. -/
theorem settle_both (indent : List Char) (pieces : List Piece) :
    (pieces.flatMap (Piece.settle kind indent)).flatMap (Piece.settle other indent) =
      (pieces.flatMap (Piece.settled indent)).map .char := by
  induction pieces with
  | nil => rfl
  | cons piece pieces ih =>
      rw [List.flatMap_cons, List.flatMap_append, ih, List.flatMap_cons, List.map_append]
      congr 1
      cases piece with
      | char c => rfl
      | call call =>
          cases matched : kind call with
          | true => simp [Piece.settle, Piece.settled, matched, settle_map_char]
          | false => simp [Piece.settle, Piece.settled, matched, rest]

/-- A pass for one kind leaves as many calls of the rest as there were. -/
theorem countP_settle (indent : List Char) (pieces : List Piece) :
    (pieces.flatMap (Piece.settle kind indent)).countP (Piece.isCall other) =
      pieces.countP (Piece.isCall other) := by
  induction pieces with
  | nil => rfl
  | cons piece pieces ih =>
      rw [List.flatMap_cons, List.countP_append, ih, List.countP_cons, Nat.add_comm]
      congr 1
      cases piece with
      | char c => rfl
      | call call =>
          cases matched : kind call with
          | true => simp [Piece.settle, Piece.isCall, matched, rest]
          | false => simp [Piece.settle, Piece.isCall, matched, rest]

/-- With an indent that holds no call, the passes for one kind and for the rest replace every call,
whichever comes first. -/
theorem applyAll_pair {first second : Rule} {indent : List Char}
    (settles : first.Settles kind indent) (settlesRest : second.Settles other indent)
    (free : ¬ HasCall indent) {pieces : List Piece} (reads : Reads none pieces) :
    applyAll [first, second] (source pieces) =
      (pieces.flatMap (Piece.settled indent),
        Counts.assign (Counts.assign [] first.name (pieces.countP (Piece.isCall kind))) second.name
          (pieces.countP (Piece.isCall other))) := by
  have left : Reads none (pieces.flatMap (Piece.settle kind indent)) := reads.settle free
  have later := settlesRest.apply_eq left
  rw [settle_both rest, source_map_char, countP_settle rest] at later
  simp only [applyAll, List.foldl_cons, List.foldl_nil, settles.apply_eq reads, later]

end Passes

/-- With an indent that holds no call, both passes together replace every call. -/
theorem applyAll_of_free {indent : String} (free : ¬ HasCall indent.toList) {pieces : List Piece}
    (reads : Reads none pieces) :
    applyAll (superCallRules indent) (source pieces) =
      (pieces.flatMap (Piece.settled indent.toList),
        [("two-argument", pieces.countP (Piece.isCall SuperCall.isTwo)),
          ("one-argument", pieces.countP (Piece.isCall SuperCall.isOne))]) := by
  have both := applyAll_pair (fun _ => rfl) (twoArgumentRule_settles indent)
    (oneArgumentRule_settles indent) free reads
  exact both.trans (congrArg (Prod.mk _) (assign_both _ _))

/-- What is left when every call is replaced is read as characters only. -/
theorem reads_settled {indent : List Char} (free : ¬ HasCall indent) {pieces : List Piece}
    (reads : Reads none pieces) :
    Reads none ((pieces.flatMap (Piece.settled indent)).map .char) := by
  have rest (call : SuperCall) : call.isOne = !call.isTwo := rfl
  rw [← settle_both rest]
  exact (reads.settle free).settle free

theorem countP_map_char (kind : SuperCall → Bool) (text : List Char) :
    (text.map Piece.char).countP (Piece.isCall kind) = 0 := by
  rw [List.countP_eq_zero]
  intro piece member
  obtain ⟨c, _, rfl⟩ := List.mem_map.mp member
  exact Bool.false_ne_true

/-- A text without calls is left as it is. -/
theorem applyAll_of_chars {text : List Char} (reads : Reads none (text.map .char))
    (indent : String) :
    applyAll (superCallRules indent) text =
      (text, [("two-argument", 0), ("one-argument", 0)]) := by
  have unchanged := applyAll_superCallRules indent reads reads (by rw [settle_map_char])
  rw [source_map_char, settle_map_char, source_map_char, countP_map_char, countP_map_char]
    at unchanged
  exact unchanged

/-!
### Positions
-/

/-- The positions at which a text holds calls of a kind. -/
def positions (kind : SuperCall → Bool) (text : List Char) : Set Nat :=
  {k | ∃ call, kind call ∧ OccursAt text k call}

theorem length_places (kind : SuperCall → Bool) :
    ∀ (pieces : List Piece) (k : Nat),
      ((places k pieces).filter (kind ·.2)).length = pieces.countP (Piece.isCall kind)
  | [], _ => rfl
  | .char c :: pieces, k => by
      rw [places, length_places kind pieces, List.countP_cons]
      rfl
  | .call call :: pieces, k => by
      rw [places, List.filter_cons, List.countP_cons,
        ← length_places kind pieces (k + call.text.length)]
      by_cases matched : kind call <;> simp [Piece.isCall, matched]

theorem nodup_places : ∀ (pieces : List Piece) (k : Nat), ((places k pieces).map (·.1)).Nodup
  | [], _ => List.nodup_nil
  | .char _ :: pieces, k => nodup_places pieces (k + 1)
  | .call call :: pieces, k => by
      rw [places, List.map_cons, List.nodup_cons]
      refine ⟨?_, nodup_places pieces _⟩
      intro member
      obtain ⟨⟨j, other⟩, member, rfl⟩ := List.mem_map.mp member
      have later := le_of_mem_places pieces member
      have length := List.length_pos_iff.mpr call.text_ne_nil
      simp only at later
      omega

/-- The pieces that are calls of a kind are as many as the positions of such calls. -/
theorem ncard_positions {pieces : List Piece} (reads : Reads none pieces)
    (kind : SuperCall → Bool) :
    (positions kind (source pieces)).ncard = pieces.countP (Piece.isCall kind) := by
  have listed : positions kind (source pieces) =
      (((places 0 pieces).filter (kind ·.2)).map (·.1)).toFinset := by
    ext k
    have at_ := fun call => @Reads.occursAt_iff k call pieces [] reads (Nat.zero_le k)
    simp only [List.nil_append, List.length_nil] at at_
    simp [positions, at_, and_comm]
  have nodup : (((places 0 pieces).filter (kind ·.2)).map (·.1)).Nodup :=
    (nodup_places pieces 0).sublist (List.filter_sublist.map _)
  rw [listed, Set.ncard_coe_finset, List.toFinset_card_of_nodup nodup, List.length_map,
    length_places]

/-!
### Replacing all calls at once
-/

/-- Patching replaced all calls of a text at once. -/
structure Simultaneous (indent content : String) (patched : Patched) : Prop where
  /-- Calls stand apart: two of them are one and the same, or one ends before the other begins. -/
  apart : ∀ {j k : Nat} {call other : SuperCall}, OccursAt content.toList j call →
    OccursAt content.toList k other →
      (j = k ∧ call = other) ∨ j + call.text.length ≤ k ∨ k + other.text.length ≤ j
  /-- The text falls into calls, wherever one stands, and single characters; the calls are
  replaced by their setters and the characters are copied. -/
  replaced : ∃ pieces, source pieces = content.toList ∧
    (∀ k call, OccursAt content.toList k call ↔ (k, call) ∈ places 0 pieces) ∧
    patched.content.toList = pieces.flatMap (Piece.settled indent.toList)
  /-- The counts are the numbers of positions with calls of two arguments and of one. -/
  counted : patched.counts =
    [("two-argument", (positions SuperCall.isTwo content.toList).ncard),
      ("one-argument", (positions SuperCall.isOne content.toList).ncard)]

/-- Patching replaces all calls at once, provided that no call stands in the indent; none stands in
spaces and tabs. -/
theorem superCalls_replaced_at_once :
    (∀ indent content : String, ¬ HasCall indent.toList →
      Simultaneous indent content (applyRules (superCallRules indent) content)) ∧
    ∀ indent : String, isIndent indent → ¬ HasCall indent.toList := by
  refine ⟨?_, fun indent blank => not_hasCall_of_isIndent blank⟩
  intro indent content free
  obtain ⟨pieces, text, reads⟩ := exists_reads content.toList none
  have applied := applyAll_of_free free reads
  rw [text] at applied
  have at_ := fun k call => @Reads.occursAt_iff k call pieces [] reads (Nat.zero_le k)
  simp only [List.nil_append, List.length_nil, text] at at_
  refine ⟨?_, ⟨pieces, text, at_, ?_⟩, ?_⟩
  · intro j k call other one two
    rcases Nat.lt_trichotomy j k with before | rfl | behind
    · exact Or.inr (Or.inl (one.apart two before))
    · exact Or.inl ⟨rfl, one.unique two⟩
    · exact Or.inr (Or.inr (two.apart one behind))
  · rw [toList_applyRules, applied]
  · rw [← text, ncard_positions reads, ncard_positions reads]
    simp [applyRules, applied]

/-- Two blanks as an indent, and a text with calls of both kinds and words that end like one. -/
theorem superCalls_replaced_at_once_two_blanks :
    isIndent "  " ∧ ¬ HasCall "  ".toList ∧
      Simultaneous "  " "xsuper(1);super(.5, true );super(2.);"
        (applyRules (superCallRules "  ") "xsuper(1);super(.5, true );super(2.);") :=
  ⟨rfl, superCalls_replaced_at_once.2 "  " rfl,
    superCalls_replaced_at_once.1 "  " _ (superCalls_replaced_at_once.2 "  " rfl)⟩

example :
    (applyRules (superCallRules "  ") "xsuper(1);super(.5, true );super(2.);").content =
      "xsuper(1);super();\n  setWeight(.5);\n  setEnabled(true);super();\n  setWeight(2.);" :=
  rfl

/-!
### The other order

Neither rule makes, takes away or splits a call of the other kind, as long as no call stands in the
indent.
-/

/-- Two patches come to the same, whatever the order in which they list their counts. -/
structure Patched.Alike (first second : Patched) : Prop where
  content : first.content = second.content
  changed : first.changed = second.changed
  counted : ∀ name, Record.get? first.counts name = Record.get? second.counts name

theorem assign_reversed (two one : Nat) :
    Counts.assign (Counts.assign ([] : Counts) "one-argument" one) "two-argument" two =
      [("one-argument", one), ("two-argument", two)] := by
  rfl

/-- The rule for one argument replaces its calls first, and the rule for two arguments is left with
those of its kind. -/
theorem applyAll_reversed {indent : String} (free : ¬ HasCall indent.toList) {pieces : List Piece}
    (reads : Reads none pieces) :
    applyAll [oneArgumentRule indent, twoArgumentRule indent] (source pieces) =
      (pieces.flatMap (Piece.settled indent.toList),
        [("one-argument", pieces.countP (Piece.isCall SuperCall.isOne)),
          ("two-argument", pieces.countP (Piece.isCall SuperCall.isTwo))]) := by
  have rest (call : SuperCall) : call.isTwo = !call.isOne := (Bool.not_not call.isTwo).symm
  have both := applyAll_pair rest (oneArgumentRule_settles indent) (twoArgumentRule_settles indent)
    free reads
  exact both.trans (congrArg (Prod.mk _) (assign_reversed _ _))

/-- Counts are looked up by name, so it does not matter which of two names comes first. -/
theorem get?_reversed (two one : Nat) (name : String) :
    Record.get? [("two-argument", two), ("one-argument", one)] name =
      Record.get? [("one-argument", one), ("two-argument", two)] name := by
  by_cases second : name = "two-argument"
  · subst second
    rfl
  · have apart : ("two-argument" == name) = false := beq_false_of_ne (Ne.symm second)
    unfold Record.get?
    rw [List.find?_cons_of_neg (by simp [apart])]
    cases same : "one-argument" == name <;> simp [List.find?, same, apart]

/-- The two rules come to the same in either order, provided that no call stands in the indent. -/
theorem superCallRules_commute {indent : String} (free : ¬ HasCall indent.toList)
    (content : String) :
    (applyRules [twoArgumentRule indent, oneArgumentRule indent] content).Alike
      (applyRules [oneArgumentRule indent, twoArgumentRule indent] content) := by
  obtain ⟨pieces, text, reads⟩ := exists_reads content.toList none
  have forth := applyAll_of_free free reads
  have back := applyAll_reversed free reads
  rw [text] at forth back
  unfold superCallRules at forth
  unfold applyRules
  rw [forth, back]
  exact ⟨rfl, rfl, get?_reversed _ _⟩

/-- A tab as an indent, and a text with calls of both kinds and a word that ends like one. -/
theorem superCallRules_commute_tab :
    ¬ HasCall "\t".toList ∧
      (applyRules [twoArgumentRule "\t", oneArgumentRule "\t"] "super(1,true);super(2);xsuper(3);").Alike
        (applyRules [oneArgumentRule "\t", twoArgumentRule "\t"] "super(1,true);super(2);xsuper(3);") := by
  have free : ¬ HasCall "\t".toList := not_hasCall_of_isIndent rfl
  exact ⟨free, superCallRules_commute free _⟩

/-- A call in the indent is replaced by the rule for one argument only if that comes second. -/
example :
    (applyRules [twoArgumentRule "super(1);", oneArgumentRule "super(1);"] "super(2,true);").counts =
        [("two-argument", 1), ("one-argument", 2)] ∧
      (applyRules [oneArgumentRule "super(1);", twoArgumentRule "super(1);"] "super(2,true);").counts =
        [("one-argument", 0), ("two-argument", 1)] :=
  ⟨rfl, rfl⟩

end SuperCalls
