/-
Module: SuperCalls.Proofs.Rules.Separators
Purpose: A text that is cut at a character.  The character stands between the calls of the text or
  inside one of them; where calls cannot hold it, the two sides are read, and so patched, on their own.
Main exports: Cut, exists_cut, Cut.reads, Cut.countP_eq, Rule.Settles.apply_parted, Patched.count,
  Separates, superCalls_patched_apart
-/
import SuperCalls.Proofs.Rules.ChangeCounts

namespace SuperCalls

open Text (isBlank isWord)

/-!
### Parts of a call
-/

/-- A text that is quiet in front of a rest has a quiet beginning. -/
theorem Quiet.of_append {before : Option Char} {first second rest : List Char}
    (quiet : Quiet before (first ++ second) rest) : Quiet before first [] := by
  induction first generalizing before with
  | nil => trivial
  | cons c first ih =>
      refine ⟨fun call begins => quiet.1 call ⟨begins.1, begins.2.trans ?_⟩, ih quiet.2⟩
      rw [List.append_nil]
      exact (List.prefix_append (c :: first) second).trans (List.prefix_append _ rest)

namespace SuperCall

variable {call : SuperCall} {front back : List Char} {c : Char}

/-- No call begins in the beginning of a call, if the rest of the call is cut off. -/
theorem quiet_front (text : call.text = front ++ c :: back) (before : Option Char) :
    Quiet before front [] := by
  cases front with
  | nil => trivial
  | cons d front =>
      have tail : call.text.tail = front ++ c :: back := by rw [text]; rfl
      refine ⟨?_, ?_⟩
      · intro other begins
        -- a call that begins here is this one, and it does not end before its end
        have whole : Begins before call.text call := ⟨begins.1, List.prefix_refl _⟩
        have longer : Begins before call.text other := by
          refine ⟨begins.1, begins.2.trans ?_⟩
          rw [List.append_nil, text]
          exact List.prefix_append _ _
        have length := begins.2.length_le
        rw [longer.unique whole, text] at length
        simp at length
      · have quiet := call.quiet_tail (some d) []
        rw [tail] at quiet
        exact quiet.of_append

/-- No call begins in the end of a call, even if another beginning stands before it. -/
theorem quiet_back (text : call.text = front ++ c :: back) (before : Option Char)
    (rest : List Char) : Quiet before back rest := by
  have tail : call.text.tail = (front ++ [c]).tail ++ back := by
    rw [text]
    cases front <;> simp
  have clear := call.tail_clear_super
  rw [tail] at clear
  exact Quiet.of_clear (Clear.of_append clear)

end SuperCall

/-!
### Cuts
-/

/-- Pieces are cut at a character: it is one of them, or a call holds it and falls into its
characters. -/
inductive Cut (c : Char) : List Piece → List Piece → List Piece → Prop where
  | here {right : List Piece} : Cut c (.char c :: right) [] right
  | inside {call : SuperCall} {front back : List Char} {right : List Piece}
      (text : call.text = front ++ c :: back) :
      Cut c (.call call :: right) (front.map .char) (back.map .char ++ right)
  | later {piece : Piece} {pieces left right : List Piece} (rest : Cut c pieces left right) :
      Cut c (piece :: pieces) (piece :: left) right

/-- A text can be cut wherever it holds the character. -/
theorem exists_cut {c : Char} {pieces : List Piece} {first second : List Char}
    (same : source pieces = first ++ c :: second) :
    ∃ left right, Cut c pieces left right ∧ source left = first ∧ source right = second := by
  induction pieces generalizing first with
  | nil => simp at same
  | cons piece pieces ih =>
      cases piece with
      | char d =>
          cases first with
          | nil =>
              rw [source_char, List.nil_append, List.cons.injEq] at same
              obtain ⟨rfl, rfl⟩ := same
              exact ⟨[], pieces, .here, rfl, rfl⟩
          | cons e first =>
              rw [source_char, List.cons_append, List.cons.injEq] at same
              obtain ⟨rfl, same⟩ := same
              obtain ⟨left, right, cut, rfl, rfl⟩ := ih same
              exact ⟨.char d :: left, right, cut.later, rfl, rfl⟩
      | call call =>
          rw [source_call] at same
          rcases List.append_eq_append_iff.mp same with ⟨front, rfl, rest⟩ | ⟨back, text, rest⟩
          · -- the call ends in front of the character
            obtain ⟨left, right, cut, rfl, rfl⟩ := ih rest
            exact ⟨.call call :: left, right, cut.later, rfl, rfl⟩
          · cases back with
            | nil =>
                obtain ⟨left, right, cut, empty, rfl⟩ := @ih [] rest.symm
                refine ⟨.call call :: left, right, cut.later, ?_, rfl⟩
                rw [source_call, empty, text]
                simp
            | cons d back =>
                rw [List.cons_append, List.cons.injEq] at rest
                obtain ⟨rfl, rfl⟩ := rest
                refine ⟨_, _, .inside text, source_map_char first, ?_⟩
                rw [source_append, source_map_char]

namespace Cut

variable {c : Char} {before : Option Char} {pieces left right : List Piece}

/-- A cut loses nothing. -/
theorem source_eq (cut : Cut c pieces left right) :
    source pieces = source left ++ c :: source right := by
  induction cut with
  | here => rfl
  | inside text => simp [text]
  | @later piece _ _ _ _ ih =>
      cases piece with
      | char d => rw [source_char, ih, source_char, List.cons_append]
      | call call => rw [source_call, ih, source_call, List.append_assoc]

/-- The two sides of a cut are read as the whole was, up to the call that is cut. -/
theorem reads (cut : Cut c pieces left right) (reads : Reads before pieces) :
    Reads before left ∧ Reads (some c) right := by
  induction cut generalizing before with
  | here =>
      cases reads with
      | char _ tail => exact ⟨.nil, tail⟩
  | @inside call front back right text =>
      cases reads with
      | call _ tail =>
          have last : behind (some c) back = some ';' := by
            rw [← call.behind_text before, text, behind_append]
            rfl
          rw [← last] at tail
          have one := (SuperCall.quiet_front text before).reads .nil
          rw [List.append_nil] at one
          exact ⟨one, (SuperCall.quiet_back text _ _).reads tail⟩
  | @later piece pieces left right rest ih =>
      cases reads with
      | @char _ d _ absent tail =>
          obtain ⟨one, two⟩ := ih tail
          refine ⟨.char (fun call begins => absent call ⟨begins.1, begins.2.trans ?_⟩) one, two⟩
          rw [rest.source_eq]
          exact List.prefix_append (d :: source left) _
      | call boundary tail =>
          obtain ⟨one, two⟩ := ih tail
          exact ⟨.call boundary one, two⟩

/-- A call is counted on one side of a cut, unless it is cut. -/
theorem countP_eq (cut : Cut c pieces left right) (kind : SuperCall → Bool)
    (whole : ∀ call, kind call → c ∉ call.text) :
    pieces.countP (Piece.isCall kind) =
      left.countP (Piece.isCall kind) + right.countP (Piece.isCall kind) := by
  induction cut with
  | here => simp [Piece.isCall]
  | @inside call front back right text =>
      have other : ¬ kind call := fun matched => whole call matched (by simp [text])
      rw [List.countP_append, countP_map_char, countP_map_char, List.countP_cons]
      simp [Piece.isCall, other]
  | later rest ih =>
      rw [List.countP_cons, List.countP_cons, ih]
      omega

/-- If no call holds the character, the cut goes between two pieces. -/
theorem pieces_eq (cut : Cut c pieces left right)
    (whole : ∀ call, .call call ∈ pieces → c ∉ call.text) : pieces = left ++ .char c :: right := by
  induction cut with
  | here => rfl
  | inside text => exact absurd (by simp [text]) (whole _ List.mem_cons_self)
  | later rest ih =>
      rw [ih fun call member => whole call (List.mem_cons_of_mem _ member), List.cons_append]

end Cut

/-- A text is read on both sides of a character that none of its calls holds. -/
theorem Reads.exists_parted {c : Char} {before : Option Char} {pieces : List Piece}
    {first second : List Char} (reads : Reads before pieces)
    (same : source pieces = first ++ c :: second)
    (whole : ∀ call, .call call ∈ pieces → c ∉ call.text) :
    ∃ left right, pieces = left ++ .char c :: right ∧ source left = first ∧ source right = second ∧
      Reads before left ∧ Reads (some c) right := by
  obtain ⟨left, right, cut, one, two⟩ := exists_cut same
  exact ⟨left, right, cut.pieces_eq whole, one, two, cut.reads reads⟩

/-- Where no word goes on, a text is read as if nothing stood before it. -/
theorem Reads.afresh {c : Char} {pieces : List Piece} (word : isWord c = false)
    (reads : Reads (some c) pieces) : Reads none pieces := by
  cases reads with
  | nil => exact .nil
  | char absent tail => exact .char (fun call begins => absent call ⟨word, begins.2⟩) tail
  | call _ tail => exact .call rfl tail

/-!
### Separators
-/

/-- The marks that calls are written with. -/
def callMarks : List Char :=
  ['(', ')', ',', '.', ';']

/-- Calls are written with word characters, white space and marks. -/
theorem SuperCall.mem_text {call : SuperCall} {c : Char} (member : c ∈ call.text) :
    isWord c = true ∨ isBlank c = true ∨ c ∈ callMarks := by
  have weightChar {weight : Weight} (inside : c ∈ weight.text) : isWord c = true ∨ c ∈ callMarks := by
    have digit := weight.all c inside
    simp only [isWeightChar, Bool.or_eq_true, beq_iff_eq] at digit
    rcases digit with digit | rfl
    · exact Or.inl (by simp [isWord, Char.isAlphanum, digit])
    · exact Or.inr (by decide)
  have name : ∀ d ∈ "super(".toList, isWord d = true ∨ d ∈ callMarks := by simp [isWord, callMarks]
  have truth (b : Bool) : ∀ d ∈ truthText b, isWord d = true :=
    List.all_eq_true.mp (by cases b <;> rfl)
  have closing : ∀ d ∈ ");".toList, d ∈ callMarks := by simp [callMarks]
  cases call with
  | one weight =>
      simp only [text_eq, arguments, List.mem_append] at member
      rcases member with inside | inside | inside
      · exact (name c inside).imp_right Or.inr
      · exact (weightChar inside).imp_right Or.inr
      · exact Or.inr (Or.inr (closing c inside))
  | two weight lead enabled trail =>
      simp only [text_eq, arguments, List.mem_append, List.mem_cons] at member
      rcases member with inside | inside | rfl | inside | inside | inside | inside
      · exact (name c inside).imp_right Or.inr
      · exact (weightChar inside).imp_right Or.inr
      · exact Or.inr (Or.inr (by decide))
      · exact Or.inr (Or.inl (lead.blank c inside))
      · exact Or.inl (truth enabled c inside)
      · exact Or.inr (Or.inl (trail.blank c inside))
      · exact Or.inr (Or.inr (closing c inside))

/-- A character parts a text if no call is written with it and no word goes on behind it. -/
structure Separates (c : Char) : Prop where
  word : isWord c = false
  blank : isBlank c = false
  mark : c ∉ callMarks

/-- No call holds a separator. -/
theorem Separates.not_mem_text {c : Char} (apart : Separates c) (call : SuperCall) :
    c ∉ call.text := by
  intro member
  rcases SuperCall.mem_text member with word | blank | mark
  · exact absurd apart.word (by simp [word])
  · exact absurd apart.blank (by simp [blank])
  · exact apart.mark mark

/-- A rule that settles calls works on the two sides of a separator on its own. -/
theorem Rule.Settles.apply_parted {rule : Rule} {kind : SuperCall → Bool} {indent : List Char}
    (settles : rule.Settles kind indent) {c : Char} (apart : Separates c)
    (first second : List Char) :
    rule.apply (first ++ c :: second) =
      ((rule.apply first).1 ++ c :: (rule.apply second).1,
        (rule.apply first).2 + (rule.apply second).2) := by
  obtain ⟨pieces, same, reads⟩ := exists_reads (first ++ c :: second) none
  obtain ⟨left, right, rfl, rfl, rfl, one, behind⟩ :=
    reads.exists_parted same fun call _ => apart.not_mem_text call
  rw [← same, settles.apply_eq reads, settles.apply_eq one, settles.apply_eq (behind.afresh apart.word)]
  simp [Piece.settle, Piece.isCall]

/-!
### Both passes
-/

/-- How often the rule of a name replaced something. -/
def Patched.count (patched : Patched) (name : String) : Nat :=
  (Record.get? patched.counts name).getD 0

/-- The count of a rule is looked up by its name. -/
theorem Patched.count_eq {patched : Patched} {two one : Nat}
    (counted : patched.counts = [("two-argument", two), ("one-argument", one)]) (name : String) :
    patched.count name =
      if name = "two-argument" then two else if name = "one-argument" then one else 0 := by
  unfold Patched.count
  rw [counted, Record.get?_cons, Record.get?_cons]
  split_ifs <;> rfl

/-- A text is changed exactly if one of the counts is positive. -/
theorem changed_iff_count (indent content : String) :
    (applyRules (superCallRules indent) content).changed = true ↔
      0 < (applyRules (superCallRules indent) content).count "two-argument" ∨
        0 < (applyRules (superCallRules indent) content).count "one-argument" := by
  obtain ⟨two, one, counted, tally, _⟩ := applyRules_tally indent content
  rw [Patched.count_eq counted, Patched.count_eq counted]
  exact tally

/-- The second rule works on what the first one leaves. -/
theorem applyAll_eq (indent : String) (text : List Char) :
    applyAll (superCallRules indent) text =
      let first := (twoArgumentRule indent).apply text
      let second := (oneArgumentRule indent).apply first.1
      (second.1, [("two-argument", first.2), ("one-argument", second.2)]) :=
  congrArg (Prod.mk _) (assign_both _ _)

/-- Both passes work on the two sides of a separator on their own. -/
theorem applyAll_parted (indent : String) {c : Char} (apart : Separates c)
    (first second : List Char) :
    ∃ two one two' one',
      (applyAll (superCallRules indent) first).2 = [("two-argument", two), ("one-argument", one)] ∧
      (applyAll (superCallRules indent) second).2 = [("two-argument", two'), ("one-argument", one')] ∧
      applyAll (superCallRules indent) (first ++ c :: second) =
        ((applyAll (superCallRules indent) first).1 ++ c :: (applyAll (superCallRules indent) second).1,
          [("two-argument", two + two'), ("one-argument", one + one')]) := by
  refine ⟨_, _, _, _, congrArg Prod.snd (applyAll_eq indent first),
    congrArg Prod.snd (applyAll_eq indent second), ?_⟩
  simp only [applyAll_eq, (twoArgumentRule_settles indent).apply_parted apart,
    (oneArgumentRule_settles indent).apply_parted apart]

/-- Patching is local: the two sides of a separator are patched on their own, whatever the indent is. -/
theorem superCalls_patched_apart (indent first second : String) {c : Char} (apart : Separates c) :
    let patch := applyRules (superCallRules indent)
    let whole := patch (first ++ String.singleton c ++ second)
    whole.content = (patch first).content ++ String.singleton c ++ (patch second).content ∧
      (∀ name, whole.count name = (patch first).count name + (patch second).count name) ∧
      whole.changed = ((patch first).changed || (patch second).changed) := by
  intro patch whole
  obtain ⟨two, one, two', one', left, right, applied⟩ :=
    applyAll_parted indent apart first.toList second.toList
  have text : (first ++ String.singleton c ++ second).toList = first.toList ++ c :: second.toList := by
    simp
  rw [← text] at applied
  have content : whole.content =
      (patch first).content ++ String.singleton c ++ (patch second).content := by
    rw [← String.toList_inj, toList_applyRules, applied]
    simp [patch, toList_applyRules]
  have counts (name : String) :
      whole.count name = (patch first).count name + (patch second).count name := by
    have counted : whole.counts = _ := congrArg Prod.snd applied
    rw [Patched.count_eq counted, Patched.count_eq left, Patched.count_eq right]
    split_ifs <;> rfl
  have tally (part : String) : (patch part).changed = true ↔
      0 < (patch part).count "two-argument" ∨ 0 < (patch part).count "one-argument" :=
    changed_iff_count indent part
  have changed :
      whole.changed = true ↔ (patch first).changed = true ∨ (patch second).changed = true := by
    rw [show whole.changed = true ↔ _ from tally _, tally, tally, counts, counts]
    omega
  exact ⟨content, counts, by rw [Bool.eq_iff_iff, Bool.or_eq_true, changed]⟩

/-- A brace between two calls, and a third call in the indent. -/
theorem superCalls_patched_apart_brace :
    Separates '}' ∧
      let patch := applyRules (superCallRules "super(1);")
      let whole := patch ("super(2,true);" ++ String.singleton '}' ++ "super(3);")
      whole.content =
          (patch "super(2,true);").content ++ String.singleton '}' ++ (patch "super(3);").content ∧
        (∀ name, whole.count name =
          (patch "super(2,true);").count name + (patch "super(3);").count name) ∧
        whole.changed = ((patch "super(2,true);").changed || (patch "super(3);").changed) := by
  have apart : Separates '}' := ⟨rfl, rfl, by decide⟩
  exact ⟨apart, superCalls_patched_apart "super(1);" "super(2,true);" "super(3);" apart⟩

end SuperCalls
