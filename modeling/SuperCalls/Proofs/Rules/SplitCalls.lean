/-
Module: SuperCalls.Proofs.Rules.SplitCalls
Purpose: Texts patched line by line.  White space in a call can hold a line end, so a call can go over
  several lines; patching a text comes to patching its lines exactly if no call does.
Main exports: SuperCall.isSplit, Unsplit, ncard_positions_eq_sum, applyAll_lines, marks_patched,
  lines_patched_alone_iff, split_call_replaced
-/
import SuperCalls.Proofs.Rules.Separators

namespace SuperCalls

/-!
### Calls over several lines
-/

/-- Whether a call goes over a line end. -/
def SuperCall.isSplit (call : SuperCall) : Bool :=
  decide ('\n' ∈ call.text)

/-- No call that stands in a text goes over a line end. -/
def Unsplit (text : List Char) : Prop :=
  ∀ k call, OccursAt text k call → '\n' ∉ call.text

/-- Only the white space between two arguments can hold a line end. -/
theorem SuperCall.isTwo_of_isSplit {call : SuperCall} (split : call.isSplit) : call.isTwo := by
  cases call with
  | two weight lead enabled trail => rfl
  | one weight =>
      have member : '\n' ∈ (one weight).text := of_decide_eq_true split
      simp only [text_eq, arguments, List.mem_append] at member
      rcases member with inside | inside | inside
      · exact absurd inside (by decide)
      · exact (weight.ne_of_mem inside (by decide) rfl).elim
      · exact absurd inside (by decide)

theorem SuperCall.isTwo_and_isSplit (call : SuperCall) :
    (call.isTwo && call.isSplit) = call.isSplit := by
  cases split : call.isSplit with
  | false => exact Bool.and_false _
  | true => rw [isTwo_of_isSplit split, Bool.and_true]

theorem SuperCall.isOne_and_isSplit (call : SuperCall) : (call.isOne && call.isSplit) = false := by
  cases split : call.isSplit with
  | false => exact Bool.and_false _
  | true => rw [isOne, isTwo_of_isSplit split, Bool.not_true, Bool.false_and]

/-- A text without line ends holds no split call. -/
theorem Unsplit.of_not_mem {text : List Char} (single : '\n' ∉ text) : Unsplit text :=
  fun _ _ occurs member => single (List.mem_of_mem_drop (occurs.2.subset member))

theorem OccursAt.lt_length {text : List Char} {k : Nat} {call : SuperCall}
    (occurs : OccursAt text k call) : k < text.length := by
  obtain ⟨front, rest, rfl, rfl, begins⟩ := occurs.exists_split
  have length := begins.2.length_le
  have some := List.length_pos_iff.mpr call.text_ne_nil
  rw [List.length_append]
  omega

theorem ncard_positions_eq_zero_iff {kind : SuperCall → Bool} {text : List Char} :
    (positions kind text).ncard = 0 ↔ ∀ k call, OccursAt text k call → kind call = false := by
  have finite : (positions kind text).Finite :=
    (Set.finite_lt_nat text.length).subset fun _ ⟨_, _, occurs⟩ => occurs.lt_length
  rw [Set.ncard_eq_zero finite, Set.eq_empty_iff_forall_notMem]
  constructor
  · intro none k call occurs
    by_contra matched
    exact none k ⟨call, Bool.not_eq_false _ ▸ matched, occurs⟩
  · rintro none k ⟨call, matched, occurs⟩
    rw [none k call occurs] at matched
    cases matched

/-- A text is unsplit if none of its split calls is counted. -/
theorem unsplit_iff {text : List Char} :
    Unsplit text ↔ (positions SuperCall.isSplit text).ncard = 0 := by
  simp only [Unsplit, ncard_positions_eq_zero_iff, SuperCall.isSplit, decide_eq_false_iff_not]

/-!
### Counting line by line
-/

/-- The calls of a kind that hold no line end are counted on both sides of a line end. -/
theorem ncard_positions_append {kind : SuperCall → Bool}
    (whole : ∀ call, kind call → '\n' ∉ call.text) (first second : List Char) :
    (positions kind (first ++ '\n' :: second)).ncard =
      (positions kind first).ncard + (positions kind second).ncard := by
  obtain ⟨pieces, same, reads⟩ := exists_reads (first ++ '\n' :: second) none
  obtain ⟨left, right, cut, rfl, rfl⟩ := exists_cut same
  obtain ⟨one, behind⟩ := cut.reads reads
  rw [← same, ncard_positions reads, ncard_positions one, ncard_positions (behind.afresh rfl),
    cut.countP_eq kind whole]

/-- The calls of a kind that hold no line end are counted line by line. -/
theorem ncard_positions_lines {kind : SuperCall → Bool}
    (whole : ∀ call, kind call → '\n' ∉ call.text) :
    ∀ lines : List (List Char),
      (positions kind (['\n'].intercalate lines)).ncard =
        (lines.map fun line => (positions kind line).ncard).sum
  | [] => ncard_positions Reads.nil kind
  | [line] => by simp
  | line :: next :: lines => by
      rw [List.intercalate_cons_cons, List.append_assoc, List.singleton_append,
        ncard_positions_append whole, ncard_positions_lines whole (next :: lines)]
      rfl

/-- The calls of a kind are those that hold a line end and the others. -/
theorem ncard_positions_split (kind : SuperCall → Bool) (text : List Char) :
    (positions kind text).ncard =
      (positions (fun call => kind call && !call.isSplit) text).ncard +
        (positions (fun call => kind call && call.isSplit) text).ncard := by
  obtain ⟨pieces, rfl, reads⟩ := exists_reads text none
  simp only [ncard_positions reads]
  clear reads
  induction pieces with
  | nil => rfl
  | cons piece pieces ih =>
      rw [List.countP_cons, List.countP_cons, List.countP_cons, ih]
      cases piece with
      | char c => rfl
      | call call =>
          cases matched : kind call <;> cases split : call.isSplit <;>
            simp only [Piece.isCall, matched, split] <;> simp <;> omega

/-- Line by line as many calls of a kind are counted as in the whole, less those that are split. -/
theorem ncard_positions_eq_sum {lines : List (List Char)} (single : ∀ line ∈ lines, '\n' ∉ line)
    (kind : SuperCall → Bool) :
    (positions kind (['\n'].intercalate lines)).ncard =
      (lines.map fun line => (positions kind line).ncard).sum +
        (positions (fun call => kind call && call.isSplit) (['\n'].intercalate lines)).ncard := by
  have whole (call : SuperCall) (matched : (kind call && !call.isSplit) = true) :
      '\n' ∉ call.text := by
    simp only [Bool.and_eq_true, Bool.not_eq_true'] at matched
    exact of_decide_eq_false matched.2
  rw [ncard_positions_split, ncard_positions_lines whole]
  congr 2
  refine List.map_congr_left fun line member => ?_
  have none : (positions (fun call => kind call && call.isSplit) line).ncard = 0 := by
    refine ncard_positions_eq_zero_iff.mpr fun k call occurs => ?_
    have holds : call.isSplit = false :=
      decide_eq_false (Unsplit.of_not_mem (single line member) k call occurs)
    rw [holds, Bool.and_false]
  rw [ncard_positions_split kind line, none, Nat.add_zero]

/-!
### What is patched
-/

theorem exists_mem_places {call : SuperCall} :
    ∀ {pieces : List Piece} (k : Nat), .call call ∈ pieces → ∃ j, (j, call) ∈ places k pieces
  | .char _ :: pieces, k, member => by
      have later : .call call ∈ pieces := by simpa using member
      exact exists_mem_places (k + 1) later
  | .call found :: pieces, k, member => by
      rcases List.mem_cons.mp member with here | later
      · cases here
        exact ⟨k, List.mem_cons_self⟩
      · obtain ⟨j, inside⟩ := exists_mem_places (k + found.text.length) later
        exact ⟨j, List.mem_cons_of_mem _ inside⟩

/-- The calls that are read stand in the text. -/
theorem Reads.occurs_of_mem {pieces : List Piece} {call : SuperCall} (reads : Reads none pieces)
    (member : .call call ∈ pieces) : ∃ k, OccursAt (source pieces) k call := by
  obtain ⟨k, place⟩ := exists_mem_places 0 member
  exact ⟨k, (@Reads.occursAt_iff k call pieces [] reads (Nat.zero_le k)).mpr place⟩

section Free

variable {indent : String} (free : ¬ HasCall indent.toList)

include free

/-- The counts are the numbers of calls that stand in the text. -/
theorem counts_of_free (content : String) :
    (applyRules (superCallRules indent) content).counts =
      [("two-argument", (positions SuperCall.isTwo content.toList).ncard),
        ("one-argument", (positions SuperCall.isOne content.toList).ncard)] := by
  obtain ⟨pieces, text, reads⟩ := exists_reads content.toList none
  have applied := applyAll_of_free free reads
  rw [text] at applied
  rw [← text, ncard_positions reads, ncard_positions reads]
  simp [applyRules, applied]

/-- A text that is read without split calls is patched line by line. -/
theorem applyAll_lines :
    ∀ {lines : List (List Char)} {pieces : List Piece}, Reads none pieces →
      source pieces = ['\n'].intercalate lines → (∀ call, .call call ∈ pieces → '\n' ∉ call.text) →
      (applyAll (superCallRules indent) (['\n'].intercalate lines)).1 =
        ['\n'].intercalate (lines.map fun line => (applyAll (superCallRules indent) line).1)
  | [], _, _, _, _ => congrArg Prod.fst (applyAll_of_free free .nil)
  | [line], _, _, _, _ => by simp
  | line :: next :: lines, pieces, reads, same, whole => by
      rw [List.intercalate_cons_cons, List.append_assoc, List.singleton_append] at same ⊢
      obtain ⟨left, right, rfl, one, two, readsLeft, behind⟩ := reads.exists_parted same whole
      have readsRight := behind.afresh rfl
      have rest := applyAll_lines readsRight two fun call member => whole call (by simp [member])
      rw [← two, applyAll_of_free free readsRight, List.map_cons] at rest
      rw [← same, applyAll_of_free free reads, List.map_cons, List.map_cons,
        List.intercalate_cons_cons, ← rest, ← one, applyAll_of_free free readsLeft]
      simp [Piece.settled]

end Free

/-- Where the indent holds no mark, the setters of a call hold one. -/
theorem SuperCall.marks_setters {indent : List Char} (plain : marks indent = 0) (call : SuperCall) :
    marks (call.setters indent) = 1 := by
  cases call with
  | one weight =>
      rw [setters_one]
      simp only [marks_append, plain, weight.marks_text]
      rfl
  | two weight lead enabled trail =>
      rw [setters_two]
      simp only [marks_append, plain, weight.marks_text, marks_truthText]
      rfl

/-- Where the indent holds no mark, each call that is replaced adds one. -/
theorem marks_settled {indent : List Char} (plain : marks indent = 0) :
    ∀ pieces : List Piece, marks (pieces.flatMap (Piece.settled indent)) =
      marks (source pieces) + pieces.countP (Piece.isCall fun _ => true)
  | [] => rfl
  | .char c :: pieces => by
      have kept : marks (source (.char c :: pieces)) = marks [c] + marks (source pieces) :=
        marks_append [c] (source pieces)
      rw [List.flatMap_cons, marks_append, marks_settled plain pieces, kept, List.countP_cons]
      simp only [Piece.settled, Piece.isCall, Bool.false_eq_true, if_false]
      omega
  | .call call :: pieces => by
      rw [List.flatMap_cons, marks_append, marks_settled plain pieces, source_call, marks_append,
        call.marks_text, List.countP_cons]
      simp only [Piece.settled, Piece.isCall, call.marks_setters plain, if_true]
      omega

/-- The marks of a text are those of its lines. -/
theorem marks_lines : ∀ lines : List (List Char),
    marks (['\n'].intercalate lines) = (lines.map marks).sum
  | [] => rfl
  | [line] => by simp
  | line :: next :: lines => by
      rw [List.intercalate_cons_cons, List.append_assoc, marks_append, marks_append,
        marks_lines (next :: lines)]
      simp [marks]

/-- Patching with an indent of spaces and tabs adds a mark for each call that stands in the text. -/
theorem marks_patched {indent : String} (blank : isIndent indent) (text : List Char) :
    marks (applyAll (superCallRules indent) text).1 =
      marks text + (positions (fun _ => true) text).ncard := by
  have plain : marks indent.toList = 0 := by
    refine List.count_eq_zero.mpr fun member => ?_
    have white := List.all_eq_true.mp blank 'W' member
    cases white
  obtain ⟨pieces, rfl, reads⟩ := exists_reads text none
  rw [applyAll_of_free (not_hasCall_of_isIndent blank) reads, marks_settled plain,
    ncard_positions reads]

/-- A text comes to the same line by line only if none of its calls is split. -/
theorem unsplit_of_lines {indent : String} (blank : isIndent indent) {lines : List (List Char)}
    (single : ∀ line ∈ lines, '\n' ∉ line)
    (same : (applyAll (superCallRules indent) (['\n'].intercalate lines)).1 =
      ['\n'].intercalate (lines.map fun line => (applyAll (superCallRules indent) line).1)) :
    Unsplit (['\n'].intercalate lines) := by
  have total := congrArg marks same
  rw [marks_patched blank, marks_lines, marks_lines, List.map_map] at total
  have each : (lines.map (marks ∘ fun line => (applyAll (superCallRules indent) line).1)).sum =
      (lines.map marks).sum + (lines.map fun line => (positions (fun _ => true) line).ncard).sum := by
    rw [← List.sum_map_add]
    exact congrArg List.sum (List.map_congr_left fun line _ => marks_patched blank line)
  rw [each, ncard_positions_eq_sum single] at total
  simp only [Bool.true_and] at total
  have none : (positions (fun call => call.isSplit) (['\n'].intercalate lines)).ncard = 0 := by omega
  exact unsplit_iff.mpr none

/-!
### Lines on their own
-/

theorem toList_lines (lines : List String) :
    ("\n".intercalate lines).toList = ['\n'].intercalate (lines.map String.toList) :=
  String.toList_intercalate

/-- The lines of a text are patched on their own exactly if no call goes over a line end. -/
theorem content_lines_iff {indent : String} (blank : isIndent indent) {lines : List String}
    (single : ∀ line ∈ lines, '\n' ∉ line.toList) :
    (applyRules (superCallRules indent) ("\n".intercalate lines)).content =
        "\n".intercalate (lines.map fun line => (applyRules (superCallRules indent) line).content) ↔
      Unsplit ("\n".intercalate lines).toList := by
  have alone : ∀ line ∈ lines.map String.toList, '\n' ∉ line := by simpa using single
  have patched : (lines.map fun line => (applyRules (superCallRules indent) line).content).map
      String.toList =
        (lines.map String.toList).map fun line => (applyAll (superCallRules indent) line).1 := by
    simp [toList_applyRules]
  rw [← String.toList_inj, toList_applyRules, toList_lines, toList_lines, patched]
  constructor
  · exact unsplit_of_lines blank alone
  · intro unsplit
    obtain ⟨pieces, text, reads⟩ := exists_reads (['\n'].intercalate (lines.map String.toList)) none
    refine applyAll_lines (not_hasCall_of_isIndent blank) reads text fun call member => ?_
    obtain ⟨k, occurs⟩ := reads.occurs_of_mem member
    rw [text] at occurs
    exact unsplit k call occurs

/-- Line by line the calls of one argument are all counted, and of those of two arguments all but the
split ones. -/
theorem count_lines {indent : String} (blank : isIndent indent) {lines : List String}
    (single : ∀ line ∈ lines, '\n' ∉ line.toList) (name : String) :
    (applyRules (superCallRules indent) ("\n".intercalate lines)).count name =
      (lines.map fun line => (applyRules (superCallRules indent) line).count name).sum +
        if name = "two-argument" then
          (positions SuperCall.isSplit ("\n".intercalate lines).toList).ncard
        else 0 := by
  have free : ¬ HasCall indent.toList := not_hasCall_of_isIndent blank
  have alone : ∀ line ∈ lines.map String.toList, '\n' ∉ line := by simpa using single
  have total (kind : SuperCall → Bool) := ncard_positions_eq_sum alone kind
  simp only [List.map_map, Function.comp_def, ← toList_lines] at total
  have nothing : (positions (fun _ => false) ("\n".intercalate lines).toList).ncard = 0 :=
    ncard_positions_eq_zero_iff.mpr fun _ _ _ => rfl
  simp only [Patched.count_eq (counts_of_free free _)]
  by_cases second : name = "two-argument"
  · simp only [second, if_true]
    rw [total]
    simp only [SuperCall.isTwo_and_isSplit]
  · simp only [second, if_false]
    by_cases first : name = "one-argument"
    · simp only [first, if_true]
      rw [total]
      simp only [SuperCall.isOne_and_isSplit, nothing]
    · simp [first]

/-- A text comes to the same line by line, in its content and in its counts, exactly if none of its
calls goes over a line end; each call that does is counted in the whole only. -/
theorem lines_patched_alone_iff {indent : String} (blank : isIndent indent) {lines : List String}
    (single : ∀ line ∈ lines, '\n' ∉ line.toList) :
    let patch := applyRules (superCallRules indent)
    let text := "\n".intercalate lines
    ((patch text).content = "\n".intercalate (lines.map fun line => (patch line).content) ↔
        Unsplit text.toList) ∧
      ((∀ name, (patch text).count name = (lines.map fun line => (patch line).count name).sum) ↔
        Unsplit text.toList) ∧
      (patch text).count "two-argument" =
        (lines.map fun line => (patch line).count "two-argument").sum +
          (positions SuperCall.isSplit text.toList).ncard := by
  intro patch text
  have counts := count_lines blank single
  refine ⟨content_lines_iff blank single, ?_, counts "two-argument"⟩
  rw [unsplit_iff]
  constructor
  · intro same
    have two := counts "two-argument"
    rw [same, if_pos rfl] at two
    exact Nat.left_eq_add.mp two
  · intro none name
    have both := counts name
    rw [none, ite_self, Nat.add_zero] at both
    exact both

/-- White space around the second argument and a call behind a line end; no call goes over one. -/
theorem lines_patched_alone_iff_tab :
    let patch := applyRules (superCallRules "\t")
    let lines := ["super(1, true );", "", "x", "super(2);"]
    let text := "\n".intercalate lines
    isIndent "\t" ∧ (∀ line ∈ lines, '\n' ∉ line.toList) ∧
      ((patch text).content = "\n".intercalate (lines.map fun line => (patch line).content) ↔
        Unsplit text.toList) ∧
      ((∀ name, (patch text).count name = (lines.map fun line => (patch line).count name).sum) ↔
        Unsplit text.toList) ∧
      (patch text).count "two-argument" =
        (lines.map fun line => (patch line).count "two-argument").sum +
          (positions SuperCall.isSplit text.toList).ncard := by
  intro patch lines text
  have single : ∀ line ∈ lines, '\n' ∉ line.toList := by decide
  exact ⟨rfl, single, @lines_patched_alone_iff "\t" rfl lines single⟩

/-- A call that goes over a line end is replaced, though neither of its lines holds a call. -/
theorem split_call_replaced :
    let patch := applyRules (superCallRules "")
    let lines := ["super(1,", "true);"]
    isIndent "" ∧ (∀ line ∈ lines, '\n' ∉ line.toList) ∧
      (patch ("\n".intercalate lines)).content = "super();\nsetWeight(1);\nsetEnabled(true);" ∧
      "\n".intercalate (lines.map fun line => (patch line).content) = "super(1,\ntrue);" ∧
      (patch ("\n".intercalate lines)).count "two-argument" = 1 ∧
      (lines.map fun line => (patch line).count "two-argument").sum = 0 :=
  ⟨rfl, by decide, rfl, rfl, rfl, rfl⟩

end SuperCalls
