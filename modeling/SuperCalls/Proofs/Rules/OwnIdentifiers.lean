/-
Module: SuperCalls.Proofs.Rules.OwnIdentifiers
Purpose: Which calls a patch replaces, told by the text and its patch alone.  They are those whose first
  word is not the tail of a longer one, where words are of ASCII letters, digits and underscores; an
  identifier can be longer than that.
Main exports: pieces_eq_of_settled, ReplacedAt, replacedAt_iff_occursAt, isIdentifierPart_of_isWord,
  OwnIdentifier, replaced_own_iff, dollar_call_replaced
-/
import SuperCalls.Proofs.Rules.Idempotence
import SuperCalls.Text.Identifier

namespace SuperCalls

open Text (isWord isIdentifierStart isIdentifierPart)

/-!
### A text and its patch tell the calls
-/

/-- A stretch in which no call begins is made of characters. -/
theorem pieces_eq_of_clear {front rest : List Char} (clear : Clear "super(".toList front) :
    ∀ {pieces : List Piece}, source pieces = front ++ rest →
      ∃ tail, pieces = front.map .char ++ tail ∧ source tail = rest := by
  induction front with
  | nil => exact fun same => ⟨_, rfl, same⟩
  | cons c front ih =>
      intro pieces same
      cases pieces with
      | nil => cases same
      | cons piece pieces =>
          cases piece with
          | char d =>
              rw [source_char, List.cons_append, List.cons.injEq] at same
              obtain ⟨rfl, same⟩ := same
              obtain ⟨tail, rfl, behind⟩ := ih clear.2.2 same
              exact ⟨tail, rfl, behind⟩
          | call call =>
              have begins : "super(".toList <+: c :: front ++ rest := by
                rw [← same, source_call]
                exact call.super_prefix.trans (List.prefix_append _ _)
              exact (clear.not_prefix (List.cons_ne_nil c front) begins (List.prefix_append _ rest)).elim

/-- Setters close the parenthesis that a call opens. -/
theorem SuperCall.exists_setters_closing (indent : List Char) (call : SuperCall) :
    ∃ rest, call.setters indent = "super(".toList ++ ')' :: rest := by
  cases call with
  | one weight => exact ⟨_, setters_one indent weight⟩
  | two weight lead enabled trail => exact ⟨_, setters_two indent weight lead enabled trail⟩

theorem settled_map_char (indent text : List Char) :
    (text.map Piece.char).flatMap (Piece.settled indent) = text := by
  induction text with
  | nil => rfl
  | cons c text ih => rw [List.map_cons, List.flatMap_cons, ih]; rfl

/-- A call that is copied differs from its setters, whatever follows. -/
theorem settled_call_ne {indent : List Char} {call : SuperCall} {c : Char}
    {pieces others : List Piece} (same : source (.call call :: pieces) = source (.char c :: others)) :
    (Piece.call call :: pieces).flatMap (Piece.settled indent) ≠
      (Piece.char c :: others).flatMap (Piece.settled indent) := by
  have clear := call.tail_clear_super
  cases text : call.text with
  | nil => exact absurd text call.text_ne_nil
  | cons d covered =>
      rw [text, List.tail_cons] at clear
      rw [source_call, text, source_char, List.cons_append, List.cons.injEq] at same
      obtain ⟨rfl, same⟩ := same
      obtain ⟨tail, rfl, _⟩ := pieces_eq_of_clear clear same.symm
      have copied : (Piece.char d :: (covered.map .char ++ tail)).flatMap (Piece.settled indent) =
          call.text ++ tail.flatMap (Piece.settled indent) := by
        rw [List.flatMap_cons, List.flatMap_append, settled_map_char, text]
        rfl
      obtain ⟨rest, closing⟩ := call.exists_setters_closing indent
      intro settled
      rw [copied, List.flatMap_cons, Piece.settled, closing, call.text_eq, List.append_assoc,
        List.append_assoc, List.append_cancel_left_eq] at settled
      exact call.arguments_ne_closing _ _ settled.symm

theorem eq_nil_of_source {pieces : List Piece} (empty : source pieces = []) : pieces = [] := by
  cases pieces with
  | nil => rfl
  | cons piece pieces =>
      cases piece with
      | char c => cases empty
      | call call => exact absurd (List.append_eq_nil_iff.mp empty).1 call.text_ne_nil

/-- A text and its patch tell the pieces, of which the calls were replaced. -/
theorem pieces_eq_of_settled {indent : List Char} :
    ∀ {first second : List Piece}, source first = source second →
      first.flatMap (Piece.settled indent) = second.flatMap (Piece.settled indent) →
      first = second
  | [], second, same, _ => (eq_nil_of_source same.symm).symm
  | first, [], same, _ => eq_nil_of_source same
  | .char c :: first, .char d :: second, same, settled => by
      rw [source_char, source_char, List.cons.injEq] at same
      obtain ⟨rfl, same⟩ := same
      rw [pieces_eq_of_settled same (List.cons.inj settled).2]
  | .call call :: first, .call other :: second, same, settled => by
      rw [source_call, source_call, SuperCall.text_eq, SuperCall.text_eq, List.append_assoc,
        List.append_assoc, List.append_cancel_left_eq] at same
      obtain rfl := SuperCall.arguments_inj same
      rw [pieces_eq_of_settled (List.append_cancel_left same) (List.append_cancel_left settled)]
  | .call _ :: _, .char _ :: _, same, settled => (settled_call_ne same settled).elim
  | .char _ :: _, .call _ :: _, same, settled => (settled_call_ne same.symm settled.symm).elim

/-- A patch replaced a call at a position: the text falls into characters, which the patch copied,
and calls, which it replaced by their setters, and one of them is this call. -/
def ReplacedAt (indent content : String) (k : Nat) (call : SuperCall) : Prop :=
  ∃ pieces, source pieces = content.toList ∧
    (applyRules (superCallRules indent) content).content.toList =
      pieces.flatMap (Piece.settled indent.toList) ∧
    (k, call) ∈ places 0 pieces

/-- If no call stands in the indent, the calls that stand in a text are replaced, and nothing else. -/
theorem replacedAt_iff_occursAt {indent : String} (free : ¬ HasCall indent.toList) {content : String}
    {k : Nat} {call : SuperCall} :
    ReplacedAt indent content k call ↔ OccursAt content.toList k call := by
  obtain ⟨pieces, text, reads, patched⟩ := exists_patched free content
  have stands := @Reads.occursAt_iff k call pieces [] reads (Nat.zero_le k)
  rw [List.nil_append, text] at stands
  rw [stands]
  constructor
  · rintro ⟨others, same, settled, member⟩
    rwa [pieces_eq_of_settled (text.trans same.symm) (patched.symm.trans settled)]
  · exact fun member => ⟨pieces, text, patched, member⟩

/-!
### Words and identifiers
-/

/-- Identifiers are written with all word characters. -/
theorem isIdentifierPart_of_isWord {c : Char} (word : isWord c = true) :
    isIdentifierPart c.toNat = true := by
  simp only [isIdentifierPart, isIdentifierStart, Bool.or_eq_true, Bool.and_eq_true,
    decide_eq_true_eq, beq_iff_eq]
  have within {low high : UInt32} (both : (decide (low ≤ c.val) && decide (c.val ≤ high)) = true) :
      low.toNat ≤ c.toNat ∧ c.toNat ≤ high.toNat := by
    rw [Bool.and_eq_true, decide_eq_true_eq, decide_eq_true_eq] at both
    exact both
  rcases Bool.or_eq_true_iff.mp word with name | line
  · rcases Bool.or_eq_true_iff.mp name with letter | digit
    · rcases Bool.or_eq_true_iff.mp letter with upper | lower
      · exact Or.inl (Or.inl (Or.inl (Or.inl (Or.inr (of_decide_eq_true upper)))))
      · exact Or.inl (Or.inl (Or.inl (Or.inr (within lower))))
    · exact Or.inl (Or.inr (within digit))
  · obtain rfl := eq_of_beq line
    exact Or.inl (Or.inl (Or.inl (Or.inl (Or.inl (Or.inr rfl)))))

/-- What begins at a position of a text begins an identifier of its own: none goes on there. -/
def OwnIdentifier (text : List Char) (k : Nat) : Prop :=
  k = 0 ∨ ∃ c, text[k - 1]? = some c ∧ isIdentifierPart c.toNat = false

/-- A call is replaced exactly if its text stands at the beginning or behind a character that is no
ASCII letter, digit or underscore.  So all calls that are replaced begin an identifier of their own
exactly if every character in front of the text of a call is a part of identifiers as it is one of
words. -/
theorem replaced_own_iff {indent : String} (free : ¬ HasCall indent.toList) (content : String) :
    (∀ k call, ReplacedAt indent content k call ↔
      call.text <+: content.toList.drop k ∧
        (k = 0 ∨ ∃ c, content.toList[k - 1]? = some c ∧ isWord c = false)) ∧
    ((∀ k call, ReplacedAt indent content k call → OwnIdentifier content.toList k) ↔
      ∀ (k : Nat) (call : SuperCall) (c : Char), content.toList[k]? = some c →
        call.text <+: content.toList.drop (k + 1) → isIdentifierPart c.toNat = isWord c) := by
  have replaced (k : Nat) (call : SuperCall) : ReplacedAt indent content k call ↔
      call.text <+: content.toList.drop k ∧
        (k = 0 ∨ ∃ c, content.toList[k - 1]? = some c ∧ isWord c = false) :=
    (replacedAt_iff_occursAt free).trans and_comm
  refine ⟨replaced, ?_, ?_⟩
  · intro own k call c stands begins
    cases word : isWord c with
    | true => exact isIdentifierPart_of_isWord word
    | false =>
        have behind : ReplacedAt indent content (k + 1) call :=
          (replaced (k + 1) call).mpr ⟨begins, Or.inr ⟨c, stands, word⟩⟩
        rcases own (k + 1) call behind with first | ⟨d, same, none⟩
        · cases first
        · rw [Nat.add_sub_cancel, stands, Option.some.injEq] at same
          rwa [same]
  · intro words k call found
    obtain ⟨begins, first | ⟨c, stands, other⟩⟩ := (replaced k call).mp found
    · exact Or.inl first
    · cases k with
      | zero => exact Or.inl rfl
      | succ k =>
          rw [← words k call c stands begins] at other
          exact Or.inr ⟨c, stands, other⟩

/-- A call of its own, and calls behind a letter, a dollar sign and a letter outside ASCII. -/
theorem replaced_own_iff_tab :
    ¬ HasCall "\t".toList ∧
      let content := "super(1);xsuper(1);$super(1);ésuper(1);"
      (∀ k call, ReplacedAt "\t" content k call ↔
        call.text <+: content.toList.drop k ∧
          (k = 0 ∨ ∃ c, content.toList[k - 1]? = some c ∧ isWord c = false)) ∧
      ((∀ k call, ReplacedAt "\t" content k call → OwnIdentifier content.toList k) ↔
        ∀ (k : Nat) (call : SuperCall) (c : Char), content.toList[k]? = some c →
          call.text <+: content.toList.drop (k + 1) → isIdentifierPart c.toNat = isWord c) := by
  have free : ¬ HasCall "\t".toList := not_hasCall_of_isIndent rfl
  exact ⟨free, replaced_own_iff free _⟩

/-- A dollar sign is a part of identifiers, and a call behind one is replaced. -/
theorem dollar_call_replaced :
    isIdentifierPart '$'.toNat = true ∧
      (applyRules (superCallRules "") "$super(1);").content = "$super();\nsetWeight(1);" ∧
      ReplacedAt "" "$super(1);" 1 (.one unitWeight) ∧ ¬ OwnIdentifier "$super(1);".toList 1 := by
  refine ⟨rfl, rfl, ⟨[.char '$', .call (.one unitWeight)], rfl, rfl, by simp [places]⟩, ?_⟩
  rintro (first | ⟨c, stands, none⟩)
  · cases first
  · cases stands
    cases none

end SuperCalls
