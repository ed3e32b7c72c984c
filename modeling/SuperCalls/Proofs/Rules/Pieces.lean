/-
Module: SuperCalls.Proofs.Rules.Pieces
Purpose: A text read as a sequence of characters and calls.  A rule settles the calls of its kind
  and copies the rest, and what it leaves is read as the same sequence with those calls replaced:
  no call arises in what is written, nor across its ends.
Main exports: Piece, Reads, exists_reads, Reads.occursAt_iff, Reads.rewrites, Reads.settle
-/
import SuperCalls.Proofs.Rules.Recognition

namespace SuperCalls

open Text (isWord)

/-!
### Pieces
-/

/-- A piece of a text: one character, or a whole call. -/
inductive Piece where
  | char (c : Char)
  | call (call : SuperCall)

namespace Piece

/-- A piece as it is written. -/
def source : Piece → List Char
  | char c => [c]
  | call found => found.text

/-- A piece with a call replaced by its setters. -/
def settled (indent : List Char) : Piece → List Char
  | char c => [c]
  | call found => found.setters indent

/-- Whether a piece is a call of a kind. -/
def isCall (kind : SuperCall → Bool) : Piece → Bool
  | char _ => false
  | call found => kind found

/-- The pieces that a piece becomes when the calls of a kind are settled. -/
def settle (kind : SuperCall → Bool) (indent : List Char) : Piece → List Piece
  | char c => [char c]
  | call found => if kind found then (found.setters indent).map char else [call found]

end Piece

/-- The text of a sequence of pieces. -/
def source (pieces : List Piece) : List Char :=
  pieces.flatMap Piece.source

/-- The calls among pieces, with the positions of their texts; the first piece stands at the
given position. -/
def places : Nat → List Piece → List (Nat × SuperCall)
  | _, [] => []
  | k, .char _ :: pieces => places (k + 1) pieces
  | k, .call call :: pieces => (k, call) :: places (k + call.text.length) pieces

@[simp] theorem source_nil : source [] = [] := rfl

@[simp] theorem source_char (c : Char) (pieces : List Piece) :
    source (.char c :: pieces) = c :: source pieces := rfl

@[simp] theorem source_call (call : SuperCall) (pieces : List Piece) :
    source (.call call :: pieces) = call.text ++ source pieces := rfl

@[simp] theorem source_append (first second : List Piece) :
    source (first ++ second) = source first ++ source second :=
  List.flatMap_append

@[simp] theorem source_map_char (text : List Char) : source (text.map .char) = text := by
  induction text with
  | nil => rfl
  | cons c text ih => rw [List.map_cons, source_char, ih]

/-- Pieces read a text that stands behind a character: every call that begins in it is one of
them. -/
inductive Reads : Option Char → List Piece → Prop where
  | nil {before : Option Char} : Reads before []
  | char {before : Option Char} {c : Char} {pieces : List Piece}
      (absent : ∀ call, ¬ Begins before (c :: source pieces) call) (tail : Reads (some c) pieces) :
      Reads before (.char c :: pieces)
  | call {before : Option Char} {call : SuperCall} {pieces : List Piece}
      (boundary : before.any isWord = false) (tail : Reads (some ';') pieces) :
      Reads before (.call call :: pieces)

/-!
### The ends of what is read and written
-/

namespace SuperCall

theorem behind_closing (before : Option Char) : behind before ");".toList = some ';' := rfl

theorem behind_text (before : Option Char) (call : SuperCall) :
    behind before call.text = some ';' := by
  rw [text_eq, behind_append]
  cases call with
  | one weight =>
      rw [arguments, behind_append]
      exact behind_closing _
  | two weight lead enabled trail =>
      simp only [arguments, behind_append, behind]
      exact behind_closing _

theorem setters_one (indent : List Char) (weight : Weight) :
    (one weight).setters indent =
      "super(".toList ++ (");\n".toList ++ (indent ++ ("setWeight(".toList ++ (weight.text
        ++ ");".toList)))) := by
  unfold setters
  simp

theorem setters_two (indent : List Char) (weight : Weight) (lead : Blanks) (enabled : Bool)
    (trail : Blanks) :
    (two weight lead enabled trail).setters indent =
      "super(".toList ++ (");\n".toList ++ (indent ++ ("setWeight(".toList ++ (weight.text
        ++ (");\n".toList ++ (indent ++ ("setEnabled(".toList ++ (truthText enabled
        ++ ");".toList)))))))) := by
  unfold setters
  simp

/-- The setters begin as the call does. -/
theorem exists_setters_eq (indent : List Char) (call : SuperCall) :
    ∃ rest, call.setters indent = "super(".toList ++ rest := by
  cases call with
  | one weight => exact ⟨_, setters_one indent weight⟩
  | two weight lead enabled trail => exact ⟨_, setters_two indent weight lead enabled trail⟩

theorem behind_setters (before : Option Char) (indent : List Char) (call : SuperCall) :
    behind before (call.setters indent) = some ';' := by
  cases call with
  | one weight =>
      rw [setters_one]
      simp only [behind_append]
      exact behind_closing _
  | two weight lead enabled trail =>
      rw [setters_two]
      simp only [behind_append]
      exact behind_closing _

end SuperCall

/-!
### Stretches without calls
-/

/-- No call begins in a text, which stands behind a character and in front of a rest. -/
def Quiet : Option Char → List Char → List Char → Prop
  | _, [], _ => True
  | before, c :: text, rest =>
      (∀ call, ¬ Begins before (c :: text ++ rest) call) ∧ Quiet (some c) text rest

namespace Quiet

variable {before : Option Char} {first second text rest : List Char}

theorem append (one : Quiet before first (second ++ rest))
    (two : Quiet (behind before first) second rest) : Quiet before (first ++ second) rest := by
  induction first generalizing before with
  | nil => exact two
  | cons c first ih =>
      refine ⟨?_, ih one.2 two⟩
      have none := one.1
      rw [← List.append_assoc] at none
      exact none

/-- Where the first letters of a call cannot begin, none does. -/
theorem of_clear (clear : Clear "super(".toList text) : Quiet before text rest := by
  induction text generalizing before with
  | nil => trivial
  | cons c text ih =>
      refine ⟨?_, ih clear.2.2⟩
      intro call begins
      exact clear.not_prefix (by simp) begins.super_prefix (List.prefix_append _ rest)

/-- What holds at every split of a text makes it quiet. -/
theorem of_splits (none : ∀ front c tail, text = front ++ c :: tail →
      ∀ call, ¬ Begins (behind before front) (c :: tail ++ rest) call) :
    Quiet before text rest := by
  induction text generalizing before with
  | nil => trivial
  | cons c text ih =>
      refine ⟨none [] c text rfl, ih ?_⟩
      intro front d tail same
      exact none (c :: front) d tail (by rw [same, List.cons_append])

end Quiet

namespace SuperCall

variable {indent : List Char}

/-- Behind its first letter a call is quiet. -/
theorem quiet_tail (call : SuperCall) (before : Option Char) (rest : List Char) :
    Quiet before call.text.tail rest :=
  Quiet.of_clear call.tail_clear_super

/-- An indent without calls stays without calls in front of the name of a setter. -/
theorem quiet_indent (free : ¬ HasCall indent) (before : Option Char) (rest : List Char) :
    Quiet before indent ("set".toList ++ rest) := by
  refine Quiet.of_splits fun front c tail same call begins => free ?_
  have inside : Begins (behind before front) (c :: tail) call :=
    begins.of_append_set (by simp)
  refine hasCall_iff.mpr ⟨front, c :: tail, call, same, ?_, inside.2⟩
  cases front with
  | nil => rfl
  | cons d front => exact inside.1

/-- A call has an argument. -/
theorem arguments_ne_closing (call : SuperCall) (rest more : List Char) :
    call.arguments ++ more ≠ ')' :: rest := by
  have head : ∀ (weight : Weight) (tail : List Char), weight.text ++ tail ≠ ')' :: rest := by
    intro weight tail same
    cases text : weight.text with
    | nil => exact weight.ne_nil text
    | cons c digits =>
        rw [text, List.cons_append, List.cons.injEq] at same
        exact weight.ne_of_mem (by simp [text]) (by decide) same.1
  cases call with
  | one weight =>
      rw [arguments, List.append_assoc]
      exact head weight _
  | two weight lead enabled trail =>
      rw [arguments, List.append_assoc]
      exact head weight _

theorem quiet_plain (before : Option Char) (rest : List Char) :
    Quiet before "super(".toList (')' :: rest) := by
  have letters : "super(".toList = ['s', 'u', 'p', 'e', 'r', '('] := rfl
  have tail : Quiet (some 's') ['u', 'p', 'e', 'r', '('] (')' :: rest) := by
    refine Quiet.of_clear ?_
    decide
  rw [letters]
  refine ⟨?_, tail⟩
  intro call begins
  obtain ⟨_, more, same⟩ := begins
  rw [text_eq, List.append_assoc, letters] at same
  exact call.arguments_ne_closing rest more (List.append_cancel_left same)

/-- A setter call behind its indent is quiet. -/
theorem quiet_line (free : ¬ HasCall indent) (name : List Char) {argument : List Char}
    (closing : List Char) (named : Clear "super(".toList ("set".toList ++ name))
    (argued : Clear "super(".toList argument) (closed : Clear "super(".toList closing)
    (before : Option Char) (rest : List Char) :
    Quiet before (indent ++ ("set".toList ++ name ++ (argument ++ closing))) rest := by
  refine Quiet.append ?_ (Quiet.append (Quiet.of_clear named)
    (Quiet.append (Quiet.of_clear argued) (Quiet.of_clear closed)))
  rw [List.append_assoc, List.append_assoc]
  exact quiet_indent free before _

theorem clear_weight (weight : Weight) : Clear "super(".toList weight.text := by
  have nothing : Clear "super(".toList [] := trivial
  have clear := nothing.append_of_ne weight.text fun c member => weight.ne_of_mem member (by decide)
  rwa [List.append_nil] at clear

theorem clear_truthText (b : Bool) : Clear "super(".toList (truthText b) := by
  cases b <;> decide

/-- No call begins in the setters of a call, nor is one begun there and completed behind them. -/
theorem quiet_setters (free : ¬ HasCall indent) (call : SuperCall) (before : Option Char)
    (rest : List Char) : Quiet before (call.setters indent) rest := by
  have weightName : "setWeight(".toList = "set".toList ++ "Weight(".toList := rfl
  have enabledName : "setEnabled(".toList = "set".toList ++ "Enabled(".toList := rfl
  have closing : ");\n".toList = [')', ';', '\n'] := rfl
  cases call with
  | one weight =>
      rw [setters_one, weightName]
      refine Quiet.append ?_ (Quiet.append (Quiet.of_clear (by decide)) ?_)
      · rw [closing]
        exact quiet_plain before _
      · exact quiet_line free "Weight(".toList ");".toList (by decide) (clear_weight weight)
          (by decide) _ rest
  | two weight lead enabled trail =>
      rw [setters_two, weightName, enabledName]
      refine Quiet.append ?_ (Quiet.append (Quiet.of_clear (by decide)) ?_)
      · rw [closing]
        exact quiet_plain before _
      · have first := quiet_line free "Weight(".toList ");\n".toList (by decide)
          (clear_weight weight) (by decide)
        have second := quiet_line free "Enabled(".toList ");".toList (by decide)
          (clear_truthText enabled) (by decide)
        have both := Quiet.append (first (behind (behind before "super(".toList) ");\n".toList) _)
          (second _ rest)
        simpa only [List.append_assoc] using both

end SuperCall

/-!
### Readings
-/

namespace Quiet

variable {before : Option Char} {text : List Char} {pieces : List Piece}

/-- A quiet text in front of what is read is read character by character. -/
theorem reads (quiet : Quiet before text (source pieces))
    (tail : Reads (behind before text) pieces) : Reads before (text.map .char ++ pieces) := by
  induction text generalizing before with
  | nil => exact tail
  | cons c text ih =>
      rw [List.map_cons, List.cons_append]
      refine .char ?_ (ih quiet.2 tail)
      rw [source_append, source_map_char]
      exact quiet.1

/-- A rule that settles calls copies a quiet text. -/
theorem rewrites {rule : Rule} {kind : SuperCall → Bool} {indent rest out : List Char} {n : Nat}
    (settles : rule.Settles kind indent) (quiet : Quiet before text rest)
    (tail : rule.Rewrites true (behind before text) rest out n) :
    rule.Rewrites true before (text ++ rest) (text ++ out) n := by
  induction text generalizing before with
  | nil => exact tail
  | cons c text ih =>
      exact .copy (fun _ => settles.missed fun call _ => quiet.1 call) (ih quiet.2 tail)

end Quiet

/-- Every text can be read. -/
theorem exists_reads (text : List Char) (before : Option Char) :
    ∃ pieces, source pieces = text ∧ Reads before pieces := by
  by_cases calls : ∃ call, Begins before text call
  · obtain ⟨call, boundary, rest, rfl⟩ := calls
    have shorter : rest.length < (call.text ++ rest).length := by
      have some := List.length_pos_iff.mpr call.text_ne_nil
      rw [List.length_append]
      omega
    obtain ⟨pieces, rfl, tail⟩ := exists_reads rest (some ';')
    exact ⟨.call call :: pieces, rfl, .call boundary tail⟩
  · cases text with
    | nil => exact ⟨[], rfl, .nil⟩
    | cons c rest =>
        obtain ⟨pieces, rfl, tail⟩ := exists_reads rest (some c)
        exact ⟨.char c :: pieces, rfl, .char (fun call begins => calls ⟨call, begins⟩) tail⟩
termination_by text.length

theorem le_of_mem_places {k : Nat} {call : SuperCall} :
    ∀ (pieces : List Piece) {j : Nat}, (k, call) ∈ places j pieces → j ≤ k
  | [], _, member => by cases member
  | .char _ :: pieces, _, member => by
      have later := le_of_mem_places pieces member
      omega
  | .call _ :: pieces, _, member => by
      rcases List.mem_cons.mp member with here | later
      · cases here
        exact Nat.le_refl _
      · have later := le_of_mem_places pieces later
        omega

namespace Reads

/-- The pieces that are calls stand exactly where the text holds calls. -/
theorem occursAt_iff {k : Nat} {call : SuperCall} :
    ∀ {pieces : List Piece} {front : List Char}, Reads (behind none front) pieces →
      front.length ≤ k →
      (OccursAt (front ++ source pieces) k call ↔ (k, call) ∈ places front.length pieces)
  | [], front, _, bound => by
      have past : (front ++ source []).drop k = [] := by
        rw [source_nil, List.append_nil, List.drop_eq_nil_iff]
        exact bound
      rw [OccursAt, past, List.prefix_nil]
      simp [call.text_ne_nil, places]
  | .char c :: pieces, front, .char absent tail, bound => by
      rcases Nat.eq_or_lt_of_le bound with rfl | later
      · rw [source_char, occursAt_iff_begins]
        constructor
        · intro begins
          exact (absent call begins).elim
        · intro member
          have past : front.length + 1 ≤ front.length := le_of_mem_places pieces member
          omega
      · rw [← behind_concat none front c] at tail
        have rest := @occursAt_iff k call _ _ tail
        rw [List.length_append, List.append_assoc] at rest
        exact rest later
  | .call found :: pieces, front, .call boundary tail, bound => by
      have here : Begins (behind none front) (source (.call found :: pieces)) found :=
        ⟨boundary, List.prefix_append _ _⟩
      have length := List.length_pos_iff.mpr found.text_ne_nil
      rcases Nat.eq_or_lt_of_le bound with rfl | later
      · rw [occursAt_iff_begins, places, List.mem_cons, Prod.mk.injEq]
        constructor
        · intro begins
          exact Or.inl ⟨rfl, begins.unique here⟩
        · rintro (⟨_, rfl⟩ | member)
          · exact here
          · have past := le_of_mem_places pieces member
            omega
      · -- a call behind the first one begins behind its end
        have first : OccursAt (front ++ source (.call found :: pieces)) front.length found :=
          (occursAt_iff_begins _ _ _).mpr here
        rw [← found.behind_text (behind none front), ← behind_append] at tail
        have rest := @occursAt_iff k call _ _ tail
        rw [List.length_append, List.append_assoc] at rest
        rw [places, List.mem_cons, Prod.mk.injEq]
        constructor
        · intro occurs
          exact Or.inr ((rest (first.apart occurs later)).mp occurs)
        · rintro (⟨same, _⟩ | member)
          · omega
          · exact (rest (le_of_mem_places pieces member)).mpr member

/-- Settling calls changes no piece before its first letters are over, so what is written begins
no call that the text does not. -/
theorem prefix_of_settled {kind : SuperCall → Bool} {indent : List Char} (call : SuperCall) :
    ∀ (pieces : List Piece) {front : List Char}, front ≠ [] →
      call.text <+: front ++ source (pieces.flatMap (Piece.settle kind indent)) →
      call.text <+: front ++ source pieces
  | [], _, _, begins => begins
  | .char c :: pieces, front, _, begins => by
      have shifted : call.text <+:
          (front ++ [c]) ++ source (pieces.flatMap (Piece.settle kind indent)) := by
        simpa [Piece.settle] using begins
      have rest := prefix_of_settled call pieces (by simp) shifted
      simpa using rest
  | .call found :: pieces, front, nonempty, begins => by
      have letters : ∃ rest, source (Piece.settle kind indent (.call found)) =
          "super(".toList ++ rest := by
        rw [Piece.settle]
        split
        · rw [source_map_char]
          exact found.exists_setters_eq indent
        · exact ⟨found.arguments, List.append_nil _⟩
      obtain ⟨rest, settled⟩ := letters
      rw [List.flatMap_cons, source_append, settled, List.append_assoc] at begins
      have inside := prefix_of_clear_tail call.tail_clear_super nonempty begins
      exact inside.trans (List.prefix_append _ _)

variable {before : Option Char} {pieces : List Piece} {kind : SuperCall → Bool}
  {indent : List Char}

/-- One pass of a rule: the calls of its kind are replaced by their setters and counted, and all
other characters are copied. -/
theorem rewrites {rule : Rule} (settles : rule.Settles kind indent) (reads : Reads before pieces) :
    rule.Rewrites true before (source pieces) (source (pieces.flatMap (Piece.settle kind indent)))
      (pieces.countP (Piece.isCall kind)) := by
  induction reads with
  | @nil before =>
      refine .done fun _ => settles.missed fun call _ begins => ?_
      exact call.text_ne_nil (List.prefix_nil.mp begins.2)
  | char absent _ ih =>
      exact .copy (fun _ => settles.missed fun call _ => absent call) ih
  | @call before call pieces boundary tail ih =>
      have begins : Begins before (source (.call call :: pieces)) call :=
        ⟨boundary, List.prefix_append _ _⟩
      cases text : call.text with
      | nil => exact absurd text call.text_ne_nil
      | cons c covered =>
          rw [source_call, text] at begins
          have last : behind before (c :: covered) = some ';' := by
            rw [← text, call.behind_text]
          rw [← last] at ih
          rw [source_call, List.flatMap_cons, source_append, text, Piece.settle]
          by_cases matched : kind call
          · obtain ⟨hit, found, hitText, output⟩ := settles.found matched begins
            rw [if_pos matched, source_map_char, ← output]
            simpa [Piece.isCall, matched] using
              Rule.Rewrites.replace (hitText.trans text) found (settles.everywhere.symm ▸ ih)
          · -- no other call begins at a call of the other kind, and none at all inside it
            have missed : rule.pattern before (c :: covered ++ source pieces) = none := by
              refine settles.missed fun other kind otherBegins => matched ?_
              rwa [← otherBegins.unique begins]
            have quiet : Quiet (some c) covered (source pieces) := by
              have quiet := call.quiet_tail (some c) (source pieces)
              rwa [text] at quiet
            rw [if_neg matched]
            simpa [Piece.isCall, matched, text] using
              Rule.Rewrites.copy (fun _ => missed) (quiet.rewrites settles ih)

/-- What a pass leaves is read as before, with the settled calls replaced by their characters. -/
theorem settle (free : ¬ HasCall indent) (reads : Reads before pieces) :
    Reads before (pieces.flatMap (Piece.settle kind indent)) := by
  induction reads with
  | nil => exact .nil
  | @char before c pieces absent _ ih =>
      rw [List.flatMap_cons, Piece.settle, List.singleton_append]
      refine .char (fun call begins => absent call ⟨begins.1, ?_⟩) ih
      exact prefix_of_settled call pieces (List.cons_ne_nil c []) begins.2
  | @call before call pieces boundary tail ih =>
      rw [List.flatMap_cons, Piece.settle]
      split
      · refine (call.quiet_setters free before _).reads ?_
        rw [call.behind_setters]
        exact ih
      · exact .call boundary ih

end Reads

end SuperCalls
