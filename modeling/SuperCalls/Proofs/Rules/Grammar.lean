/-
Module: SuperCalls.Proofs.Rules.Grammar
Purpose: The super calls that are to be rewritten, as data of their own: their grammar, what they
  become, and where a text holds one.  Nothing here mentions a rule or a pass.
Main exports: Weight, Blanks, SuperCall, SuperCall.text, SuperCall.setters, Begins, OccursAt,
  HasCall, Begins.unique, OccursAt.apart
-/
import SuperCalls.Proofs.Rules.Rewriting
import SuperCalls.Text.Blank

namespace SuperCalls

open Text (isBlank isWord)

/-!
### The grammar
-/

/-- Digits, or digits with one point behind or among them, or a point and digits. -/
inductive IsWeight : List Char → Prop where
  | whole {digits : List Char} (some : digits ≠ []) (all : ∀ c ∈ digits, c.isDigit) :
      IsWeight digits
  | pointed {digits part : List Char} (some : digits ≠ []) (all : ∀ c ∈ digits, c.isDigit)
      (behind : ∀ c ∈ part, c.isDigit) :
      IsWeight (digits ++ '.' :: part)
  | fraction {part : List Char} (some : part ≠ []) (all : ∀ c ∈ part, c.isDigit) :
      IsWeight ('.' :: part)

/-- A written weight. -/
structure Weight where
  text : List Char
  isWeight : IsWeight text

/-- A run of white space, which can be empty. -/
structure Blanks where
  text : List Char
  blank : ∀ c ∈ text, isBlank c

/-- A super call with literal arguments. -/
inductive SuperCall where
  /-- `super(weight);` -/
  | one (weight : Weight)
  /-- `super(weight, enabled);` with its white space. -/
  | two (weight : Weight) (lead : Blanks) (enabled : Bool) (trail : Blanks)

/-- How a truth value is written. -/
def truthText (b : Bool) : List Char :=
  if b then "true".toList else "false".toList

namespace SuperCall

/-- Whether a call has two arguments. -/
def isTwo : SuperCall → Bool
  | one _ => false
  | two .. => true

/-- Whether a call has one argument. -/
def isOne (call : SuperCall) : Bool :=
  !call.isTwo

/-- What stands between the opening parenthesis and the end of a call. -/
def arguments : SuperCall → List Char
  | one weight => weight.text ++ ");".toList
  | two weight lead enabled trail =>
      weight.text ++ ',' :: (lead.text ++ (truthText enabled ++ (trail.text ++ ");".toList)))

/-- A call as it is written. -/
def text (call : SuperCall) : List Char :=
  "super(".toList ++ call.arguments

theorem text_eq (call : SuperCall) : call.text = "super(".toList ++ call.arguments := rfl

/-- What a call becomes: a plain call, and a setter call on a line of its own for every
argument. -/
def setters (indent : List Char) : SuperCall → List Char
  | one weight =>
      "super();\n".toList ++ indent ++ "setWeight(".toList ++ weight.text ++ ");".toList
  | two weight _ enabled _ =>
      "super();\n".toList ++ indent ++ "setWeight(".toList ++ weight.text ++ ");\n".toList
        ++ indent ++ "setEnabled(".toList ++ truthText enabled ++ ");".toList

end SuperCall

/-- A call begins at a place, of which the character before and the text behind are given: its
first word is not the tail of a longer one. -/
def Begins (before : Option Char) (text : List Char) (call : SuperCall) : Prop :=
  before.any isWord = false ∧ call.text <+: text

/-- A call stands at a position of a text. -/
def OccursAt (text : List Char) (k : Nat) (call : SuperCall) : Prop :=
  (k = 0 ∨ ∃ c, text[k - 1]? = some c ∧ isWord c = false) ∧ call.text <+: text.drop k

/-- Some call stands in a text. -/
def HasCall (text : List Char) : Prop :=
  ∃ k call, OccursAt text k call

/-!
### Characters of a call
-/

/-- The characters that weights are written with. -/
def isWeightChar (c : Char) : Bool :=
  c.isDigit || c == '.'

namespace Weight

theorem all (weight : Weight) : ∀ c ∈ weight.text, isWeightChar c := by
  have digit : ∀ {c : Char}, c.isDigit = true → isWeightChar c = true := by
    intro c h
    simp [isWeightChar, h]
  obtain ⟨text, isWeight⟩ := weight
  intro c member
  cases isWeight with
  | whole _ all => exact digit (all c member)
  | pointed _ all behind =>
      rcases List.mem_append.mp member with whole | tail
      · exact digit (all c whole)
      · rcases List.mem_cons.mp tail with point | part
        · simp [isWeightChar, point]
        · exact digit (behind c part)
  | fraction _ all =>
      rcases List.mem_cons.mp member with point | part
      · simp [isWeightChar, point]
      · exact digit (all c part)

theorem ne_nil (weight : Weight) : weight.text ≠ [] := by
  obtain ⟨text, isWeight⟩ := weight
  cases isWeight with
  | whole some _ => exact some
  | pointed some _ _ => simp
  | fraction _ _ => simp

/-- No weight holds a character that weights are not written with. -/
theorem ne_of_mem (weight : Weight) {c d : Char} (member : c ∈ weight.text)
    (other : isWeightChar d = false) : c ≠ d := by
  rintro rfl
  rw [weight.all c member] at other
  cases other

end Weight

/-- No white space holds a character that is not blank. -/
theorem Blanks.ne_of_mem (blanks : Blanks) {c d : Char} (member : c ∈ blanks.text)
    (other : isBlank d = false) : c ≠ d := by
  rintro rfl
  rw [blanks.blank c member] at other
  cases other

/-- A text splits in one way only into characters of a class and a rest that does not begin with
one. -/
theorem class_split_unique {p : Char → Bool} :
    ∀ {first second rest other : List Char}, first ++ rest = second ++ other →
      (∀ c ∈ first, p c) → (∀ c ∈ second, p c) →
      (∀ c ∈ rest.head?, p c = false) → (∀ c ∈ other.head?, p c = false) →
      first = second ∧ rest = other
  | [], [], _, _, same, _, _, _, _ => ⟨rfl, same⟩
  | [], d :: second, rest, other, same, _, two, stop, _ => by
      have head : rest.head? = some d := by simp at same; simp [same]
      have fails := stop d head
      rw [two d (by simp)] at fails
      cases fails
  | c :: first, [], rest, other, same, one, _, _, stop => by
      have head : other.head? = some c := by simp at same; simp [← same]
      have fails := stop c head
      rw [one c (by simp)] at fails
      cases fails
  | c :: first, d :: second, rest, other, same, one, two, restStop, otherStop => by
      simp only [List.cons_append, List.cons.injEq] at same
      obtain ⟨rfl, same⟩ := same
      obtain ⟨rfl, tails⟩ := class_split_unique same
        (fun x member => one x (List.mem_cons_of_mem _ member))
        (fun x member => two x (List.mem_cons_of_mem _ member)) restStop otherStop
      exact ⟨rfl, tails⟩

/-!
### At most one call begins at a place
-/

namespace SuperCall

theorem truthText_head (b : Bool) (rest : List Char) :
    ∀ c ∈ (truthText b ++ rest).head?, isBlank c = false := by
  cases b <;> simp [truthText] <;> decide

/-- The arguments of a call tell the call, whatever follows. -/
theorem arguments_inj {call other : SuperCall} {rest more : List Char}
    (same : call.arguments ++ rest = other.arguments ++ more) : call = other := by
  cases call with
  | one weight =>
      cases other with
      | one weight' =>
          simp only [arguments, List.append_assoc] at same
          have weights := (class_split_unique same weight.all weight'.all
            (by simp; decide) (by simp; decide)).1
          cases weight
          cases weight'
          cases weights
          rfl
      | two weight' lead enabled trail =>
          simp only [arguments, List.append_assoc] at same
          have rests := (class_split_unique same weight.all weight'.all
            (by simp; decide) (by simp; decide)).2
          simp at rests
  | two weight lead enabled trail =>
      cases other with
      | one weight' =>
          simp only [arguments, List.append_assoc] at same
          have rests := (class_split_unique same weight.all weight'.all
            (by simp; decide) (by simp; decide)).2
          simp at rests
      | two weight' lead' enabled' trail' =>
          simp only [arguments, List.append_assoc] at same
          obtain ⟨weights, rests⟩ := class_split_unique same weight.all weight'.all
            (by simp; decide) (by simp; decide)
          simp only [List.cons_append, List.append_assoc, List.cons.injEq, true_and] at rests
          obtain ⟨leads, rests⟩ := class_split_unique rests lead.blank lead'.blank
            (truthText_head enabled _) (truthText_head enabled' _)
          have truths : enabled = enabled' := by
            cases enabled <;> cases enabled' <;> simp [truthText] at rests ⊢
          subst truths
          have trails := (class_split_unique (List.append_cancel_left rests) trail.blank
            trail'.blank (by simp; decide) (by simp; decide)).1
          cases weight
          cases weight'
          cases lead
          cases lead'
          cases trail
          cases trail'
          cases weights
          cases leads
          cases trails
          rfl

end SuperCall

/-- At most one call begins at a place. -/
theorem Begins.unique {before : Option Char} {text : List Char} {call other : SuperCall}
    (one : Begins before text call) (two : Begins before text other) : call = other := by
  obtain ⟨_, rest, same⟩ := one
  obtain ⟨_, more, same'⟩ := two
  rw [← same', SuperCall.text_eq, SuperCall.text_eq, List.append_assoc, List.append_assoc] at same
  exact SuperCall.arguments_inj (List.append_cancel_left same)

/-!
### Where no call can begin

All calls begin with the same letters.  A text that no part of these letters ends, and that does
not hold them all, neither holds the beginning of a call nor lets one begin that is completed
behind it.
-/

/-- A word cannot begin inside a text, not even one that is completed behind it. -/
def Clear (word : List Char) : List Char → Prop
  | [] => True
  | c :: text => ¬ c :: text <+: word ∧ ¬ word <+: c :: text ∧ Clear word text

instance (word : List Char) : ∀ text, Decidable (Clear word text)
  | [] => inferInstanceAs (Decidable True)
  | c :: text =>
      have := instDecidableClear word text
      inferInstanceAs
        (Decidable (¬ c :: text <+: word ∧ ¬ word <+: c :: text ∧ Clear word text))

namespace Clear

theorem of_append {word : List Char} {text : List Char} :
    ∀ {front : List Char}, Clear word (front ++ text) → Clear word text
  | [], clear => clear
  | _ :: _, clear => of_append clear.2.2

/-- Characters other than the first one of the word do no harm in front. -/
theorem append_of_ne {w : Char} {word text : List Char} (clear : Clear (w :: word) text) :
    ∀ front : List Char, (∀ c ∈ front, c ≠ w) → Clear (w :: word) (front ++ text)
  | [], _ => clear
  | c :: front, other => by
      have differs : c ≠ w := other c (by simp)
      refine ⟨?_, ?_, clear.append_of_ne front fun d member => other d (by simp [member])⟩
      · intro h
        exact differs (List.cons_prefix_cons.mp h).1
      · intro h
        exact differs (List.cons_prefix_cons.mp h).1.symm

/-- Neither of a word and a nonempty text in which it cannot begin is the beginning of a text
that the other one begins. -/
theorem not_prefix {word text longer : List Char} (clear : Clear word text) (some : text ≠ [])
    (one : word <+: longer) (two : text <+: longer) : False := by
  cases text with
  | nil => exact some rfl
  | cons c text =>
      rcases List.prefix_or_prefix_of_prefix one two with shorter | longer
      · exact clear.2.1 shorter
      · exact clear.1 longer

end Clear

/-- A text whose tail holds no beginning of a word ends before the word if it begins before
it. -/
theorem prefix_of_clear_tail {word text front rest : List Char} (clear : Clear word text.tail)
    (some : front ≠ []) (begins : text <+: front ++ (word ++ rest)) : text <+: front := by
  rcases List.prefix_or_prefix_of_prefix begins (List.prefix_append front _) with inside | across
  · exact inside
  · obtain ⟨excess, rfl⟩ := across
    have overlap : excess <+: word ++ rest := (List.prefix_append_right_inj front).mp begins
    cases front with
    | nil => exact absurd rfl some
    | cons c front =>
        cases excess with
        | nil => simp
        | cons d excess =>
            have clear : Clear word (d :: excess) := Clear.of_append clear
            exact (clear.not_prefix (by simp) (List.prefix_append word rest) overlap).elim

namespace SuperCall

/-- Behind its first letter a call holds an `s` at most in `false`, in front of `e` and of
something other than `t`. -/
theorem tail_clear {word : List Char}
    (differs : ∀ c, c ≠ 't' → ∀ text, ¬ 'e' :: c :: text <+: word ∧ ¬ word <+: 'e' :: c :: text)
    (call : SuperCall) : Clear ('s' :: word) call.text.tail := by
  have nothing : Clear ('s' :: word) [] := trivial
  have ending : Clear ('s' :: word) ");".toList := nothing.append_of_ne ");".toList (by simp)
  cases call with
  | one weight =>
      have arguments : Clear ('s' :: word) (weight.text ++ ");".toList) :=
        ending.append_of_ne _ fun c member => weight.ne_of_mem member (by decide)
      exact arguments.append_of_ne "uper(".toList (by simp)
  | two weight lead enabled trail =>
      have closing : Clear ('s' :: word) (trail.text ++ ");".toList) :=
        ending.append_of_ne _ fun c member => trail.ne_of_mem member (by decide)
      have truth : Clear ('s' :: word) (truthText enabled ++ (trail.text ++ ");".toList)) := by
        cases enabled with
        | true => exact closing.append_of_ne "true".toList (by simp)
        | false =>
            -- what follows `se` is a blank or the closing parenthesis
            obtain ⟨c, rest, same, other⟩ :
                ∃ c rest, trail.text ++ ");".toList = c :: rest ∧ c ≠ 't' := by
              cases trailEq : trail.text with
              | nil => exact ⟨')', [';'], rfl, by decide⟩
              | cons c rest =>
                  exact ⟨c, rest ++ ");".toList, rfl,
                    trail.ne_of_mem (by simp [trailEq]) (by decide)⟩
            obtain ⟨left, right⟩ := differs c other rest
            rw [same] at closing ⊢
            have word : Clear ('s' :: word) ('s' :: 'e' :: c :: rest) :=
              ⟨by simpa using left, by simpa using right,
                closing.append_of_ne ['e'] (by simp)⟩
            exact word.append_of_ne "fal".toList (by simp)
      have second : Clear ('s' :: word)
          (lead.text ++ (truthText enabled ++ (trail.text ++ ");".toList))) :=
        truth.append_of_ne _ fun c member => lead.ne_of_mem member (by decide)
      have arguments : Clear ('s' :: word) (two weight lead enabled trail).arguments :=
        (second.append_of_ne [','] (by simp)).append_of_ne _
          fun c member => weight.ne_of_mem member (by decide)
      exact arguments.append_of_ne "uper(".toList (by simp)

/-- No call begins inside a call. -/
theorem tail_clear_super (call : SuperCall) : Clear "super(".toList call.text.tail := by
  have clear : Clear ['s', 'u', 'p', 'e', 'r', '('] call.text.tail := call.tail_clear (by simp)
  exact clear

/-- No call goes on with the name of a setter. -/
theorem tail_clear_set (call : SuperCall) : Clear "set".toList call.text.tail := by
  have clear : Clear ['s', 'e', 't'] call.text.tail := by
    apply call.tail_clear
    intro c other text
    simp only [List.cons_prefix_cons, true_and]
    exact ⟨fun h => other h.1, fun h => other h.1.symm⟩
  exact clear

theorem super_prefix (call : SuperCall) : "super(".toList <+: call.text :=
  List.prefix_append _ _

theorem text_ne_nil (call : SuperCall) : call.text ≠ [] := by
  simp [text_eq]

end SuperCall

/-- All calls begin with the same letters. -/
theorem Begins.super_prefix {before : Option Char} {text : List Char} {call : SuperCall}
    (begins : Begins before text call) : "super(".toList <+: text :=
  call.super_prefix.trans begins.2

/-- A call that begins in front of the name of a setter ends in front of it. -/
theorem Begins.of_append_set {before : Option Char} {text rest : List Char} {call : SuperCall}
    (some : text ≠ []) (begins : Begins before (text ++ ("set".toList ++ rest)) call) :
    Begins before text call :=
  ⟨begins.1, prefix_of_clear_tail call.tail_clear_set some begins.2⟩

/-!
### Positions
-/

theorem behind_eq_getLast? (text : List Char) : behind none text = text.getLast? := by
  rcases List.eq_nil_or_concat text with rfl | ⟨front, c, rfl⟩
  · rfl
  · simp

/-- A call stands at a position if it begins there. -/
theorem occursAt_iff_begins (front text : List Char) (call : SuperCall) :
    OccursAt (front ++ text) front.length call ↔ Begins (behind none front) text call := by
  rw [OccursAt, Begins, List.drop_left, behind_eq_getLast?]
  rcases List.eq_nil_or_concat front with rfl | ⟨front, c, rfl⟩
  · simp
  · simp

theorem OccursAt.exists_split {text : List Char} {k : Nat} {call : SuperCall}
    (occurs : OccursAt text k call) :
    ∃ front rest, text = front ++ rest ∧ k = front.length ∧ Begins (behind none front) rest call := by
  have inside : k < text.length := by
    have some := call.text_ne_nil
    have length := occurs.2.length_le
    rw [List.length_drop] at length
    have positive := List.length_pos_iff.mpr some
    omega
  have length : (text.take k).length = k := by
    rw [List.length_take]
    omega
  refine ⟨text.take k, text.drop k, (List.take_append_drop k text).symm, length.symm, ?_⟩
  rw [← occursAt_iff_begins, List.take_append_drop, length]
  exact occurs

/-- A text holds a call if one begins somewhere in it. -/
theorem hasCall_iff {text : List Char} :
    HasCall text ↔
      ∃ front rest call, text = front ++ rest ∧ Begins (behind none front) rest call := by
  constructor
  · rintro ⟨k, call, occurs⟩
    obtain ⟨front, rest, same, _, begins⟩ := occurs.exists_split
    exact ⟨front, rest, call, same, begins⟩
  · rintro ⟨front, rest, call, rfl, begins⟩
    exact ⟨front.length, call, (occursAt_iff_begins front rest call).mpr begins⟩

namespace OccursAt

variable {text : List Char} {j k : Nat} {call other : SuperCall}

/-- At most one call stands at a position. -/
theorem unique (one : OccursAt text k call) (two : OccursAt text k other) : call = other := by
  obtain ⟨front, rest, rfl, rfl, begins⟩ := one.exists_split
  exact begins.unique ((occursAt_iff_begins front rest other).mp two)

/-- Calls do not overlap: the one that stands first ends before the other one begins. -/
theorem apart (one : OccursAt text j call) (two : OccursAt text k other) (order : j < k) :
    j + call.text.length ≤ k := by
  rcases Nat.lt_or_ge k (j + call.text.length) with overlap | done
  · obtain ⟨rest, same⟩ := one.2
    have shift : text.drop k = call.text.drop (k - j) ++ rest := by
      have steps : k = j + (k - j) := by omega
      rw [steps, ← List.drop_drop, ← same, List.drop_append_of_le_length (by omega)]
      simp
    have clear : Clear "super(".toList (call.text.drop (k - j)) := by
      have tail : call.text.tail = call.text.tail.take (k - j - 1) ++ call.text.drop (k - j) := by
        have steps : k - j = 1 + (k - j - 1) := by omega
        rw [steps, ← List.drop_drop, List.drop_one, Nat.add_sub_cancel_left,
          List.take_append_drop]
      have clear := call.tail_clear_super
      rw [tail] at clear
      exact Clear.of_append clear
    have some : call.text.drop (k - j) ≠ [] := by
      rw [ne_eq, List.drop_eq_nil_iff]
      omega
    have starts : "super(".toList <+: call.text.drop (k - j) ++ rest := by
      rw [← shift]
      exact other.super_prefix.trans two.2
    exact (clear.not_prefix some starts (List.prefix_append _ _)).elim
  · exact done

end OccursAt

end SuperCalls
