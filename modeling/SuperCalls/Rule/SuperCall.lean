/-
Module: SuperCalls.Rule.SuperCall
Purpose: The two replacement rules for weighted super calls.  `super(weight, enabled);` and
  `super(weight);` become a plain `super();` followed by setter calls.
Main exports: weight?, twoArguments, oneArgument, superCallRules, defaultIndent
-/
import SuperCalls.Rule
import SuperCalls.Text.Blank

namespace SuperCalls

open Text (isBlank isWord)

/-!
The rules recognise the calls by their characters: a call split inside its parentheses by
anything but white space, nested parentheses and arguments that are no literals are left alone.
-/

/-- The rest of a text behind a literal beginning. -/
def afterLiteral? : List Char → List Char → Option (List Char)
  | [], text => some text
  | _ :: _, [] => none
  | l :: literal, c :: text => if l = c then afterLiteral? literal text else none

/-- A weight at the beginning of a text, and the rest: digits with at most one point, such as
`3`, `0.75`, `1.` and `.5`. -/
def weight? (text : List Char) : Option (List Char × List Char) :=
  let (whole, rest) := text.span Char.isDigit
  match whole, rest with
  | [], '.' :: more =>
      let (part, rest) := more.span Char.isDigit
      if part.isEmpty then none else some ('.' :: part, rest)
  | [], _ => none
  | _, '.' :: more =>
      let (part, rest) := more.span Char.isDigit
      some (whole ++ '.' :: part, rest)
  | _, _ => some (whole, rest)

/-- `true` or `false` at the beginning of a text, and the rest. -/
def boolean? (text : List Char) : Option (List Char × List Char) :=
  match afterLiteral? "true".toList text with
  | some rest => some ("true".toList, rest)
  | none => (afterLiteral? "false".toList text).map fun rest => ("false".toList, rest)

/-- The text behind `super(`, where `super` begins a word. -/
def afterSuper? (before : Option Char) (text : List Char) : Option (List Char) :=
  if before.any isWord then none else afterLiteral? "super(".toList text

/-- `super(weight, enabled);` with white space allowed around the second argument. -/
def twoArguments : Pattern := fun before text => do
  let rest ← afterSuper? before text
  let (weight, rest) ← weight? rest
  let rest ← afterLiteral? [','] rest
  let (lead, rest) := rest.span isBlank
  let (enabled, rest) ← boolean? rest
  let (trail, rest) := rest.span isBlank
  let _ ← afterLiteral? ");".toList rest
  some ⟨"super(".toList ++ weight ++ ',' :: lead ++ enabled ++ trail ++ ");".toList,
    [some weight, some enabled]⟩

/-- `super(weight);` without any white space. -/
def oneArgument : Pattern := fun before text => do
  let rest ← afterSuper? before text
  let (weight, rest) ← weight? rest
  let _ ← afterLiteral? ");".toList rest
  some ⟨"super(".toList ++ weight ++ ");".toList, [some weight]⟩

/-- A setter call on a line of its own. -/
def setterLine (indent setter : String) (argument : List Char) : List Char :=
  ('\n' :: indent.toList) ++ setter.toList ++ '(' :: argument ++ ");".toList

/-- `super();`, then the setter of the weight. -/
def weightSetter (indent : String) (weight : List Char) : List Char :=
  "super();".toList ++ setterLine indent "setWeight" weight

/-- The rule for two arguments. -/
def twoArgumentRule (indent : String) : Rule where
  name := "two-argument"
  pattern := twoArguments
  everywhere := true
  replace _ groups :=
    weightSetter indent (groups.getD 0 []) ++ setterLine indent "setEnabled" (groups.getD 1 [])

/-- The rule for one argument. -/
def oneArgumentRule (indent : String) : Rule where
  name := "one-argument"
  pattern := oneArgument
  everywhere := true
  replace _ groups := weightSetter indent (groups.getD 0 [])

/-- Both rules; the setter calls are indented by the given text. -/
def superCallRules (indent : String) : List Rule :=
  [twoArgumentRule indent, oneArgumentRule indent]

/-- The indent of setter calls when none is asked for: eight spaces. -/
def defaultIndent : String := "        "

end SuperCalls
