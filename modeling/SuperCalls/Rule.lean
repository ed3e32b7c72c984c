/-
Module: SuperCalls.Rule
Purpose: Replacement rules.  A rule names a pattern and says what to put in place of a match; a
  list of rules is applied one after the other, each to the text that the one before it left.
Main exports: Hit, Pattern, Rule, Rule.apply, Patched, applyRules
-/
import SuperCalls.Counts

namespace SuperCalls

/-- A match at a position: the text it covers and its groups, `none` for a group that took no
part. -/
structure Hit where
  text : List Char
  groups : List (Option (List Char))
deriving Repr, DecidableEq

/-- A pattern finds the match at a position, given the character before the position, if
there is one, and the text that follows it. -/
abbrev Pattern := Option Char → List Char → Option Hit

/-- A replacement rule.  It always makes a replacement: a rule whose pattern or replacement fails
is not among the rules. -/
structure Rule where
  name : String
  pattern : Pattern
  /-- Replace every match, or the first one only. -/
  everywhere : Bool
  /-- The replacement of a match, from the matched text and the texts of its groups. -/
  replace : List Char → List (List Char) → List Char

/-!
### One pass

The text is read from left to right and matches do not overlap: after a match the reading goes
on behind it.  An empty match puts its replacement before the next character, which is then
copied.  The end of the text is a position too, so a pattern that matches nothing matches
there.
-/

/-- The state of a pass: the output so far, last character first, and the number of
replacements. -/
structure Pass where
  out : List Char
  count : Nat
deriving Repr, DecidableEq

namespace Pass

/-- Copy one character. -/
def copy (pass : Pass) (c : Char) : Pass :=
  { pass with out := c :: pass.out }

/-- Write a replacement. -/
def put (pass : Pass) (replacement : List Char) : Pass :=
  ⟨replacement.reverse ++ pass.out, pass.count + 1⟩

end Pass

namespace Rule

/-- The replacement of a match; a group that took no part counts as empty. -/
def output (rule : Rule) (hit : Hit) : List Char :=
  rule.replace hit.text (hit.groups.map (·.getD []))

/-- The match at a position, unless the rule has spent its only replacement. -/
def hit? (rule : Rule) (pass : Pass) (before : Option Char) (text : List Char) : Option Hit :=
  if rule.everywhere || pass.count == 0 then rule.pattern before text else none

/-- Read the rest of a text.  The number counts the characters that are still covered by the
last match. -/
def passFrom (rule : Rule) : Option Char → Nat → Pass → List Char → Pass
  | _, _ + 1, pass, [] => pass
  | before, 0, pass, [] =>
      match rule.hit? pass before [] with
      | some hit => pass.put (rule.output hit)
      | none => pass
  | _, covered + 1, pass, c :: rest => passFrom rule (some c) covered pass rest
  | before, 0, pass, c :: rest =>
      match rule.hit? pass before (c :: rest) with
      | none => passFrom rule (some c) 0 (pass.copy c) rest
      | some hit =>
          match hit.text with
          | [] => passFrom rule (some c) 0 ((pass.put (rule.output hit)).copy c) rest
          | _ :: covered => passFrom rule (some c) covered.length (pass.put (rule.output hit)) rest

/-- Apply a rule to a text: the new text and the number of replacements. -/
def apply (rule : Rule) (text : List Char) : List Char × Nat :=
  let pass := passFrom rule none 0 ⟨[], 0⟩ text
  (pass.out.reverse, pass.count)

end Rule

/-!
### Lists of rules
-/

/-- The result of applying rules to a text. -/
structure Patched where
  content : String
  counts : Counts
  changed : Bool
deriving Repr, DecidableEq

/-- Apply rules in order, recording how often each of them replaced something. -/
def applyAll (rules : List Rule) (text : List Char) : List Char × Counts :=
  rules.foldl
    (fun (text, counts) rule =>
      let (text, count) := rule.apply text
      (text, Counts.assign counts rule.name count))
    (text, [])

/-- Apply rules to a file's content. -/
def applyRules (rules : List Rule) (content : String) : Patched :=
  let (text, counts) := applyAll rules content.toList
  let updated := String.ofList text
  ⟨updated, counts, updated != content⟩

/-- The content that patching leaves, as characters. -/
theorem toList_applyRules (rules : List Rule) (content : String) :
    (applyRules rules content).content.toList = (applyAll rules content.toList).1 :=
  String.toList_ofList

theorem changed_iff_content_ne (rules : List Rule) (content : String) :
    (applyRules rules content).changed = true ↔ (applyRules rules content).content ≠ content :=
  bne_iff_ne

end SuperCalls
