/-
Module: SuperCalls.Glob.Repetition
Purpose: Judging repeated groups, `+(…)` and `*(…)`, by what stands between their parentheses.
  A group whose repetitions can be told apart is read as it is meant; one whose repetitions run
  into each other is read as plain text, or as a run of characters where it is nothing else.
Main exports: Repetition, Repetition.judge
-/
import SuperCalls.Glob.Expression
import SuperCalls.Text.Blank

namespace SuperCalls.Glob

/-- How a repeated group is read. -/
inductive Repetition where
  /-- As a repeated group. -/
  | sound
  /-- As plain text. -/
  | literal
  /-- As a run of characters, by its expression. -/
  | run (expression : String)
deriving Repr, DecidableEq

namespace Repetition

/-!
### Branches

The branches of a group are cut at the bars outside escapes, quotations, classes and inner
groups.
-/

/-- What the characters being read are part of. -/
structure Depth where
  brackets : Nat
  parens : Nat
  quoted : Bool
  escaped : Bool
deriving Repr, DecidableEq

/-- Outside everything. -/
def Depth.none : Depth := ⟨0, 0, false, false⟩

/-- Read a character. -/
def Depth.step (d : Depth) (c : Char) : Depth :=
  if d.escaped then { d with escaped := false }
  else if c = '\\' then { d with escaped := true }
  else if c = '"' then { d with quoted := !d.quoted }
  else if d.quoted then d
  else if c = '[' then { d with brackets := d.brackets + 1 }
  else if c = ']' then { d with brackets := d.brackets - 1 }
  else if d.brackets ≠ 0 then d
  else if c = '(' then { d with parens := d.parens + 1 }
  else if c = ')' then { d with parens := d.parens - 1 }
  else d

/-- The branches of a group; `seen` is the beginning of the branch being read, in reverse. -/
def branchesFrom (seen : List Char) (d : Depth) : List Char → List (List Char)
  | [] => [seen.reverse]
  | c :: rest =>
      if c = '|' && d = .none then seen.reverse :: branchesFrom [] d rest
      else branchesFrom (c :: seen) (d.step c) rest

/-- The branches of a group, without the white space around them. -/
def branches (body : List Char) : List (List Char) :=
  (branchesFrom [] .none body).map Text.trimBlanks

/-!
### Plain branches
-/

/-- Whether a branch has no special characters but escaped ones. -/
def isPlain : List Char → Bool
  | [] => true
  | '\\' :: [] => true
  | '\\' :: _ :: rest => isPlain rest
  | c :: rest => !"?*+@!()[]\x7b\x7d".toList.contains c && isPlain rest

/-- What stands in a branch that is a group of one plain branch, `@(…)`. -/
def inside? (branch : List Char) : Option (List Char) :=
  match branch with
  | '@' :: '(' :: rest =>
      let inner := rest.dropLast
      if rest.getLast? == some ')' && !inner.isEmpty
          && inner.all (fun c => !"\\()[]\x7b\x7d|".toList.contains c) then
        some inner
      else none
  | _ => none

/-- A branch out of the groups around it. -/
def unwrapped : Nat → List Char → List Char
  | 0, branch => branch
  | bound + 1, branch =>
      match inside? branch with
      | some inner => unwrapped bound inner
      | none => branch

/-- A text without the backslashes that escape something on their line. -/
def withoutEscapes : List Char → List Char
  | '\\' :: c :: rest =>
      if Text.isLineEnd c then '\\' :: c :: withoutEscapes rest else c :: withoutEscapes rest
  | c :: rest => c :: withoutEscapes rest
  | [] => []

/-- The text that a branch stands for, if the branch is plain. -/
def plainText? (branch : List Char) : Option (List Char) :=
  let value := unwrapped branch.length (Text.trimBlanks branch)
  if isPlain value then some (withoutEscapes value) else none

/-- Whether a character is one code unit. -/
def isOneUnit (c : Char) : Bool := c.toNat < 0x10000

/-- The character that a text repeats, if it is one character again and again. -/
def repeatedChar? : List Char → Option Char
  | [] => none
  | c :: rest => if isOneUnit c && rest.all (· == c) then some c else none

/-- Whether two of several texts repeat the same character. -/
def overlap : List (List Char) → Bool
  | [] => false
  | text :: texts =>
      (match repeatedChar? text with
        | some c => texts.any fun other => repeatedChar? other == some c
        | none => false)
        || overlap texts

/-!
### Repeated groups inside
-/

/-- A repeated group at the beginning of a text. -/
structure Inner where
  star : Bool
  body : List Char
  /-- The text behind it. -/
  rest : List Char
deriving Repr, DecidableEq

/-- The text up to the parenthesis that closes a group, and the text behind it; `seen` is the
beginning of it in reverse. -/
def closed? (seen : List Char) (d : Depth) : List Char → Option (List Char × List Char)
  | [] => none
  | c :: rest =>
      let next := d.step c
      if next.parens = 0 && d.parens ≠ 0 then some (seen.reverse, rest)
      else closed? (c :: seen) next rest

/-- The repeated group that a text begins with. -/
def inner? : List Char → Option Inner
  | mark :: '(' :: rest =>
      if mark = '+' || mark = '*' then
        (closed? [] { Depth.none with parens := 1 } rest).map fun (body, rest) =>
          ⟨mark == '*', body, rest⟩
      else none
  | _ => none

/-- The characters of a sequence of groups that each repeat a single character. -/
def starredChars? : Nat → List Char → Option (List Char)
  | 0, _ => none
  | _ + 1, [] => some []
  | bound + 1, text => do
      let inner ← inner? text
      match branches inner.body with
      | [branch] =>
          match plainText? branch with
          | some [c] =>
              if inner.star && isOneUnit c then (starredChars? bound inner.rest).map (c :: ·)
              else none
          | _ => none
      | _ => none

/-- The expression of a branch that is a sequence of groups that each repeat a single character:
a run of these characters. -/
def run? (branch : List Char) : Option String :=
  match starredChars? (branch.length + 1) branch with
  | some [c] => some (escapeSpecial (String.ofList [c]) ++ "*")
  | some (c :: chars) => some ("[" ++ escapeSpecial (String.ofList (c :: chars)) ++ "]*")
  | _ => none

/-- Whether a branch is a repeated group from its beginning to its end. -/
def isRepeated (branch : List Char) : Bool :=
  (inner? (Text.trimBlanks branch)).any (·.rest.isEmpty)

/-- How a repeated group is read.  Of several branches none may be empty or made of wildcards
alone, and no two may repeat the same character.  No branch may be a repeated group itself. -/
def judge (body : List Char) : Repetition :=
  let branches := branches body
  let several := 1 < branches.length
  let wild (branch : List Char) : Bool := branch.all fun c => c == '*' || c == '?'
  if several && (branches.any wild || overlap (branches.filterMap plainText?)) then .literal
  else
    match branches.find? fun branch => (run? branch).isSome || isRepeated branch with
    | none => .sound
    | some branch =>
        match run? branch with
        | some expression => .run expression
        | none => .literal

end Repetition

end SuperCalls.Glob
