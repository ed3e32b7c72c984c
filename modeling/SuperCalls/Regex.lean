/-
Module: SuperCalls.Regex
Purpose: Regular expressions over code units, and where they match.  A match has got to a
  position with some groups captured; an expression takes that to everything it can get to, in
  the order in which the choices are to be tried.
Main exports: UnitSet, Regex, Progress, Regex.outcomes, Regex.occursIn
-/

namespace SuperCalls

/-- A set of code units: some ranges, or everything outside them. -/
structure UnitSet where
  negated : Bool
  ranges : List (Nat × Nat)
deriving Repr, DecidableEq, Inhabited

/-- Whether a unit is in a set. -/
def UnitSet.has (set : UnitSet) (unit : Nat) : Bool :=
  (set.ranges.any fun (low, high) => low ≤ unit && unit ≤ high) != set.negated

/-- The digits. -/
def digitRanges : List (Nat × Nat) := [(48, 57)]

/-- The word characters. -/
def wordRanges : List (Nat × Nat) := [(48, 57), (65, 90), (95, 95), (97, 122)]

/-- The white space characters. -/
def blankRanges : List (Nat × Nat) :=
  [(9, 13), (32, 32), (0xA0, 0xA0), (0x1680, 0x1680), (0x2000, 0x200A), (0x2028, 0x2029),
    (0x202F, 0x202F), (0x205F, 0x205F), (0x3000, 0x3000), (0xFEFF, 0xFEFF)]

/-- The characters that end a line. -/
def lineEndRanges : List (Nat × Nat) := [(10, 10), (13, 13), (0x2028, 0x2029)]

/-- A regular expression. -/
inductive Regex where
  /-- Nothing at all. -/
  | empty
  /-- One unit of a set. -/
  | unit (set : UnitSet)
  | seq (first second : Regex)
  /-- The first choice, or else the second. -/
  | alt (first second : Regex)
  /-- At least as often as the first number says, at most as often as the second; a lazy
  repetition ends as soon as it may, any other goes on as long as it can. -/
  | repeated (inner : Regex) (least : Nat) (most : Option Nat) (lazy : Bool)
  /-- A group that captures what it matches. -/
  | group (number : Nat) (inner : Regex)
  /-- What a group captured; nothing, as long as it captured nothing. -/
  | reference (number : Nat)
  /-- What follows, or does not follow. -/
  | ahead (negated : Bool) (inner : Regex)
  /-- What comes before, or does not come before. -/
  | behind (negated : Bool) (inner : Regex)
  | atStart
  | atEnd
  /-- Between a word character and another one, or not. -/
  | boundary (negated : Bool)
deriving Repr, DecidableEq, Inhabited

/-- How far a match has got: a position, and what groups captured, by their numbers. -/
structure Progress where
  position : Nat
  captured : List (Nat × List Nat)
deriving Repr, DecidableEq, Inhabited

namespace Progress

/-- The same captures at another position. -/
def at_ (p : Progress) (position : Nat) : Progress :=
  { p with position := position }

/-- Capture something for a group. -/
def capture (p : Progress) (number : Nat) (units : List Nat) : Progress :=
  { p with captured := (number, units) :: p.captured.filter (·.1 != number) }

/-- Forget what some groups captured. -/
def forget (p : Progress) (numbers : List Nat) : Progress :=
  if p.captured.isEmpty then p
  else { p with captured := p.captured.filter fun c => !numbers.contains c.1 }

/-- What a group captured. -/
def capturedBy (p : Progress) (number : Nat) : List Nat :=
  (p.captured.lookup number).getD []

end Progress

namespace Regex

/-- The numbers of the groups of an expression. -/
def groups : Regex → List Nat
  | seq first second => first.groups ++ second.groups
  | alt first second => first.groups ++ second.groups
  | repeated inner _ _ _ => inner.groups
  | group number inner => number :: inner.groups
  | ahead _ inner => inner.groups
  | behind _ inner => inner.groups
  | _ => []

/-- The numbers of the groups that an expression refers to. -/
def references : Regex → List Nat
  | seq first second => first.references ++ second.references
  | alt first second => first.references ++ second.references
  | repeated inner _ _ _ => inner.references
  | group _ inner => inner.references
  | ahead _ inner => inner.references
  | behind _ inner => inner.references
  | reference number => [number]
  | _ => []

/-- The expression without its groups other than the ones with given numbers: a group that
nothing refers to only holds things together. -/
def keepGroups (numbers : List Nat) : Regex → Regex
  | seq first second => seq (keepGroups numbers first) (keepGroups numbers second)
  | alt first second => alt (keepGroups numbers first) (keepGroups numbers second)
  | repeated inner least most lazy => repeated (keepGroups numbers inner) least most lazy
  | group number inner =>
      if numbers.contains number then group number (keepGroups numbers inner)
      else keepGroups numbers inner
  | ahead negated inner => ahead negated (keepGroups numbers inner)
  | behind negated inner => behind negated (keepGroups numbers inner)
  | regex => regex

/-!
### Matching

Progress that was made before is left out when it is made again, since whatever follows has
been tried from there.  So the number of outcomes is bounded by the positions of the text and
what the groups can capture, whatever the number of ways that lead there.

What comes before a position is matched from its end to its beginning.
-/

/-- A list without the members that stood in it before. -/
def firsts (ps : List Progress) : List Progress :=
  (ps.foldl (fun seen p => if seen.contains p then seen else p :: seen) []).reverse

/-- What comes of going on from everything that was reached. -/
def andThen (next : Progress → List Progress) : List Progress → List Progress
  | [] => []
  | [p] => next p
  | ps => firsts (ps.flatMap next)

/-- The repetitions that were begun: how many were still asked for and allowed, and where. -/
abbrev Begun := List (Nat × Option Nat × Progress)

/-- Go through the repetitions of an expression, at most a number of them.  A repetition that
is not asked for has to match something.  The answer holds the repetitions that were begun and
what was reached. -/
def repetitions (next : Progress → List Progress) (lazy : Bool) :
    Nat → Nat → Option Nat → Begun → Progress → Begun × List Progress
  | 0, _, _, begun, _ => (begun, [])
  | bound + 1, least, most, begun, p =>
      if begun.contains (least, most, p) then (begun, [])
      else
        let begun := (least, most, p) :: begun
        if most = some 0 then (begun, [p])
        else
          let ends := if least = 0 then (next p).filter (·.position != p.position) else next p
          let (begun, more) := ends.foldl
            (fun (begun, found) q =>
              let (begun, more) :=
                repetitions next lazy bound (least - 1) (most.map (· - 1)) begun q
              (begun, found ++ more))
            (begun, [])
          (begun, if 0 < least then more else if lazy then p :: more else more ++ [p])

/-- Whether a word character stands at a position. -/
def wordAt (text : Array Nat) (p : Nat) : Bool :=
  (text[p]?).any (UnitSet.mk false wordRanges).has

/-- Whether one side of a position is a word character and the other is not. -/
def isBoundary (text : Array Nat) (p : Nat) : Bool :=
  (p != 0 && wordAt text (p - 1)) != wordAt text p

/-- The text from one position to another one. -/
def between (text : Array Nat) (low high : Nat) : List Nat :=
  (text.extract low high).toList

/-- What an expression gets to, the first choice first; `backward` tells that it is matched from
its end to its beginning.  More repetitions than the text has positions reach nothing new. -/
def outcomes (text : Array Nat) : Regex → Bool → Progress → List Progress
  | empty, _, p => [p]
  | unit set, backward, p =>
      if backward then
        if p.position != 0 && (text[p.position - 1]?).any set.has then [p.at_ (p.position - 1)]
        else []
      else if (text[p.position]?).any set.has then [p.at_ (p.position + 1)]
      else []
  | seq first second, backward, p =>
      if backward then andThen (outcomes text first true) (outcomes text second true p)
      else andThen (outcomes text second false) (outcomes text first false p)
  | alt first second, backward, p =>
      firsts (outcomes text first backward p ++ outcomes text second backward p)
  | repeated inner least most lazy, backward, p =>
      let limit := text.size + 1
      let least := min least limit
      let most := most.bind fun most => if limit + least < most then none else some most
      let numbers := inner.groups
      firsts (repetitions (fun q => outcomes text inner backward (q.forget numbers)) lazy
        (least + limit + 1) least most [] p).2
  | group number inner, backward, p =>
      (outcomes text inner backward p).map fun q =>
        q.capture number
          (if backward then between text q.position p.position
          else between text p.position q.position)
  | reference number, backward, p =>
      let units := p.capturedBy number
      if backward then
        if units.length ≤ p.position
            && between text (p.position - units.length) p.position == units then
          [p.at_ (p.position - units.length)]
        else []
      else if between text p.position (p.position + units.length) == units then
        [p.at_ (p.position + units.length)]
      else []
  | ahead negated inner, _, p =>
      match outcomes text inner false p with
      | [] => if negated then [p] else []
      | q :: _ => if negated then [] else [q.at_ p.position]
  | behind negated inner, _, p =>
      match outcomes text inner true p with
      | [] => if negated then [p] else []
      | q :: _ => if negated then [] else [q.at_ p.position]
  | atStart, _, p => if p.position = 0 then [p] else []
  | atEnd, _, p => if p.position = text.size then [p] else []
  | boundary negated, _, p => if isBoundary text p.position != negated then [p] else []

/-- Whether an expression matches somewhere in a text. -/
def occursIn (regex : Regex) (text : List Nat) : Bool :=
  let text := text.toArray
  (List.range (text.size + 1)).any fun start => !(outcomes text regex false ⟨start, []⟩).isEmpty

end Regex

end SuperCalls
