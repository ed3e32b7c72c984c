/-
Module: SuperCalls.Glob.Range
Purpose: The values of a range between braces, such as `1..5`, `a..e` or `01..10..3`.  A range
  between integers counts up or down by its step; one between other texts goes through the
  code units of two characters.
Main exports: rangeValues, exceedsRangeLimit
-/
import SuperCalls.Text.Shortest
import SuperCalls.Text.Units

namespace SuperCalls.Glob

open Text (Numeral)

/-- The integer that a text denotes. -/
def integer? (text : String) : Option Int :=
  (Numeral.ofText? text).bind Numeral.integer?

/-!
### Values
-/

/-- Whether a numeral is padded with zeros. -/
def isPadded (text : String) : Bool :=
  let cs := text.toList
  let cs := if cs.head? = some '-' then cs.tail else cs
  cs != ['0'] && cs.head? == some '0'

/-- The text of an integer padded with zeros to a width; the sign counts. -/
def padded (width : Nat) (n : Int) : String :=
  let digits := Text.wholeText n.natAbs
  let room := if n < 0 then width - 1 else width
  (if n < 0 then "-" else "") ++ String.ofList (List.replicate (room - digits.length) '0') ++ digits

/-- The doubles from one to another by a step, at most a number of them.  A step too small to
lead to another double ends them. -/
def stepsTo (last step : Int) : Nat → Int → List Int
  | 0, _ => []
  | bound + 1, n =>
      if (0 < step && last < n) || (step < 0 && n < last) then []
      else
        match Text.double? (n + step) with
        | some next => n :: (if next = n then [] else stepsTo last step bound next)
        | none => [n]

/-- The doubles from one to another, by a step.  Where doubles lie far apart, rounding can halve
the steps. -/
def countTo (first last : Int) (step : Nat) : List Int :=
  let bound := 2 * ((last - first).natAbs / step) + 2
  stepsTo last (if last < first then -(step : Int) else step) bound first

/-- A range between integers, as texts; if an end or the step is padded with zeros, so are
the values. -/
def integerRange (first last step : String) (a b s : Int) : List String :=
  let width :=
    if isPadded first || isPadded last || isPadded step then
      max (max first.length last.length) step.length
    else 0
  (countTo a b (max s.natAbs 1)).map (padded width)

/-- The first code unit of a text. -/
def firstUnit (text : String) : Nat :=
  (Text.Units.units text).headD 0

/-- The text of a code unit. -/
def unitText (n : Nat) : String :=
  String.ofList [if 0xD800 ≤ n && n ≤ 0xDFFF then '\uFFFD' else Char.ofNat n]

/-- A range between characters. -/
def letterRange (first last : String) (s : Int) : List String :=
  let tooLong (text : String) : Bool :=
    (integer? text).isNone && 1 < (Text.Units.units text).length
  if tooLong first || tooLong last then []
  else
    (countTo (firstUnit first) (firstUnit last) (max s.natAbs 1)).map fun n => unitText n.toNat

/-- The values of a range, from its ends and perhaps its step; none if it is no range. -/
def rangeValues : List String → List String
  | first :: last :: rest =>
      if first = "" || last = "" then []
      else
        let step :=
          match rest with
          | step :: _ => if step = "" then "1" else step
          | [] => "1"
        match integer? step with
        | none => []
        | some s =>
            match integer? first, integer? last with
            | some a, some b => integerRange first last step a b s
            | _, _ => letterRange first last s
  | _ => []

/-!
### Limits

A range without a step has a limit.  Behind a step a limit can be given, and only then there is
one.
-/

/-- The greatest distance between the ends of a range without a step. -/
def rangeLimit : Int := 1000

/-- The integer that a text other than white space denotes. -/
def writtenInteger? (text : String) : Option Int :=
  if text.toList.all Text.isBlank then none else integer? text

/-- Whether a number divided by a step, as doubles are, is at least a limit.  Division by zero
is infinite, and nothing divided by zero is no number. -/
def quotientReaches (n : Int) (step limit : Numeral) : Bool :=
  let below (negative : Bool) (n : Int) : Int := if negative then -n else n
  match step.size, limit.size with
  | .infinite, .infinite => limit.negative
  | .infinite, .fraction p _ => limit.negative || p = 0
  | .fraction p q, size =>
      let n := below step.negative n
      if p = 0 then
        if n = 0 then false
        else 0 < n || (size == .infinite && limit.negative)
      else
        match size with
        | .infinite => limit.negative
        | .fraction r s => below limit.negative (r * p) ≤ n * q * s

/-- Whether a range is refused for its length. -/
def exceedsRangeLimit : List String → Bool
  | [first, last] =>
      match writtenInteger? first, writtenInteger? last with
      | some a, some b => rangeLimit ≤ b - a
      | _, _ => false
  | first :: last :: step :: limit :: _ =>
      match writtenInteger? first, writtenInteger? last, Numeral.ofText? step,
        Numeral.ofText? limit with
      | some a, some b, some step, some limit => quotientReaches (b - a) step limit
      | _, _, _, _ => false
  | _ => false

end SuperCalls.Glob
