/-
Module: SuperCalls.Text.Shortest
Purpose: Writing a whole double in as few digits as tell it from every other double.  Zeros take
  the place of the digits that are left out, and from 22 digits on the number is written with an
  exponent.
Main exports: double?, shortest, wholeText
-/
import SuperCalls.Text.Numeral

namespace SuperCalls.Text

/-- The double nearest to an integer, if it is finite. -/
def double? (n : Int) : Option Int :=
  (wholeDouble? n.natAbs 1).map fun value => if n < 0 then -(value : Int) else (value : Int)

/-- Whether a number reads back as a double. -/
def readsAs (double n : Nat) : Bool :=
  wholeDouble? n 1 == some double

/-- The number with some digits of precision that reads back as a double, if there is one; of two
such numbers it is the nearer one. -/
def withDigits? (double length digits : Nat) : Option Nat :=
  let unit := Nat.pow 10 (length - digits)
  let low := double / unit * unit
  let high := low + unit
  if readsAs double low && (double - low ≤ high - double || !readsAs double high) then some low
  else if readsAs double high then some high
  else none

/-- The greatest number of digits that a double needs. -/
def digitLimit : Nat := 17

/-- The number with the fewest digits that reads back as a double. -/
def shortest (double : Nat) : Nat :=
  if double < Nat.pow 2 53 then double
  else
    let length := (Nat.toDigits 10 double).length
    ((List.range digitLimit).findSome? fun n => withDigits? double length (n + 1)).getD double

/-- The text of a whole double. -/
def wholeText (double : Int) : String :=
  let digits := Nat.toDigits 10 (shortest double.natAbs)
  let sign := if double < 0 then "-" else ""
  if digits.length ≤ 21 then sign ++ String.ofList digits
  else
    let more := (digits.tail.reverse.dropWhile (· == '0')).reverse
    sign ++ String.ofList (digits.take 1 ++ (if more.isEmpty then [] else '.' :: more))
      ++ s!"e+{digits.length - 1}"

end SuperCalls.Text
