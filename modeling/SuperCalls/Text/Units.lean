/-
Module: SuperCalls.Text.Units
Purpose: Texts as sequences of 16-bit code units, and the order on texts that compares them
  unit by unit.  A character above U+FFFF counts as the two units of its surrogate pair, so it
  sorts before the characters from U+E000 to U+FFFF.
Main exports: ofChar, units, le, sort
-/

namespace SuperCalls.Text.Units

/-- The code units of a character. -/
def ofChar (c : Char) : List Nat :=
  let n := c.toNat
  if n < 0x10000 then [n]
  else [0xD800 + (n - 0x10000) / 1024, 0xDC00 + (n - 0x10000) % 1024]

/-- The code units of a text. -/
def units (s : String) : List Nat :=
  s.toList.flatMap ofChar

/-- Lexicographic order on sequences of units. -/
def lexLe : List Nat → List Nat → Bool
  | [], _ => true
  | _ :: _, [] => false
  | a :: as, b :: bs => a < b || (a == b && lexLe as bs)

/-- The order of texts by their code units. -/
def le (s t : String) : Bool :=
  lexLe (units s) (units t)

/-- Sort texts by their code units. -/
def sort (texts : List String) : List String :=
  texts.mergeSort le

end SuperCalls.Text.Units
