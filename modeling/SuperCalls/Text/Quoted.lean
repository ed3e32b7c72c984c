/-
Module: SuperCalls.Text.Quoted
Purpose: Showing a text inside a message: between quotes, with control characters, backslashes
  and the quote itself escaped.  A long text is shown line by line, and only its beginning.
Main exports: quoted
-/
import SuperCalls.Text.Units

namespace SuperCalls.Text

/-- An upper-case hexadecimal digit. -/
def upperHexDigit (n : Nat) : Char :=
  Char.ofNat (if n < 10 then 48 + n else 55 + n)

/-- How a character is shown between quotes of a kind. -/
def shown (mark : Char) (c : Char) : List Char :=
  let n := c.toNat
  if c = mark then ['\\', c]
  else if c = '\\' then ['\\', '\\']
  else if n = 8 then ['\\', 'b']
  else if n = 9 then ['\\', 't']
  else if n = 10 then ['\\', 'n']
  else if n = 12 then ['\\', 'f']
  else if n = 13 then ['\\', 'r']
  else if n < 0x20 || (0x7F ≤ n && n ≤ 0x9F) then
    ['\\', 'x', upperHexDigit (n / 16), upperHexDigit (n % 16)]
  else [c]

/-- Whether a text holds a dollar sign right before an opening brace. -/
def holdsDollarBrace : List Char → Bool
  | '$' :: c :: rest => c == '\x7b' || holdsDollarBrace (c :: rest)
  | _ :: rest => holdsDollarBrace rest
  | [] => false

/-- The quote of a text: the single one, or else the double one, or else the grave accent, whichever
needs no escape.  The grave accent is no quote for a text with a dollar sign before a brace. -/
def quoteMark (cs : List Char) : Char :=
  let single := Char.ofNat 0x27
  let grave := Char.ofNat 0x60
  if !cs.contains single then single
  else if !cs.contains '"' then '"'
  else if !cs.contains grave && !holdsDollarBrace cs then grave
  else single

/-- A text between quotes. -/
def enquoted (cs : List Char) : List Char :=
  let mark := quoteMark cs
  mark :: cs.flatMap (shown mark) ++ [mark]

/-- The lines of a text, each with the line feed at its end; `seen` is the beginning of the first
one, in reverse. -/
def linesFrom (seen : List Char) : List Char → List (List Char)
  | [] => if seen.isEmpty then [] else [seen.reverse]
  | c :: rest =>
      if c = '\n' then (c :: seen).reverse :: linesFrom [] rest else linesFrom (c :: seen) rest

/-- The beginning of a text, of a number of code units; a character cut in two is replaced. -/
def firstUnits : Nat → List Char → List Char
  | _, [] => []
  | n, c :: rest =>
      let size := (Units.ofChar c).length
      if n = 0 then []
      else if n < size then ['\uFFFD']
      else c :: firstUnits (n - size) rest

/-- The greatest length of a text that is shown on one line. -/
def lineLimit : Nat := 124

/-- The greatest length of what is shown of a text. -/
def shownLimit : Nat := 128

/-- A text between quotes.  The lines of a long one are joined by plus signs, and what is too
long to be shown is left out. -/
def quoted (s : String) : String :=
  let cs := s.toList
  let all :=
    if lineLimit < (Units.units s).length then
      " +\n  ".toList.intercalate ((linesFrom [] cs).map enquoted)
    else enquoted cs
  if shownLimit < (Units.units (String.ofList all)).length then
    String.ofList (firstUnits shownLimit all) ++ "..."
  else String.ofList all

end SuperCalls.Text
