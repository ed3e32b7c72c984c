/-
Module: SuperCalls.Json.Reader
Purpose: Reading a JSON text.  The grammar is the strict one: no byte-order mark, no trailing
  comma, no comment, and no white space but space, tab, line feed and carriage return.
  Where a text breaks the grammar, the cause and the place are told.
Main exports: SyntaxFault, SyntaxError, SyntaxError.message, Json.read
-/
import SuperCalls.Json

namespace SuperCalls.Json

/-!
### Malformed texts
-/

/-- How a text can break the grammar. -/
inductive SyntaxFault where
  /-- Something stands where it cannot, or the text ends too early. -/
  | unexpected
  /-- Something follows the value that the text holds. -/
  | trailing
  | noName
  | noQuotedName
  | noColon
  | noItemEnd
  | noFieldEnd
  | openString
  | controlCharacter
  | badUnicodeEscape
  | badEscape
  | bareMinus
  | openFraction
  | openExponent
deriving Repr, DecidableEq, Inhabited

/-- The text of a fault, which its place follows. -/
def SyntaxFault.text : SyntaxFault → String
  | unexpected => "Unexpected token in"
  | trailing => "Unexpected non-whitespace character after"
  | noName => "Expected property name or '\x7d' in"
  | noQuotedName => "Expected double-quoted property name in"
  | noColon => "Expected ':' after property name in"
  | noItemEnd => "Expected ',' or ']' after array element in"
  | noFieldEnd => "Expected ',' or '\x7d' after property value in"
  | openString => "Unterminated string in"
  | controlCharacter => "Bad control character in string literal in"
  | badUnicodeEscape => "Bad Unicode escape in"
  | badEscape => "Bad escaped character in"
  | bareMinus => "No number after minus sign in"
  | openFraction => "Unterminated fractional number in"
  | openExponent => "Exponent part is missing a number in"

/-- A fault and the rest of the text at the place where it shows. -/
structure SyntaxError where
  fault : SyntaxFault
  rest : List Char
deriving Repr, DecidableEq, Inhabited

/-- What reading gives, or the fault that stopped it. -/
abbrev Reading := Except SyntaxError

/-- Stop at a fault. -/
def stop {α : Type} (fault : SyntaxFault) (rest : List Char) : Reading α :=
  .error ⟨fault, rest⟩

/-- Drop the white space at the beginning of a text. -/
def skipBlanks (text : List Char) : List Char :=
  text.dropWhile fun c => c == ' ' || c == '\t' || c == '\n' || c == '\r'

/-!
### Strings

A pair of escapes for the two halves of a surrogate pair is one character; an escape for one
half alone reads as U+FFFD.
-/

/-- The value of a hexadecimal digit. -/
def hexValue? (c : Char) : Option Nat :=
  if '0' ≤ c && c ≤ '9' then some (c.toNat - 48)
  else if 'a' ≤ c && c ≤ 'f' then some (c.toNat - 87)
  else if 'A' ≤ c && c ≤ 'F' then some (c.toNat - 55)
  else none

/-- The value of four hexadecimal digits. -/
def hexUnit? (a b c d : Char) : Option Nat := do
  let a ← hexValue? a
  let b ← hexValue? b
  let c ← hexValue? c
  let d ← hexValue? d
  return ((a * 16 + b) * 16 + c) * 16 + d

/-- The character that a short escape names. -/
def shortEscape? (c : Char) : Option Char :=
  if c = '"' || c = '\\' || c = '/' then some c
  else if c = 'b' then some (Char.ofNat 8)
  else if c = 'f' then some (Char.ofNat 12)
  else if c = 'n' then some '\n'
  else if c = 'r' then some '\r'
  else if c = 't' then some '\t'
  else none

/-- The characters read so far, last first, with the first half of a surrogate pair that waits
for its second half. -/
structure StringPart where
  seen : List Char
  half : Option Nat

namespace StringPart

/-- Read a half that stays alone as U+FFFD. -/
def settle (part : StringPart) : List Char :=
  if part.half.isSome then '\uFFFD' :: part.seen else part.seen

/-- Read a character. -/
def push (part : StringPart) (c : Char) : StringPart :=
  ⟨c :: part.settle, none⟩

/-- Read an escaped code unit. -/
def pushUnit (part : StringPart) (unit : Nat) : StringPart :=
  if 0xD800 ≤ unit && unit < 0xDC00 then ⟨part.settle, some unit⟩
  else if 0xDC00 ≤ unit && unit < 0xE000 then
    match part.half with
    | some high =>
        ⟨Char.ofNat (0x10000 + (high - 0xD800) * 1024 + (unit - 0xDC00)) :: part.seen, none⟩
    | none => ⟨'\uFFFD' :: part.seen, none⟩
  else part.push (Char.ofNat unit)

end StringPart

/-- Whether a character is a hexadecimal digit. -/
def isHexDigit (c : Char) : Bool :=
  (hexValue? c).isSome

/-- The rest of a text behind the first hexadecimal digits of an escape that lacks some of its
four. -/
def afterHexDigits (text : List Char) : List Char :=
  text.drop ((text.take 4).takeWhile isHexDigit).length

/-- Read a string up to its closing quote. -/
def stringTail (part : StringPart) : List Char → Reading (String × List Char)
  | [] => stop .openString []
  | '"' :: rest => .ok (String.ofList part.settle.reverse, rest)
  | '\\' :: 'u' :: a :: b :: c :: d :: rest =>
      match hexUnit? a b c d with
      | some unit => stringTail (part.pushUnit unit) rest
      | none => stop .badUnicodeEscape (afterHexDigits (a :: b :: c :: d :: rest))
  | '\\' :: 'u' :: rest => stop .badUnicodeEscape (afterHexDigits rest)
  | '\\' :: c :: rest =>
      match shortEscape? c with
      | some escaped => stringTail (part.push escaped) rest
      | none => stop .badEscape (c :: rest)
  | ['\\'] => stop .openString []
  | c :: rest =>
      if c.toNat < 0x20 then stop .controlCharacter (c :: rest)
      else stringTail (part.push c) rest

/-!
### Numbers
-/

/-- A run of digits; if there is none, the text has the given fault. -/
def digits (fault : SyntaxFault) (text : List Char) : Reading (List Char × List Char) :=
  let (ds, rest) := text.span Char.isDigit
  if ds.isEmpty then stop fault text else .ok (ds, rest)

/-- The whole part of a number: a single zero, or digits that do not start with one. -/
def whole : List Char → Reading (List Char × List Char)
  | '0' :: c :: rest => if c.isDigit then stop .unexpected (c :: rest) else .ok (['0'], c :: rest)
  | text => digits .bareMinus text

/-- The fraction of a number, which may be missing. -/
def fraction : List Char → Reading (List Char × List Char)
  | '.' :: rest => do
      let (ds, rest) ← digits .openFraction rest
      return ('.' :: ds, rest)
  | text => .ok ([], text)

/-- The exponent of a number, which may be missing. -/
def exponent : List Char → Reading (List Char × List Char)
  | c :: rest =>
      if c = 'e' || c = 'E' then do
        let (sign, rest) :=
          match rest with
          | '+' :: rest => (['+'], rest)
          | '-' :: rest => (['-'], rest)
          | rest => ([], rest)
        let (ds, rest) ← digits .openExponent rest
        return (c :: sign ++ ds, rest)
      else .ok ([], c :: rest)
  | [] => .ok ([], [])

/-- A number without its sign. -/
def unsignedNumber (sign text : List Char) : Reading (Json × List Char) := do
  let (whole, rest) ← whole text
  let (part, rest) ← fraction rest
  let (power, rest) ← exponent rest
  return (.number (String.ofList (sign ++ whole ++ part ++ power)), rest)

/-- Whether a number can begin with a character. -/
def startsNumber (c : Char) : Bool :=
  c = '-' || c.isDigit

/-!
### Values

Two steps lead from a value to the next one, into it or on behind a comma, and at least one
character is read on the way.  So twice the length of the text bounds the number of steps, and
the bound is never used up.
-/

/-- The rest of a text that begins with the given word. -/
def word (value : Json) : List Char → List Char → Reading (Json × List Char)
  | [], text => .ok (value, text)
  | w :: expected, c :: text =>
      if w = c then word value expected text else stop .unexpected (c :: text)
  | _ :: _, [] => stop .unexpected []

/-- The name of a field and the colon behind it; if there is no name, the text has the given
fault. -/
def fieldName (fault : SyntaxFault) (text : List Char) : Reading (String × List Char) :=
  match skipBlanks text with
  | '"' :: rest => do
      let (name, rest) ← stringTail ⟨[], none⟩ rest
      match skipBlanks rest with
      | ':' :: rest => return (name, rest)
      | rest => stop .noColon rest
  | rest => stop fault rest

mutual

/-- The value at the beginning of a text. -/
def value : Nat → List Char → Reading (Json × List Char)
  | 0, text => stop .unexpected text
  | bound + 1, text =>
      match skipBlanks text with
      | '"' :: rest => do
          let (s, rest) ← stringTail ⟨[], none⟩ rest
          return (.string s, rest)
      | '[' :: rest =>
          match skipBlanks rest with
          | ']' :: rest => .ok (.array [], rest)
          | rest => items bound [] rest
      | '\x7b' :: rest =>
          match skipBlanks rest with
          | '\x7d' :: rest => .ok (.object [], rest)
          | rest => fields bound .noName [] rest
      | 't' :: rest => word (.bool true) "rue".toList rest
      | 'f' :: rest => word (.bool false) "alse".toList rest
      | 'n' :: rest => word .null "ull".toList rest
      | '-' :: rest => unsignedNumber ['-'] rest
      | c :: rest =>
          if c.isDigit then unsignedNumber [] (c :: rest) else stop .unexpected (c :: rest)
      | [] => stop .unexpected []

/-- The items of an array that are left; those read so far are kept in reverse. -/
def items : Nat → List Json → List Char → Reading (Json × List Char)
  | 0, _, text => stop .unexpected text
  | bound + 1, seen, text => do
      let (item, rest) ← value bound text
      match skipBlanks rest with
      | ',' :: rest => items bound (item :: seen) rest
      | ']' :: rest => return (.array (item :: seen).reverse, rest)
      | rest => stop .noItemEnd rest

/-- The fields of an object that are left, and the fault of a text without another name.  A
repeated name keeps its first place and takes its last value. -/
def fields : Nat → SyntaxFault → Record Json → List Char → Reading (Json × List Char)
  | 0, _, _, text => stop .unexpected text
  | bound + 1, fault, seen, text => do
      let (name, rest) ← fieldName fault text
      let (field, rest) ← value bound rest
      let seen := Record.set seen name field
      match skipBlanks rest with
      | ',' :: rest => fields bound .noQuotedName seen rest
      | '\x7d' :: rest => return (.object seen, rest)
      | rest => stop .noFieldEnd rest

end

/-- Read a JSON text. -/
def read (text : String) : Except SyntaxError Json := do
  let cs := text.toList
  let (json, rest) ← value (2 * cs.length + 2) cs
  match skipBlanks rest with
  | [] => return json
  | rest => throw ⟨.trailing, rest⟩

/-!
### What is said about a malformed text

A place is told by the number of code units before it, and by line and column, both counted
from one.  What stands where it cannot is shown with up to ten code units on either side of its
beginning; a text of at most twenty is shown whole.
-/

/-- The number of code units of a text. -/
def unitCount (text : List Char) : Nat :=
  text.foldl (fun n c => n + if c.toNat < 0x10000 then 1 else 2) 0

/-- The part of a text that lies between two counts of code units. -/
def slice (text : List Char) (start stop : Nat) : List Char :=
  (text.foldl
    (fun (part, n) c => (if start ≤ n && n < stop then c :: part else part, n + unitCount [c]))
    (([] : List Char), 0)).1.reverse

/-- Line and column of the end of a text, given those of its beginning. -/
def lineColumn (line column : Nat) : List Char → Nat × Nat
  | [] => (line, column)
  | '\r' :: '\n' :: rest => lineColumn (line + 1) 1 rest
  | c :: rest =>
      if c = '\n' || c = '\r' then lineColumn (line + 1) 1 rest
      else lineColumn line (column + unitCount [c]) rest

/-- How a character that stands where it cannot is shown in its text. -/
def excerpt (text : List Char) (position : Nat) : String :=
  let size := unitCount text
  let shown (start stop : Nat) : String := "\"" ++ String.ofList (slice text start stop) ++ "\""
  if size ≤ 20 then shown 0 size
  else if position < 10 then shown 0 (position + 10) ++ "..."
  else if position < size - 10 then "..." ++ shown (position - 10) (position + 10) ++ "..."
  else "..." ++ shown (position - 10) size

/-- What is said about the fault in a text. -/
def SyntaxError.message (error : SyntaxError) (text : String) : String :=
  let cs := text.toList
  let position := unitCount cs - unitCount error.rest
  let (line, column) := lineColumn 1 1 (cs.take (cs.length - error.rest.length))
  let place := s!"JSON at position {position} (line {line} column {column})"
  match error.fault, error.rest with
  | .unexpected, [] => "Unexpected end of JSON input"
  | .unexpected, c :: _ =>
      if c = '"' then s!"Unexpected string in {place}"
      else if startsNumber c then s!"Unexpected number in {place}"
      else s!"Unexpected token '{c}', {excerpt cs position} is not valid JSON"
  | fault, _ => s!"{fault.text} {place}"

end SuperCalls.Json
