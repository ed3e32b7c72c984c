/-
Module: SuperCalls.Regex.Reader
Purpose: Reading the text of a regular expression.  The grammar is the lenient one: a closing
  bracket, a brace that counts nothing and the escape of an ordinary character stand for
  themselves.
Main exports: Regex.read?
-/
import SuperCalls.Regex
import SuperCalls.Text.Identifier

namespace SuperCalls.Regex

/-!
### Units

The text of an expression is a sequence of code units, like the texts it is matched with.
-/

/-- The unit of a character up to U+FFFF. -/
def u (c : Char) : Nat := c.toNat

/-- Whether a unit is a decimal digit. -/
def isDigitUnit (n : Nat) : Bool := 48 ≤ n && n ≤ 57

/-- The value of a hexadecimal digit. -/
def hexUnitValue? (n : Nat) : Option Nat :=
  if 48 ≤ n && n ≤ 57 then some (n - 48)
  else if 97 ≤ n && n ≤ 102 then some (n - 87)
  else if 65 ≤ n && n ≤ 70 then some (n - 55)
  else none

/-- Whether a unit is an ASCII letter. -/
def isLetterUnit (n : Nat) : Bool := (65 ≤ n && n ≤ 90) || (97 ≤ n && n ≤ 122)

/-- One unit. -/
def only (n : Nat) : UnitSet := ⟨false, [(n, n)]⟩

/-- Everything outside some ranges, as ranges; the ranges are in ascending order. -/
def outside (ranges : List (Nat × Nat)) : List (Nat × Nat) :=
  let (from_, gaps) := ranges.foldl
    (fun (low, gaps) (a, b) => (b + 1, if low < a then gaps ++ [(low, a - 1)] else gaps))
    (0, [])
  gaps ++ [(from_, 0xFFFF)]

/-!
### Escapes
-/

/-- The class that a letter behind a backslash names. -/
def classEscape? (n : Nat) : Option (List (Nat × Nat)) :=
  if n = u 'd' then some digitRanges
  else if n = u 'D' then some (outside digitRanges)
  else if n = u 'w' then some wordRanges
  else if n = u 'W' then some (outside wordRanges)
  else if n = u 's' then some blankRanges
  else if n = u 'S' then some (outside blankRanges)
  else none

/-- The control character that a letter behind a backslash names. -/
def controlEscape? (n : Nat) : Option Nat :=
  if n = u 'f' then some 12
  else if n = u 'n' then some 10
  else if n = u 'r' then some 13
  else if n = u 't' then some 9
  else if n = u 'v' then some 11
  else none

/-- Read up to a number of octal digits, with a value of at most 255. -/
def octal (value : Nat) : Nat → List Nat → Nat × List Nat
  | 0, rest => (value, rest)
  | _ + 1, [] => (value, [])
  | digits + 1, d :: rest =>
      if 48 ≤ d && d ≤ 55 && value * 8 + (d - 48) ≤ 255 then octal (value * 8 + (d - 48)) digits rest
      else (value, d :: rest)

/-- The unit that an escape stands for, from the text behind the backslash.  Inside a class a
digit or an underscore can name a control character too. -/
def unitEscape? (inClass : Bool) : List Nat → Option (Nat × List Nat)
  | [] => none
  | c :: rest =>
      match controlEscape? c with
      | some n => some (n, rest)
      | none =>
          if 48 ≤ c && c ≤ 55 then some (octal (c - 48) 2 rest)
          else if c = u 'c' then
            match rest with
            | l :: more =>
                if isLetterUnit l || (inClass && (isDigitUnit l || l = u '_')) then
                  some (l % 32, more)
                else some (u '\\', c :: rest)
            | [] => some (u '\\', [c])
          else if c = u 'x' then
            match rest with
            | a :: b :: more =>
                match hexUnitValue? a, hexUnitValue? b with
                | some a, some b => some (a * 16 + b, more)
                | _, _ => some (c, rest)
            | _ => some (c, rest)
          else if c = u 'u' then
            match rest with
            | a :: b :: d :: e :: more =>
                match hexUnitValue? a, hexUnitValue? b, hexUnitValue? d, hexUnitValue? e with
                | some a, some b, some d, some e =>
                    some (((a * 16 + b) * 16 + d) * 16 + e, more)
                | _, _, _, _ => some (c, rest)
            | _ => some (c, rest)
          else some (c, rest)

/-!
### Names of groups

A name is an identifier; a character of it may be written as an escape.
-/

/-- The code point of two surrogates. -/
def joinSurrogates (high low : Nat) : Nat :=
  0x10000 + (high - 0xD800) * 1024 + (low - 0xDC00)

/-- Whether a unit is the first one of a surrogate pair. -/
def isHighSurrogate (n : Nat) : Bool := 0xD800 ≤ n && n ≤ 0xDBFF

/-- Whether a unit is the second one of a surrogate pair. -/
def isLowSurrogate (n : Nat) : Bool := 0xDC00 ≤ n && n ≤ 0xDFFF

/-- The number that hexadecimal digits write. -/
def hexValue? (digits : List Nat) : Option Nat :=
  digits.foldl (fun value d => value.bind fun n => (hexUnitValue? d).map (n * 16 + ·)) (some 0)

/-- The code point that an escape in a name stands for, from the text behind `\\u`. -/
def namedPoint? (text : List Nat) : Option (Nat × List Nat) :=
  if text.head? = some (u '\x7b') then
    let digits := text.tail.takeWhile (· != u '\x7d')
    let rest := text.drop (digits.length + 1)
    match hexValue? digits with
    | some n =>
        if digits.isEmpty || rest.isEmpty || 0x10FFFF < n then none else some (n, rest.tail)
    | none => none
  else if text.length < 4 then none
  else
    match hexValue? (text.take 4) with
    | none => none
    | some n =>
        let rest := text.drop 4
        let escaped := rest.take 2 == [u '\\', u 'u'] && 6 ≤ rest.length
        let low := if escaped then hexValue? ((rest.drop 2).take 4) else none
        if isHighSurrogate n && low.any isLowSurrogate then
          some (joinSurrogates n (low.getD 0), rest.drop 6)
        else some (n, rest)

/-- The first code point of a name, and the text behind it. -/
def namePoint? : List Nat → Option (Nat × List Nat)
  | [] => none
  | c :: rest =>
      if c = u '\\' then if rest.head? = some (u 'u') then namedPoint? rest.tail else none
      else
        match rest with
        | low :: more =>
            if isHighSurrogate c && isLowSurrogate low then some (joinSurrogates c low, more)
            else some (c, rest)
        | [] => some (c, [])

/-- The rest of a name up to its closing bracket; `seen` is the beginning of it in reverse. -/
def nameFrom? : Nat → List Nat → List Nat → Option (List Nat × List Nat)
  | 0, _, _ => none
  | bound + 1, seen, text =>
      if text.head? = some (u '>') && !seen.isEmpty then some (seen.reverse, text.tail)
      else
        match namePoint? text with
        | none => none
        | some (point, rest) =>
            let fits :=
              if seen.isEmpty then Text.isIdentifierStart point else Text.isIdentifierPart point
            if fits then nameFrom? bound (point :: seen) rest else none

/-- The name at the beginning of a text, behind its opening bracket, and the text behind its
closing one. -/
def groupName? (text : List Nat) : Option (List Nat × List Nat) :=
  nameFrom? (text.length + 1) [] text

/-!
### Groups

Groups are numbered by their opening parentheses, from one on.  The groups of the whole
expression decide whether an escaped number or name refers to one.
-/

/-- The groups that capture, in order, in a text outside or inside a class: for each of them
its name, which is empty if it has none or if it is no name. -/
def groupNames (inClass : Bool) : List Nat → List (List Nat)
  | [] => []
  | [_] => []
  | c :: d :: rest =>
      if c = u '\\' then groupNames inClass rest
      else if inClass then groupNames (c != u ']') (d :: rest)
      else if c = u '[' then groupNames true (d :: rest)
      else if c = u '(' then
        let named := rest.head? = some (u '<') && rest.tail.head? ≠ some (u '=')
          && rest.tail.head? ≠ some (u '!')
        let more := groupNames false (d :: rest)
        if d != u '?' then [] :: more
        else if named then ((groupName? rest.tail).map (·.1)).getD [] :: more
        else more
      else groupNames false (d :: rest)

/-- The groups of an expression. -/
structure GroupTable where
  /-- The names of the groups, in order; empty for those without one. -/
  names : List (List Nat)
  /-- Whether some group is opened with a name. -/
  named : Bool

/-- The number of the group with a name. -/
def GroupTable.number? (table : GroupTable) (name : List Nat) : Option Nat :=
  (table.names.findIdx? (· == name)).map (· + 1)

/-- The groups of the text of an expression. -/
def GroupTable.ofText (text : List Nat) : GroupTable :=
  let names := groupNames false text
  ⟨names, names.any (!·.isEmpty)⟩

/-!
### Classes
-/

/-- A member of a class: a unit, or a class of its own. -/
inductive Member where
  | unit (n : Nat)
  | ranges (rs : List (Nat × Nat))

/-- The ranges of a member. -/
def Member.toRanges : Member → List (Nat × Nat)
  | unit n => [(n, n)]
  | ranges rs => rs

/-- A member at the beginning of a text.  Where groups have names, a `k` cannot be escaped. -/
def member? (named : Bool) : List Nat → Option (Member × List Nat)
  | [] => none
  | c :: rest =>
      if c ≠ u '\\' then some (.unit c, rest)
      else
        match rest with
        | [] => none
        | e :: more =>
            match classEscape? e with
            | some ranges => some (.ranges ranges, more)
            | none =>
                if e = u 'b' then some (.unit 8, more)
                else if e = u 'k' && named then none
                else (unitEscape? true rest).map fun (n, rest) => (.unit n, rest)

/-- The members of a class up to its closing bracket.  A range needs a unit at both ends, in
order; otherwise its hyphen is a member. -/
def members? (named : Bool) : Nat → List (Nat × Nat) → List Nat → Option (List (Nat × Nat) × List Nat)
  | 0, _, _ => none
  | bound + 1, seen, text =>
      if text.head? = some (u ']') then some (seen, text.tail)
      else
        match member? named text with
        | none => none
        | some (first, rest) =>
            if rest.head? = some (u '-') && rest.tail.head? ≠ some (u ']') then
              match member? named rest.tail with
              | none => none
              | some (second, rest) =>
                  match first, second with
                  | .unit low, .unit high =>
                      if high < low then none else members? named bound (seen ++ [(low, high)]) rest
                  | _, _ =>
                      members? named bound
                        (seen ++ first.toRanges ++ (u '-', u '-') :: second.toRanges) rest
            else members? named bound (seen ++ first.toRanges) rest

/-- A class, from the text behind its opening bracket. -/
def class? (named : Bool) (text : List Nat) : Option (UnitSet × List Nat) :=
  if text.head? = some (u '^') then
    (members? named (text.length + 1) [] text.tail).map fun (ranges, rest) => (⟨true, ranges⟩, rest)
  else
    (members? named (text.length + 1) [] text).map fun (ranges, rest) => (⟨false, ranges⟩, rest)

/-!
### Quantifiers
-/

/-- The number that digits write. -/
def unitsValue (ds : List Nat) : Nat :=
  ds.foldl (fun n d => n * 10 + (d - 48)) 0

/-- The counts between braces, from the text behind the opening one. -/
def counts? (text : List Nat) : Option ((Nat × Option Nat) × List Nat) :=
  let (least, rest) := text.span isDigitUnit
  if least.isEmpty then none
  else
    match rest with
    | c :: more =>
        if c = u '\x7d' then some ((unitsValue least, some (unitsValue least)), more)
        else if c = u ',' then
          let (most, rest) := more.span isDigitUnit
          if rest.head? = some (u '\x7d') then
            some ((unitsValue least, if most.isEmpty then none else some (unitsValue most)), rest.tail)
          else none
        else none
    | [] => none

/-- The quantifier at the beginning of a text, if there is one. -/
def quantifier? : List Nat → Option ((Nat × Option Nat) × List Nat)
  | [] => none
  | c :: rest =>
      if c = u '*' then some ((0, none), rest)
      else if c = u '+' then some ((1, none), rest)
      else if c = u '?' then some ((0, some 1), rest)
      else if c = u '\x7b' then counts? rest
      else none

/-- Put the quantifier that follows an expression on it. -/
def quantify? (inner : Regex) (text : List Nat) : Option (Regex × List Nat) :=
  match quantifier? text with
  | none => some (inner, text)
  | some ((least, most), rest) =>
      if most.any (· < least) then none
      else
        let lazy := rest.head? = some (u '?')
        some (.repeated inner least most lazy, if lazy then rest.tail else rest)

/-!
### Expressions
-/

/-- What an escape outside a class stands for, from the text behind the backslash. -/
def escape? (table : GroupTable) (text : List Nat) : Option (Regex × List Nat) :=
  match text with
  | [] => none
  | c :: rest =>
      match classEscape? c with
      | some ranges => some (.unit ⟨false, ranges⟩, rest)
      | none =>
          let (ds, more) := text.span isDigitUnit
          if c ≠ 48 && !ds.isEmpty && unitsValue ds ≤ table.names.length then
            some (.reference (unitsValue ds), more)
          else if c = u 'k' && table.named then
            if rest.head? ≠ some (u '<') then none
            else do
              let (name, rest) ← groupName? rest.tail
              let number ← table.number? name
              some (.reference number, rest)
          else (unitEscape? false text).map fun (n, rest) => (.unit (only n), rest)

/-- How a group opens. -/
inductive Opening where
  | plain
  /-- With a number of its own. -/
  | capturing (number : Nat)
  | ahead (negated : Bool)
  | behind (negated : Bool)

/-- The kind of a group, from the text behind its opening parenthesis.  The number of a group
that captures is told by the number of those that are still to come.  No two groups have the
same name. -/
def opening? (table : GroupTable) (text : List Nat) : Option (Opening × List Nat) :=
  let number := table.names.length - (groupNames false (u '(' :: text)).length + 1
  match text with
  | q :: rest =>
      if q ≠ u '?' then some (.capturing number, text)
      else
        match rest with
        | c :: more =>
            if c = u ':' then some (.plain, more)
            else if c = u '=' then some (.ahead false, more)
            else if c = u '!' then some (.ahead true, more)
            else if c = u '<' then
              match more with
              | d :: inner =>
                  if d = u '=' then some (.behind false, inner)
                  else if d = u '!' then some (.behind true, inner)
                  else
                    match groupName? more with
                    | some (name, rest) =>
                        if table.number? name = some number then some (.capturing number, rest)
                        else none
                    | none => none
              | [] => none
            else none
        | [] => none
  | [] => some (.plain, [])

mutual

/-- Alternatives up to the end of a group or of the text. -/
def choices? (table : GroupTable) : Nat → List Nat → Option (Regex × List Nat)
  | 0, _ => none
  | bound + 1, text =>
      match sequence? table bound .empty text with
      | none => none
      | some (first, rest) =>
          if rest.head? = some (u '|') then
            (choices? table bound rest.tail).map fun (second, rest) => (.alt first second, rest)
          else some (first, rest)

/-- Expressions one behind the other. -/
def sequence? (table : GroupTable) : Nat → Regex → List Nat → Option (Regex × List Nat)
  | 0, _, _ => none
  | bound + 1, seen, text =>
      match text with
      | [] => some (seen, [])
      | c :: _ =>
          if c = u '|' || c = u ')' then some (seen, text)
          else
            match term? table bound text with
            | none => none
            | some (next, rest) => sequence? table bound (.seq seen next) rest

/-- One expression with its quantifier.  A quantifier without an expression is an error. -/
def term? (table : GroupTable) : Nat → List Nat → Option (Regex × List Nat)
  | 0, _ => none
  | _ + 1, [] => none
  | bound + 1, c :: rest =>
      if c = u '^' then some (.atStart, rest)
      else if c = u '$' then some (.atEnd, rest)
      else if c = u '(' then
        match opening? table rest with
        | none => none
        | some (opening, rest) =>
            match choices? table bound rest with
            | none => none
            | some (inner, rest) =>
                if rest.head? ≠ some (u ')') then none
                else
                  match opening with
                  | .plain => quantify? inner rest.tail
                  | .capturing number => quantify? (.group number inner) rest.tail
                  | .ahead negated => quantify? (.ahead negated inner) rest.tail
                  | .behind negated => some (.behind negated inner, rest.tail)
      else if c = u '.' then quantify? (.unit ⟨true, lineEndRanges⟩) rest
      else if c = u '[' then
        match class? table.named rest with
        | none => none
        | some (set, rest) => quantify? (.unit set) rest
      else if c = u '\\' then
        if rest.head? = some (u 'b') then some (.boundary false, rest.tail)
        else if rest.head? = some (u 'B') then some (.boundary true, rest.tail)
        else
          match escape? table rest with
          | none => none
          | some (inner, rest) => quantify? inner rest
      else if (quantifier? (c :: rest)).isSome then none
      else quantify? (.unit (only c)) rest

end

/-- Read the text of an expression. -/
def read? (text : List Nat) : Option Regex :=
  match choices? (GroupTable.ofText text) (4 * text.length + 8) text with
  | some (regex, []) => some (regex.keepGroups regex.references)
  | _ => none

end SuperCalls.Regex
