/-
Module: SuperCalls.Glob.Parts
Purpose: Cutting a pattern at its slashes.  Slashes inside braces, brackets and parentheses
  are no cuts.
Main exports: parts
-/

namespace SuperCalls.Glob

/-- The state of the search for cuts. -/
structure Cutting where
  /-- The characters that are left. -/
  rest : List Char
  /-- The position of the character before them. -/
  index : Int
  /-- That character. -/
  code : Option Char
  /-- The number of characters at the beginning that are no part of a name. -/
  start : Nat
  /-- The positions of the cuts, the latest first. -/
  cuts : List Nat
  /-- A wildcard has been passed. -/
  finished : Bool
  magic : Bool
  escapedBrace : Bool
  braces : Nat

namespace Cutting

/-- Go on by a character. -/
def advance (s : Cutting) : Cutting :=
  { s with rest := s.rest.tail, index := s.index + 1, code := s.rest.head? }

/-- Whether the character is the null character, at which every pair of symbols ends. -/
def atNull (s : Cutting) : Bool :=
  s.code == some (Char.ofNat 0)

/-- Pass over braces up to the one that closes them. -/
def passBraces : Nat → Cutting → Cutting
  | 0, s => s
  | bound + 1, s =>
      if s.rest.isEmpty then s
      else
        let s := s.advance
        if s.atNull then s
        else if s.code == some '\\' then passBraces bound s.advance
        else if s.code == some '\x7b' then passBraces bound { s with braces := s.braces + 1 }
        else
          let dotted := !s.escapedBrace && s.code == some '.'
          let s := if dotted then s.advance else s
          if (dotted && s.code == some '.') || (!s.escapedBrace && s.code == some ',') then
            passBraces bound { s with magic := true, finished := true }
          else if s.code == some '\x7d' then
            if s.braces = 1 then { s with braces := 0, escapedBrace := false, finished := true }
            else passBraces bound { s with braces := s.braces - 1 }
          else passBraces bound s

/-- Pass over characters up to a closing one. -/
def passUpTo (escape close : Char) (found : Cutting → Cutting) : Nat → Cutting → Cutting
  | 0, s => s
  | bound + 1, s =>
      if s.rest.isEmpty then s
      else
        let s := s.advance
        if s.atNull then s
        else if s.code == some escape then passUpTo escape close found bound s.advance
        else if s.code == some close then found s
        else passUpTo escape close found bound s

/-- Whether a character may stand before an extended group. -/
def isGroupMark (c : Option Char) : Bool :=
  c.any fun c => "+@*?!".toList.contains c

/-- Look at the next character. -/
def look (s : Cutting) : Cutting :=
  let previous := s.code
  let s := s.advance
  let bound := s.rest.length + 1
  let atStart := s.index = (s.start : Int)
  if s.code == some '\\' then
    let s := s.advance
    if s.code == some '\x7b' then { s with escapedBrace := true } else s
  else if s.escapedBrace || s.code == some '\x7b' then
    passBraces bound { s with braces := s.braces + 1 }
  else if s.code == some '/' then
    let s := { s with cuts := s.index.toNat :: s.cuts }
    if !s.finished && previous == some '.' && s.index = (s.start : Int) + 1 then
      { s with start := s.start + 2 }
    else s
  else if isGroupMark s.code && s.rest.head? == some '(' then
    passUpTo '\\' ')' id bound { s with magic := true, finished := true }
  else if s.code == some '*' || s.code == some '?' then { s with magic := true, finished := true }
  else if s.code == some '[' then
    passUpTo '\\' ']' (fun s => { s with magic := true, finished := true }) bound s
  else if s.code == some '!' && atStart then { s with start := s.start + 1 }
  else if s.code == some '(' then
    passUpTo '(' ')' (fun s => { s with finished := true }) bound { s with magic := true }
  else if s.magic then { s with finished := true }
  else s

/-- Look at the characters that are left. -/
def lookAll : Nat → Cutting → Cutting
  | 0, s => s
  | bound + 1, s => if s.rest.isEmpty then s else lookAll bound s.look

end Cutting

/-- The text from one position up to another one. -/
def sliceText (text : List Char) (low high : Nat) : String :=
  String.ofList ((text.take high).drop low)

/-- The texts between cuts.  A cut at the very beginning leaves its slash on the first text. -/
def partsBetween (text : List Char) (start : Nat) : Bool → Nat → List Nat → List String
  | _, last, [] =>
      if last ≠ 0 && last + 1 < text.length then [sliceText text (last + 1) text.length] else []
  | first, last, cut :: cuts =>
      let value := sliceText text (if last = 0 then start else last + 1) cut
      let more := partsBetween text start false cut cuts
      if first && value = "" then more else value :: more

/-- The parts of a pattern.  A leading slash is a part of its own. -/
def parts (pattern : String) : List String :=
  let text := pattern.toList
  let s := Cutting.lookAll (text.length + 1) ⟨text, -1, none, 0, [], false, false, false, 0⟩
  let found := partsBetween text s.start true 0 s.cuts.reverse
  match if found.isEmpty then [pattern] else found with
  | [] => []
  | first :: more =>
      match first.toList with
      | '/' :: name => "" :: String.ofList name :: more
      | _ => first :: more

end SuperCalls.Glob
