/-
Module: SuperCalls.Glob.Magic
Purpose: Telling patterns from plain paths: whether a pattern has to be searched for at all,
  and the directory that its search starts from.
Main exports: isDynamic, hasMagic, baseDirectory
-/
import SuperCalls.Regex.Reader
import SuperCalls.Text.Blank
import SuperCalls.Text.Units

namespace SuperCalls.Glob

/-- Whether the expression of a text finds something in another text. -/
def finds (expression text : String) : Bool :=
  match Regex.read? (Text.Units.units expression) with
  | some regex => regex.occursIn (Text.Units.units text)
  | none => false

/-!
### Patterns that have to be searched for
-/

/-- The first place of a character from a position on. -/
def placeOf (c : Char) (text : List Char) (start : Nat) : Option Nat :=
  ((text.drop start).findIdx? (· == c)).map (· + start)

/-- Whether a pattern holds braces with a comma or two dots before the first closing one. -/
def hasAlternatives (pattern : String) : Bool :=
  let inside := (pattern.toList.dropWhile (· != '\x7b'))
  inside.contains '\x7d' && finds ",|\\.\\." (String.ofList (inside.takeWhile (· != '\x7d')))

/-- Whether a pattern may stand for more than one path. -/
def isDynamic (pattern : String) : Bool :=
  pattern.toList.contains '\\'
    || finds "[*?]|^!" pattern
    || finds "\\[[^[]*]" pattern
    || finds "(?:^|[^!*+?@])\\([^(]*\\|[^|]*\\)" pattern
    || finds "[!*+?@]\\([^(]*\\)" pattern
    || hasAlternatives pattern

/-!
### Magic

A path has magic if it holds an extended group or, outside escapes, a wildcard, a class, braces
or a group.  The places of closing symbols found once are kept: `-2` before the first look,
`-1` where there is none.
-/

/-- Whether a path holds an extended group on one line that no backslash escapes. -/
def hasExtendedGroup : List Char → Bool
  | [] => false
  | '\\' :: c :: rest =>
      if Text.isLineEnd c then hasExtendedGroup (c :: rest) else hasExtendedGroup rest
  | c :: rest =>
      ("@?!+*".toList.contains c && rest.head? == some '('
          && (rest.takeWhile (!Text.isLineEnd ·)).contains ')')
        || hasExtendedGroup rest

/-- The places that were looked up so far. -/
structure Places where
  pipe : Int
  square : Int
  curly : Int
  paren : Int
  backslash : Int
deriving Repr

/-- The first place of a character from a position on, or `-1`. -/
def lookUp (text : List Char) (c : Char) (start : Int) : Int :=
  match placeOf c text start.toNat with
  | some n => n
  | none => -1

/-- Whether there is no backslash before a place. -/
def Places.clear (places : Places) (place : Int) : Bool :=
  places.backslash = -1 || place < places.backslash

/-- Look for a class. -/
def Places.square? (p : Places) (text : List Char) (i : Int) : Places × Bool :=
  let p := if p.square < i then { p with square := lookUp text ']' i } else p
  if i < p.square then
    if p.clear p.square then (p, true)
    else
      let p := { p with backslash := lookUp text '\\' i }
      (p, p.clear p.square)
  else (p, false)

/-- Look for braces. -/
def Places.curly? (p : Places) (text : List Char) (i : Int) : Places × Bool :=
  let p := { p with curly := lookUp text '\x7d' i }
  if i < p.curly then
    let p := { p with backslash := lookUp text '\\' i }
    (p, p.clear p.curly)
  else (p, false)

/-- Look for an expression group. -/
def Places.paren? (p : Places) (text : List Char) (i : Int) : Places × Bool :=
  let p := { p with paren := lookUp text ')' i }
  if i < p.paren then
    let p := { p with backslash := lookUp text '\\' i }
    (p, p.clear p.paren)
  else (p, false)

/-- Look for a group with alternatives. -/
def Places.pipe? (p : Places) (text : List Char) (i : Int) : Places × Bool :=
  let p := if p.pipe < i then { p with pipe := lookUp text '|' i } else p
  if p.pipe != -1 && (text.drop (p.pipe.toNat + 1)).head? != some ')' then
    let p := { p with paren := lookUp text ')' p.pipe }
    if p.pipe < p.paren then
      let p := { p with backslash := lookUp text '\\' p.pipe }
      (p, p.clear p.paren)
    else (p, false)
  else (p, false)

/-- The symbol that closes another one. -/
def closing? (c : Char) : Option Char :=
  if c = '\x7b' then some '\x7d'
  else if c = '(' then some ')'
  else if c = '[' then some ']'
  else none

/-- The place behind an escaped character; what it opens is passed over as well. -/
def behindEscape (text : List Char) (i : Nat) : Nat :=
  match ((text.drop (i + 1)).head?).bind closing? with
  | some close =>
      match placeOf close text (i + 2) with
      | some n => n + 1
      | none => i + 2
  | none => i + 2

/-- Look for magic from a position on. -/
def magicFrom (text : List Char) : Nat → Places → Nat → Bool
  | 0, _, _ => false
  | bound + 1, p, i =>
      match text.drop i with
      | [] => false
      | c :: rest =>
          let next := rest.head?
          if c = '*' then true
          else if next == some '?' && "].+)".toList.contains c then true
          else
            let (p, found) :=
              if p.square != -1 && c = '[' && next != some ']' then p.square? text i else (p, false)
            if found then true
            else
              let (p, found) :=
                if p.curly != -1 && c = '\x7b' && next != some '\x7d' then p.curly? text i
                else (p, false)
              if found then true
              else
                let mark := (rest.drop 1).head?
                let (p, found) :=
                  if p.paren != -1 && c = '(' && next == some '?'
                      && mark.any (fun m => m == ':' || m == '!' || m == '=')
                      && (rest.drop 2).head? != some ')' then p.paren? text i
                  else (p, false)
                if found then true
                else
                  let (p, found) :=
                    if p.pipe != -1 && c = '(' && next != some '|' then p.pipe? text i else (p, false)
                  if found then true
                  else if c = '\\' then
                    let i := behindEscape text i
                    (text.drop i).head? == some '!' || magicFrom text bound p i
                  else magicFrom text bound p (i + 1)

/-- Whether a path has magic. -/
def hasMagic (path : String) : Bool :=
  let text := path.toList
  hasExtendedGroup text || text.head? == some '!'
    || magicFrom text (text.length + 1) ⟨-2, -2, -2, -2, -2⟩ 0

/-!
### The base directory

The base directory of a pattern is the longest beginning of it, up to a slash, that has no
magic and leaves no bracket, brace or parenthesis open.
-/

/-- The path without its last name and the slash before it; `.` if there is no slash. -/
def directoryOf (path : List Char) : List Char :=
  match path.reverse.dropWhile (· == '/') with
  | [] => ['/']
  | reversed =>
      match reversed.dropWhile (· != '/') with
      | [] => ['.']
      | [_] => ['/']
      | [_, '/'] => ['/', '/']
      | _ :: directory => directory.reverse

/-- Whether a path leaves a symbol open. -/
def isOpen (path : List Char) : Bool :=
  finds "(^|[^\\\\])([\\\x7b\\[]|\\([^\\)]+$)" (String.ofList path)

/-- Drop names until nothing special is left. -/
def plainDirectory : Nat → List Char → List Char
  | 0, path => path
  | bound + 1, path =>
      let directory := directoryOf path
      if hasMagic (String.ofList directory) || isOpen directory then plainDirectory bound directory
      else directory

/-- A path without the backslashes that escape a special character. -/
def unescape : List Char → List Char
  | '\\' :: c :: rest =>
      if "!*?|[]()\x7b\x7d".toList.contains c then c :: unescape rest else '\\' :: unescape (c :: rest)
  | c :: rest => c :: unescape rest
  | [] => []

/-- The directory that the search for a pattern starts from. -/
def baseDirectory (pattern : String) : String :=
  let path := pattern.toList
  let enclosed := finds "[\\\x7b\\[].*[\\\x7d\\]]$" pattern
  let path := path ++ (if enclosed then ['/'] else []) ++ ['a']
  String.ofList (unescape (plainDirectory (path.length + 1) path))

end SuperCalls.Glob
