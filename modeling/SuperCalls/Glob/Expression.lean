/-
Module: SuperCalls.Glob.Expression
Purpose: The building blocks of the regular expressions that glob patterns stand for, and the
  patterns simple enough to be put together from them directly.
Main exports: star, globstar, quickExpression, shortExpression?
-/
import SuperCalls.Text.Blank

namespace SuperCalls.Glob

/-!
### Building blocks

A name never contains a slash.  A name that starts with a dot is hidden: wildcards find it only
where hidden names are asked for, and then still not the names `.` and `..`.
-/

/-- The expression of a dot. -/
def dotText : String := "\\."

/-- The expression of a slash. -/
def slashText : String := "\\/"

/-- Something follows. -/
def someChar : String := "(?=.)"

/-- One character of a name. -/
def nameChar : String := "[^/]"

/-- One character of a name, but no dot. -/
def nameCharNoDot : String := "[^.\\/]"

/-- Characters of a name. -/
def star : String := "[^/]*?"

/-- The end of a name. -/
def nameEnd : String := "(?:\\/|$)"

/-- The beginning of a name. -/
def nameStart : String := "(?:^|\\/)"

/-- The name `.` or `..`. -/
def dotsName : String := "\\.\x7b1,2\x7d" ++ nameEnd

/-- No hidden name. -/
def noDot : String := "(?!\\.)"

/-- No name `.` or `..` anywhere ahead. -/
def noDotsAhead : String := "(?!" ++ nameStart ++ dotsName ++ ")"

/-- Not the end of a name, with or without a dot. -/
def noDotEnd : String := "(?!\\.\x7b0,1\x7d" ++ nameEnd ++ ")"

/-- Not the name `.` or `..`. -/
def noDotsName : String := "(?!" ++ dotsName ++ ")"

/-- Any names and the slashes between them. -/
def globstar (dot : Bool) : String :=
  "(?:(?:(?!" ++ nameStart ++ (if dot then dotsName else dotText) ++ ").)*?)"

/-- Whether a character has a meaning of its own in an expression. -/
def isSpecial (c : Char) : Bool :=
  "-*+?.^$\x7b\x7d(|)[]".toList.contains c

/-- A text with its special characters escaped. -/
def escapeSpecial (text : String) : String :=
  String.ofList (text.toList.flatMap fun c => if isSpecial c then ['\\', c] else [c])

/-!
### Simple patterns

A pattern without slashes, brackets, parentheses, braces and quotes that does not begin with a
wildcard is spelled out character by character.
-/

/-- A run of characters of one kind, and the rest. -/
def runOf (c : Char) (text : List Char) : Nat × List Char :=
  ((text.takeWhile (· == c)).length, text.dropWhile (· == c))

/-- A text several times. -/
def times (n : Nat) (s : String) : String :=
  String.join (List.replicate n s)

/-- The expression of a run of one special character behind a backslash, or of any other one;
the number is the length of the run. -/
def specialRun (dot first escaped : Bool) (c : Char) (length : Nat) : String :=
  let run := times length (String.ofList [c])
  if c = '?' then
    if escaped then "\\?" ++ times (length - 1) nameChar
    else if first then (if dot then nameChar else nameCharNoDot) ++ times (length - 1) nameChar
    else times length nameChar
  else if c = '.' then times length dotText
  else if c = '*' then
    if escaped then "\\*" ++ (if 1 < length then star else "") else star
  else "\\" ++ run

/-- Spell out a pattern run by run.  A backslash before a word character stays, and so does a run
of backslashes. -/
def spellRuns (dot : Bool) : Nat → Bool → List Char → String
  | 0, _, _ => ""
  | _ + 1, _, [] => ""
  | bound + 1, first, c :: rest =>
      if Text.isWord c then String.ofList [c] ++ spellRuns dot bound false rest
      else if c = '\\' then
        match rest with
        | d :: _ =>
            if Text.isWord d then "\\" ++ spellRuns dot bound false rest
            else
              let (length, rest) := runOf d rest
              (if d = '\\' then "\\" ++ times length "\\" else specialRun dot false true d length)
                ++ spellRuns dot bound false rest
        | [] => "\\"
      else
        let (length, rest) := runOf c (c :: rest)
        specialRun dot first false c length ++ spellRuns dot bound false rest

/-- Shorten every run of backslashes to two if it is even, and to one if it is odd. -/
def shortenBackslashes : Nat → List Char → List Char
  | 0, text => text
  | _ + 1, [] => []
  | bound + 1, c :: rest =>
      if c = '\\' then
        let (length, rest) := runOf '\\' (c :: rest)
        (if length % 2 = 0 then ['\\', '\\'] else ['\\']) ++ shortenBackslashes bound rest
      else c :: shortenBackslashes bound rest

/-- Whether a backslash of a pattern escapes no special character: it stands before a word
character, before another backslash, or at the end. -/
def hasPlainBackslash : List Char → Bool
  | [] => false
  | '\\' :: [] => true
  | '\\' :: c :: rest =>
      if Text.isWord c || c = '\\' then true else hasPlainBackslash rest
  | _ :: rest => hasPlainBackslash rest

/-- Whether a pattern is simple. -/
def isSimple (pattern : List Char) : Bool :=
  pattern.head? != some '*' && pattern.head? != some '!'
    && !pattern.any fun c => "/()[]\x7b\x7d\"".toList.contains c

/-- The expression of a simple pattern. -/
def quickExpression (dot : Bool) (pattern : List Char) : String :=
  let text := spellRuns dot (pattern.length + 1) true pattern
  let text :=
    if hasPlainBackslash pattern then
      String.ofList (shortenBackslashes (text.toList.length + 1) text.toList)
    else text
  "^(?:" ++ text ++ ")$"

/-!
### Common patterns

Some patterns that begin with a dot or a star are so common that their expressions are written
down.  An extension may follow them.
-/

/-- The expressions that are written down. -/
def commonExpression? (dot : Bool) (pattern : String) : Option String :=
  let hidden := if dot then noDotsAhead else noDot
  let hiddenName := if dot then noDotsName else noDot
  let directories := "(?:" ++ hidden ++ globstar dot ++ slashText ++ ")?"
  match pattern with
  | "*" => some (hidden ++ someChar ++ star)
  | ".*" => some (dotText ++ someChar ++ star)
  | "*.*" => some (hidden ++ star ++ dotText ++ someChar ++ star)
  | "*/*" => some (hidden ++ star ++ slashText ++ someChar ++ hiddenName ++ star)
  | "**" => some (hidden ++ globstar dot)
  | "**/*" => some (directories ++ hiddenName ++ someChar ++ star)
  | "**/*.*" => some (directories ++ hiddenName ++ star ++ dotText ++ someChar ++ star)
  | "**/.*" => some (directories ++ dotText ++ someChar ++ star)
  | _ => none

/-- A pattern cut before an extension of word characters: the first place from where on the
rest of the pattern is a dot and word characters. -/
def cutExtension? : List Char → Option (List Char × List Char)
  | [] => none
  | c :: rest =>
      if c = '.' && !rest.isEmpty && rest.all Text.isWord then some ([], rest)
      else if Text.isLineEnd c then none
      else (cutExtension? rest).map fun (name, extension) => (c :: name, extension)

/-- The expression of a common pattern with any number of extensions. -/
def withExtensions? (dot : Bool) : Nat → String → Option String
  | 0, _ => none
  | bound + 1, pattern =>
      match commonExpression? dot pattern with
      | some text => some text
      | none => do
          let (name, extension) ← cutExtension? pattern.toList
          let text ← withExtensions? dot bound (String.ofList name)
          some (text ++ dotText ++ String.ofList extension)

/-- Patterns that are read as other ones. -/
def canonical (pattern : String) : String :=
  if pattern = "***" then "*"
  else if pattern = "**/**" || pattern = "**/**/**" then "**"
  else pattern

/-- The pattern without a leading `./`. -/
def withoutHere (pattern : String) : String :=
  match pattern.toList with
  | '.' :: '/' :: rest => String.ofList rest
  | _ => pattern

/-- The expression of a common pattern, with a slash allowed at the end. -/
def shortExpression? (dot : Bool) (pattern : String) : Option String :=
  let pattern := withoutHere (canonical pattern)
  (withExtensions? dot (pattern.length + 1) pattern).map (· ++ slashText ++ "?")

end SuperCalls.Glob
