/-
Module: SuperCalls.Glob.Compile
Purpose: From a glob pattern to the text of the regular expression that it stands for.  The
  pattern is cut into tokens, and every token writes a part of the expression; what a star or
  a bracket means depends on the tokens before it, and a later character may change them.
Main exports: compile, makeExpression
-/
import SuperCalls.Failure
import SuperCalls.Glob.Expression
import SuperCalls.Glob.Repetition
import SuperCalls.Regex.Reader
import SuperCalls.Text.Units

namespace SuperCalls.Glob

/-!
### Tokens
-/

/-- The kinds of tokens. -/
inductive TokenKind where
  | beginning
  | text
  | star
  | globstar
  | slash
  | dot
  | dots
  | paren
  | bracket
  | brace
  | comma
  | question
  | plus
  | at
  | negation
  | trailingSlash
deriving Repr, DecidableEq

/-- A token: the characters it stands for, and its part of the expression where that differs
from them. -/
structure Token where
  kind : TokenKind
  value : String
  output : Option String
  /-- A star that stands for three or more. -/
  manyStars : Bool
  /-- A class that holds a named class. -/
  namedClass : Bool
  /-- Taken out of the expression again. -/
  dropped : Bool
deriving Repr

/-- A token of a kind. -/
def Token.of (kind : TokenKind) (value : String) (output : Option String) : Token :=
  ⟨kind, value, output, false, false, false⟩

/-- The part of a token in an expression that is put together anew. -/
def Token.part (token : Token) : String :=
  token.output.getD token.value

/-- The part of a token inside braces that turned out to be plain. -/
def Token.filled (token : Token) : String :=
  match token.output with
  | some "" => token.value
  | some output => output
  | none => token.value

/-- Braces that are open. -/
structure OpenBrace where
  /-- The length of the expression before them. -/
  outputLength : Nat
  /-- The number of tokens before them. -/
  tokenCount : Nat
  comma : Bool
  dots : Bool
deriving Repr

/-- The kinds of extended groups, by the character before the parenthesis. -/
inductive GroupKind where
  | negation
  | optional
  | some
  | many
deriving Repr, DecidableEq

/-- An extended group that is open. -/
structure OpenGroup where
  kind : GroupKind
  /-- The number of parentheses that were open around it. -/
  parens : Int
  /-- The characters inside it. -/
  inner : String
  /-- The number of characters before it. -/
  start : Nat
  /-- The expression before it. -/
  before : String
  /-- The number of tokens before it. -/
  tokenCount : Nat
deriving Repr

/-- What opens an extended group. -/
def GroupKind.opening : GroupKind → String
  | negation => "(?:(?!(?:"
  | _ => "(?:"

/-- What closes an extended group. -/
def GroupKind.closing : GroupKind → String
  | negation => "))" ++ star ++ ")"
  | optional => ")?"
  | some => ")+"
  | many => ")*"

/-- What a pair of symbols is about. -/
inductive Nesting where
  | brackets
  | parens
  | braces
deriving Repr, DecidableEq

/-- The state of the compilation. -/
structure Compiler where
  /-- Whether hidden names are found. -/
  dot : Bool
  /-- All characters of the pattern. -/
  pattern : List Char
  /-- The characters that are left. -/
  rest : List Char
  /-- The number of characters read, the current one included. -/
  read : Nat
  /-- The number of characters at the beginning that are no part of a name. -/
  start : Nat
  output : String
  /-- The tokens, the latest first. -/
  tokens : List Token
  negated : Bool
  /-- The expression has to be put together anew from the tokens. -/
  stale : Bool
  brackets : Nat
  parens : Int
  braces : Nat
  quoted : Bool
  openBraces : List OpenBrace
  openGroups : List OpenGroup
  nesting : List Nesting
  /-- A group was to be read as text when its first token was gone. -/
  broken : Bool

namespace Compiler

/-- The state before the first character. -/
def begin (dot : Bool) (pattern : List Char) : Compiler where
  dot := dot
  pattern := pattern
  rest := pattern
  read := 0
  start := 0
  output := ""
  tokens := [Token.of .beginning "" (some "")]
  negated := false
  stale := false
  brackets := 0
  parens := 0
  braces := 0
  quoted := false
  openBraces := []
  openGroups := []
  nesting := []
  broken := false

/-- The latest token. -/
def previous (c : Compiler) : Token :=
  c.tokens.headD (Token.of .beginning "" (some ""))

/-- Change the latest token. -/
def alterPrevious (c : Compiler) (change : Token → Token) : Compiler :=
  match c.tokens with
  | token :: tokens => { c with tokens := change token :: tokens }
  | [] => c

/-- The number of tokens that were not dropped. -/
def tokenCount (c : Compiler) : Nat :=
  (c.tokens.filter (!·.dropped)).length

/-- Change every token that was not dropped by its position, the first token being at position
zero. -/
def alterTokens (c : Compiler) (change : Nat → Token → Token) : Compiler :=
  { c with
    tokens := (c.tokens.reverse.foldl
      (fun (seen, n) token =>
        if token.dropped then (token :: seen, n) else (change n token :: seen, n + 1))
      (([] : List Token), 0)).1 }

/-- Read a number of characters. -/
def skip (c : Compiler) (n : Nat) : Compiler :=
  { c with rest := c.rest.drop n, read := c.read + n }

/-- Add to the expression. -/
def emit (c : Compiler) (text : String) : Compiler :=
  { c with output := c.output ++ text }

/-- Take back the end of the expression; with nothing to take back, all of it. -/
def retract (c : Compiler) (text : String) : Compiler :=
  { c with output := if text.isEmpty then "" else (c.output.dropEnd text.length).toString }

/-- Enter a pair of symbols. -/
def enter (c : Compiler) (what : Nesting) : Compiler :=
  let c := { c with nesting := what :: c.nesting }
  match what with
  | .brackets => { c with brackets := c.brackets + 1 }
  | .parens => { c with parens := c.parens + 1 }
  | .braces => { c with braces := c.braces + 1 }

/-- Leave a pair of symbols. -/
def leave (c : Compiler) (what : Nesting) : Compiler :=
  let c := { c with nesting := c.nesting.tail }
  match what with
  | .brackets => { c with brackets := c.brackets - 1 }
  | .parens => { c with parens := c.parens - 1 }
  | .braces => { c with braces := c.braces - 1 }

/-- Two stars that something other than a slash follows are a plain star. -/
def settleGlobstar (c : Compiler) (next : Token) (extended : Bool) : Compiler :=
  let inBraces := 0 < c.braces && (next.kind == .comma || next.kind == .brace)
  let inGroup := extended || (!c.openGroups.isEmpty && next.kind == TokenKind.paren)
  if c.previous.kind == .globstar && next.kind != .slash && next.kind != .paren && !inBraces
      && !inGroup then
    ((c.retract c.previous.part).alterPrevious fun token =>
      { token with kind := .star, value := "*", output := some star }).emit star
  else c

/-- Put a token behind the ones before it.  Two texts become one token, whose part in an
expression that is put together anew begins with the second of them if the first had none of
its own. -/
def pushPart (c : Compiler) (extended : Bool) (next : Token) : Compiler :=
  let c := c.settleGlobstar next extended
  let c :=
    match c.openGroups with
    | group :: groups =>
        if next.kind == TokenKind.paren then c
        else { c with openGroups := { group with inner := group.inner ++ next.value } :: groups }
    | [] => c
  let c := c.emit next.part
  if c.previous.kind == .text && next.kind == .text then
    c.alterPrevious fun token =>
      { token with
        value := token.value ++ next.value
        output := some (token.output.getD "" ++ next.value) }
  else { c with tokens := next :: c.tokens }

/-- Put a token behind the ones before it. -/
def push (c : Compiler) (kind : TokenKind) (value : String) (output : Option String) : Compiler :=
  c.pushPart false (Token.of kind value output)

/-- Put a token of an extended group behind the ones before it. -/
def pushExtended (c : Compiler) (kind : TokenKind) (value output : String) : Compiler :=
  c.pushPart true (Token.of kind value (some output))

/-- Put a text behind the tokens before it. -/
def pushText (c : Compiler) (value : String) : Compiler :=
  c.push .text value none

/-!
### Extended groups
-/

/-- Open an extended group; its parenthesis is the next character. -/
def openGroup (c : Compiler) (kind : GroupKind) (token : TokenKind) (value : String) : Compiler :=
  let group : OpenGroup := ⟨kind, c.parens, "", c.read - 1, c.output, c.tokenCount⟩
  let c := c.enter .parens
  let c := c.push token value (some (if c.output.isEmpty then someChar else ""))
  let c := (c.skip 1).pushExtended .paren "(" kind.opening
  { c with openGroups := group :: c.openGroups }

/-- Whether a text is a dot and more without dots, slashes and backslashes. -/
def isExtension (text : List Char) : Bool :=
  match text with
  | '.' :: more => !more.isEmpty && more.all fun c => c != '\\' && c != '/' && c != '.'
  | _ => false

/-- Close an extended group that stands for something else: its first token takes the place of
all of it, with an expression of its own. -/
def supplantGroup (c : Compiler) (group : OpenGroup) (literal output : String) : Compiler :=
  let c := { c with
    broken := c.broken || c.tokenCount ≤ group.tokenCount
    output := group.before ++ output
    stale := true }
  let c := c.alterTokens fun n token =>
    if n < group.tokenCount then token
    else if n = group.tokenCount then
      { token with kind := .text, value := literal, output := some output }
    else { token with value := "", output := some "" }
  (c.pushExtended .paren ")" "").leave .parens

/-- Close an extended group that stands for itself.  A negated group finds what follows it only
once: it must not match everything up to the end, nor up to an extension that follows it. -/
def endGroup (c : Compiler) (extension : List Char → String) (group : OpenGroup) : Compiler :=
  let output :=
    match group.kind with
    | .negation =>
        let inner := group.inner.toList
        let deep := 1 < inner.length && inner.contains '/'
        let stars := if deep then globstar c.dot else star
        if inner.contains '*' && isExtension c.rest then
          ")" ++ extension c.rest ++ ")" ++ stars ++ ")"
        else if deep || c.rest.all (· == ')') then ")$))" ++ stars
        else group.kind.closing
    | kind => kind.closing
  (c.pushExtended .paren ")" output).leave .parens

/-- Close an extended group; its parenthesis has been read.  A repeated group is judged by what
stands in it. -/
def closeGroup (c : Compiler) (extension : List Char → String) (group : OpenGroup) : Compiler :=
  let c := { c with openGroups := c.openGroups.tail }
  let literal := (c.pattern.take c.read).drop group.start
  let repeats := group.kind == .some || group.kind == .many
  match if repeats then Repetition.judge (literal.drop 2).dropLast else .sound with
  | .sound => c.endGroup extension group
  | .literal =>
      let literal := String.ofList literal
      c.supplantGroup group literal (escapeSpecial literal)
  | .run expression =>
      c.supplantGroup group (String.ofList literal)
        ((if group.before.isEmpty then someChar else "") ++ expression)

/-!
### Classes
-/

/-- The characters of a named class. -/
def namedClass? (name : String) : Option String :=
  match name with
  | "alnum" => some "a-zA-Z0-9"
  | "alpha" => some "a-zA-Z"
  | "ascii" => some "\\x00-\\x7F"
  | "blank" => some " \\t"
  | "cntrl" => some "\\x00-\\x1F\\x7F"
  | "digit" => some "0-9"
  | "graph" => some "\\x21-\\x7E"
  | "lower" => some "a-z"
  | "print" => some "\\x20-\\x7E "
  | "punct" => some "\\-!\"#$%&'()\\*+,./:;<=>?@[\\]^_`\x7b|\x7d~"
  | "space" => some " \\t\\r\\n\\v\\f"
  | "upper" => some "A-Z"
  | "word" => some "A-Za-z0-9_"
  | "xdigit" => some "A-Fa-f0-9"
  | _ => none

/-- The text before the last opening bracket, and the text behind the character after it. -/
def lastClass (value : List Char) : List Char × List Char :=
  let tail := (value.reverse.takeWhile (· != '[')).reverse
  (value.take (value.length - tail.length - 1), tail.drop 1)

/-- Name a class inside a class: the colon before its closing bracket is being read.  The
answer tells whether there is such a class. -/
def nameClass (c : Compiler) : Compiler × Bool :=
  let value := c.previous.value.toList
  let inner := value.drop 1
  if !inner.contains '[' then (c, false)
  else
    let c := c.alterPrevious fun token => { token with namedClass := true }
    if !inner.contains ':' then (c, false)
    else
      let (before, name) := lastClass value
      match namedClass? (String.ofList name) with
      | none => (c, false)
      | some characters =>
          let c := c.alterPrevious fun token =>
            { token with value := String.ofList before ++ characters }
          let tokens :=
            match c.tokens with
            | [token, first] =>
                if first.part.isEmpty then [token, { first with output := some someChar }]
                else [token, first]
            | tokens => tokens
          ({ c with stale := true, tokens := tokens }.skip 1, true)

/-- Read a character inside a class. -/
def classChar (c : Compiler) (value : String) : Compiler :=
  let (c, named) := if value = ":" then c.nameClass else (c, false)
  if named then c
  else
    let opened := c.previous.value = "[" || c.previous.value = "[^"
    let value :=
      if (value = "[" && c.rest.head? != some ':') || (value = "-" && c.rest.head? == some ']')
      then "\\" ++ value
      else if value = "]" && opened then "\\]"
      else if value = "!" && c.previous.value = "[" then "^"
      else value
    (c.alterPrevious fun token => { token with value := token.value ++ value }).emit value

/-- Close a class.  One without special characters is also found as it is written. -/
def closeClass (c : Compiler) : Compiler :=
  let c := c.leave .brackets
  let inner := c.previous.value.toList.drop 1
  let closing :=
    if !c.previous.namedClass && inner.head? == some '^' && !inner.contains '/' then "/]" else "]"
  let c := (c.alterPrevious fun token => { token with value := token.value ++ closing }).emit closing
  if inner.any isSpecial then c
  else
    let value := c.previous.value
    let both := "(?:" ++ escapeSpecial value ++ "|" ++ value ++ ")"
    ((c.retract value).alterPrevious fun token => { token with value := both }).emit both

/-!
### Braces
-/

/-- The class of a range between braces: its ends in order, joined by a hyphen; if that is no
class, its ends joined by two dots. -/
def rangeClass (ends : List String) : String :=
  let sorted := "[" ++ "-".intercalate (Text.Units.sort ends) ++ "]"
  if (Regex.read? (Text.Units.units sorted)).isSome then sorted
  else "..".intercalate ((Text.Units.sort ends).map escapeSpecial)

/-- Drop the tokens since the last brace; the answer holds the values of those that are no
dots. -/
def dropRange : List Token → List String → List Token × List String
  | [], ends => ([], ends)
  | token :: tokens, ends =>
      if token.dropped then
        let (tokens, ends) := dropRange tokens ends
        (token :: tokens, ends)
      else if token.kind == .brace then ({ token with dropped := true } :: tokens, ends)
      else
        let (tokens, ends) :=
          dropRange tokens (if token.kind == .dots then ends else token.value :: ends)
        ({ token with dropped := true } :: tokens, ends)

/-- Close braces.  Those without a comma and without a range stand for themselves. -/
def closeBrace (c : Compiler) (brace : OpenBrace) : Compiler :=
  let (c, output) :=
    if brace.dots then
      let (tokens, ends) := dropRange c.tokens []
      ({ c with tokens := tokens, stale := true }, rangeClass ends)
    else (c, ")")
  let c :=
    if !brace.comma && !brace.dots then
      let c := c.alterTokens fun n token =>
        if n = brace.tokenCount then { token with value := "\\\x7b", output := some "\\\x7b" }
        else token
      let inside := (c.tokens.reverse.filter (!·.dropped)).drop brace.tokenCount
      let c := { c with
        output := String.ofList (c.output.toList.take brace.outputLength)
          ++ String.join (inside.map Token.filled) }
      c.push .brace "\\\x7d" (some "\\\x7d")
    else c.push .brace "\x7d" (some output)
  { c.leave .braces with openBraces := c.openBraces.tail }

/-!
### Stars
-/

/-- Whether a list of characters begins with other ones. -/
def begins (text : List Char) (literal : String) : Bool :=
  literal.toList.isPrefixOf text

/-- Pass over repetitions of `/**`. -/
def skipGlobstars : Nat → Compiler → Compiler
  | 0, c => c
  | bound + 1, c =>
      if begins c.rest "/**" && (c.rest.drop 3).head?.all (· == '/') then
        skipGlobstars bound (c.skip 3)
      else c

/-- Make two stars of the latest token, which is one star. -/
def becomeGlobstar (c : Compiler) (output : String) : Compiler :=
  c.alterPrevious fun token =>
    { token with kind := .globstar, value := token.value ++ "*", output := some output }

/-- Put the part of the token before the latest one behind an open parenthesis. -/
def parenthesizePrior (c : Compiler) : Compiler :=
  match c.tokens with
  | token :: prior :: tokens =>
      { c with tokens := token :: { prior with output := some ("(?:" ++ prior.part) } :: tokens }
  | _ => c

/-- Read a second star. -/
def secondStar (c : Compiler) : Compiler :=
  let prior := c.tokens.tail.headD (Token.of .beginning "" (some ""))
  let before := c.tokens.tail.tail.head?
  let atStart := prior.kind == .slash || prior.kind == .beginning
  let afterStar := before.any fun token => token.kind == .star || token.kind == .globstar
  let inBrace := 0 < c.braces && (prior.kind == .comma || prior.kind == .brace)
  let inGroup := !c.openGroups.isEmpty && prior.kind == .paren
  if !atStart && prior.kind != .paren && !inBrace && !inGroup then
    c.push .star "*" (some "")
  else
    let c := skipGlobstars c.rest.length c
    let names := globstar c.dot
    let afterName := prior.kind == .slash && before.any (·.kind != .beginning)
    if prior.kind == .beginning && c.rest.isEmpty then
      { c.becomeGlobstar names with output := names }
    else if afterName && !afterStar && c.rest.isEmpty then
      let c := c.retract (prior.part ++ c.previous.part)
      ((c.becomeGlobstar (names ++ "|$)")).parenthesizePrior).emit
        ("(?:" ++ prior.part ++ names ++ "|$)")
    else if afterName && c.rest.head? == some '/' then
      let ending := if (c.rest.drop 1).isEmpty then "" else "|$"
      let output := names ++ slashText ++ "|" ++ slashText ++ ending ++ ")"
      let c := c.retract (prior.part ++ c.previous.part)
      let c := (c.becomeGlobstar output).parenthesizePrior.emit ("(?:" ++ prior.part ++ output)
      (c.skip 1).push .slash "/" (some "")
    else if prior.kind == .beginning && c.rest.head? == some '/' then
      let output := "(?:^|" ++ slashText ++ "|" ++ names ++ slashText ++ ")"
      let c := { c.becomeGlobstar output with output := output }
      (c.skip 1).push .slash "/" (some "")
    else
      ((c.retract c.previous.part).becomeGlobstar names).emit names

/-- Add to the expression and to the part of the latest token. -/
def guard (c : Compiler) (text : String) : Compiler :=
  (c.alterPrevious fun token => { token with output := some (token.output.getD "" ++ text) }).emit
    text

/-- Read a first star.  At the beginning of a name it finds no hidden name. -/
def firstStar (c : Compiler) : Compiler :=
  let previous := c.previous.kind
  let c :=
    if c.read = c.start + 1 || previous == .slash || previous == .dot then
      let c :=
        c.guard (if previous == .dot then noDotEnd else if c.dot then noDotsName else noDot)
      if c.rest.head? != some '*' then c.guard someChar else c
    else c
  c.push .star "*" (some star)

/-- Read a star. -/
def readStar (c : Compiler) : Compiler :=
  if c.previous.kind == .globstar || c.previous.manyStars then
    { c.alterPrevious fun token =>
        { token with
          kind := .star, manyStars := true, value := token.value ++ "*", output := some star } with
      stale := true }
  else if begins c.rest "(" && (c.rest.drop 1).head?.any (· != '?') then
    c.openGroup .many .star "*"
  else if c.previous.kind == .star then c.secondStar
  else c.firstStar

/-!
### Other characters
-/

/-- Whether the next character opens a group that is no expression group. -/
def opensGroup (c : Compiler) : Bool :=
  c.rest.head? == some '(' && (c.rest.drop 1).head? != some '?'

/-- Whether a character may follow the question mark of an expression group. -/
def isGroupMark (c : Option Char) : Bool :=
  c.any fun c => c == '!' || c == '=' || c == '<' || c == ':'

/-- Whether a text holds the beginning of a look back or the name of a group. -/
def holdsGroupName (text : List Char) : Bool :=
  match Regex.read? (Text.Units.units "<([!=]|\\w+>)") with
  | some regex => regex.occursIn (Text.Units.units (String.ofList text))
  | none => false

/-- Read a question mark. -/
def readQuestion (c : Compiler) : Compiler :=
  let previous := c.previous
  if previous.value ≠ "(" && c.opensGroup then c.openGroup .optional .question "?"
  else if previous.kind == .paren then
    let next := c.rest.head?
    let plain := (previous.value = "(" && !isGroupMark next)
      || (next == some '<' && !holdsGroupName c.rest)
    c.push .text "?" (some (if plain then "\\?" else "?"))
  else if !c.dot && (previous.kind == .slash || previous.kind == .beginning) then
    c.push .question "?" (some nameCharNoDot)
  else c.push .question "?" (some nameChar)

/-- Read exclamation marks at the beginning: an odd number of them negates the pattern. -/
def negate : Nat → Bool → Compiler → Compiler
  | 0, _, c => c
  | bound + 1, odd, c =>
      if c.rest.head? == some '!'
          && ((c.rest.drop 1).head? != some '(' || (c.rest.drop 2).head? == some '?') then
        negate bound (!odd) { c.skip 1 with start := c.start + 1 }
      else if odd then { c with negated := true, start := c.start + 1 }
      else c

/-- Read a plus sign. -/
def readPlus (c : Compiler) : Compiler :=
  let previous := c.previous
  if c.opensGroup then c.openGroup .some .plus "+"
  else if previous.value = "(" then c.push .plus "+" (some "\\+")
  else if previous.kind == .bracket || previous.kind == .paren || previous.kind == .brace
      || 0 < c.parens then
    c.push .plus "+" none
  else c.push .plus "\\+" none

/-- Read a text: a character and the plain ones behind it. -/
def readText (c : Compiler) (value : Char) : Compiler :=
  let plain := c.rest.takeWhile fun c => !"@![].,$*+?^\x7b\x7d()|\\/".toList.contains c
  let head := if value = '$' || value = '^' then ['\\', value] else [value]
  (c.skip plain.length).pushText (String.ofList (head ++ plain))

/-- Read a dot. -/
def readDot (c : Compiler) : Compiler :=
  let previous := c.previous
  if 0 < c.braces && previous.kind == .dot then
    let c := c.alterPrevious fun token =>
      { token with
        kind := .dots
        value := token.value ++ "."
        output := some ((if token.value = "." then dotText else token.part) ++ ".") }
    match c.openBraces with
    | brace :: braces => { c with openBraces := { brace with dots := true } :: braces }
    | [] => c
  else if (c.braces : Int) + c.parens = 0 && previous.kind != .beginning && previous.kind != .slash
  then c.push .text "." (some dotText)
  else c.push .dot "." (some dotText)

/-- Read a slash.  A `./` at the beginning is passed over. -/
def readSlash (c : Compiler) : Compiler :=
  if c.previous.kind == .dot && c.read = c.start + 2 then
    { c with start := c.read, output := "", tokens := c.tokens.tail }
  else c.push .slash "/" (some slashText)

/-- Read a comma. -/
def readComma (c : Compiler) : Compiler :=
  match c.openBraces with
  | brace :: braces =>
      if c.nesting.head? == some .braces then
        { c with openBraces := { brace with comma := true } :: braces }.push .comma "," (some "|")
      else c.push .comma "," (some ",")
  | [] => c.push .comma "," (some ",")

/-- Read a closing parenthesis. -/
def closeParen (c : Compiler) (extension : List Char → String) : Compiler :=
  let plain (c : Compiler) : Compiler :=
    (c.push .paren ")" (some (if c.parens = 0 then "\\)" else ")"))).leave .parens
  match c.openGroups with
  | group :: _ => if c.parens = group.parens + 1 then c.closeGroup extension group else plain c
  | [] => plain c

/-- Read an opening bracket: without a closing one behind it, it stands for itself. -/
def openBracket (c : Compiler) : Compiler :=
  if c.rest.contains ']' then (c.enter .brackets).push .bracket "[" none
  else c.push .bracket "\\[" none

/-- Read a closing bracket. -/
def closeBracket (c : Compiler) : Compiler :=
  if (c.previous.kind == .bracket && c.previous.value.length = 1) || c.brackets = 0 then
    c.push .text "]" (some "\\]")
  else c.closeClass

/-- Read an opening brace. -/
def openBrace (c : Compiler) : Compiler :=
  let c := c.enter .braces
  let brace : OpenBrace := ⟨c.output.length, c.tokenCount, false, false⟩
  { c with openBraces := brace :: c.openBraces }.push .brace "\x7b" (some "(")

/-- Read a backslash.  The answer is what to read in its place, if anything is left to read.
Three or more backslashes behind it count as one or none. -/
def readBackslash (c : Compiler) : Compiler × Option String :=
  match c.rest.head? with
  | none => (c.pushText "\\\\", none)
  | some next =>
      if next = '/' || next = '.' || next = ';' then (c, none)
      else
        let run := (c.rest.takeWhile (· == '\\')).length
        let (c, value) :=
          if 2 < run then (c.skip run, if run % 2 = 0 then "\\" else "\\\\") else (c, "\\")
        let value := value ++ String.ofList (c.rest.take 1)
        let c := c.skip (min 1 c.rest.length)
        if c.brackets = 0 then (c.pushText value, none) else (c, some value)

/-- Read a character outside classes and quotations. -/
def readPlain (c : Compiler) (extension : List Char → String) (value : Char) : Compiler :=
  if value = '"' then { c with quoted := !c.quoted }
  else if value = '(' then (c.enter .parens).push .paren "(" none
  else if value = ')' then c.closeParen extension
  else if value = '[' then c.openBracket
  else if value = ']' then c.closeBracket
  else if value = '\x7b' then c.openBrace
  else if value = '\x7d' then
    match c.openBraces with
    | brace :: _ => c.closeBrace brace
    | [] => c.push .text "\x7d" (some "\x7d")
  else if value = '|' then c.pushText "|"
  else if value = ',' then c.readComma
  else if value = '/' then c.readSlash
  else if value = '.' then c.readDot
  else if value = '?' then c.readQuestion
  else if value = '!' && c.rest.head? == some '('
      && ((c.rest.drop 1).head? != some '?' || !isGroupMark (c.rest.drop 2).head?) then
    c.openGroup .negation .negation "!"
  else if value = '!' && c.read = 1 then negate (c.rest.length + 1) true c
  else if value = '+' then c.readPlus
  else if value = '@' then
    if c.opensGroup then c.pushExtended .at "@" "" else c.pushText "@"
  else if value = '*' then c.readStar
  else c.readText value

/-- Read what stands for one character: the character itself, or an escaped one inside a
class. -/
def readValue (c : Compiler) (extension : List Char → String) (value : String) : Compiler :=
  let opened := c.previous.value = "[" || c.previous.value = "[^"
  if 0 < c.brackets && (value ≠ "]" || opened) then c.classChar value
  else if c.quoted && value ≠ "\"" then
    let value := escapeSpecial value
    (c.alterPrevious fun token => { token with value := token.value ++ value }).emit value
  else
    match value.toList with
    | [char] => c.readPlain extension char
    | _ => c

/-- Read the characters that are left. -/
def readAll (extension : List Char → String) : Nat → Compiler → Compiler
  | 0, c => c
  | bound + 1, c =>
      match c.rest with
      | [] => c
      | char :: _ =>
          let c := c.skip 1
          if char.toNat = 0 then readAll extension bound c
          else if char = '\\' then
            match c.readBackslash with
            | (c, none) => readAll extension bound c
            | (c, some value) => readAll extension bound (c.readValue extension value)
          else readAll extension bound (c.readValue extension (String.ofList [char]))

/-!
### The end
-/

/-- Escape the last one of a symbol that is not escaped; the text is given in reverse. -/
def escapeLast (symbol : Char) : List Char → Option (List Char)
  | [] => none
  | c :: rest =>
      if c = symbol && rest.head? != some '\\' then some (c :: '\\' :: rest)
      else (escapeLast symbol rest).map (c :: ·)

/-- Escape the last symbols of a kind, a number of times. -/
def escapeOpen (symbol : Char) : Nat → String → String
  | 0, text => text
  | n + 1, text =>
      escapeOpen symbol n
        (match escapeLast symbol text.toList.reverse with
        | some text => String.ofList text.reverse
        | none => text)

/-- End the compilation: symbols that were never closed stand for themselves, and a slash may
follow a star or a class at the end. -/
def finish (c : Compiler) : Compiler :=
  let output := escapeOpen '[' c.brackets c.output
  let output := escapeOpen '(' c.parens.toNat output
  let output := escapeOpen '\x7b' c.braces output
  let c := { c with output := output, brackets := 0, parens := min c.parens 0, braces := 0 }
  let c :=
    if c.previous.kind == .star || c.previous.kind == .bracket then
      c.push .trailingSlash "" (some (slashText ++ "?"))
    else c
  if c.stale then
    { c with output := String.join ((c.tokens.reverse.filter (!·.dropped)).map Token.part) }
  else c

/-- Compile a pattern; `extension` compiles what follows a negated group. -/
def ofPattern (extension : List Char → String) (dot : Bool) (pattern : List Char) : Compiler :=
  (readAll extension (pattern.length + 1) (begin dot pattern)).finish

end Compiler

/-- What a pattern was compiled to. -/
structure Compiled where
  /-- The text of the expression. -/
  text : String
  negated : Bool
deriving Repr, DecidableEq

/-- Compile a pattern.  Simple patterns may be compiled on their own terms. -/
def compile (dot : Bool) (pattern : String) : Except Failure Compiled :=
  let pattern := (withoutHere (canonical pattern)).toList
  if isSimple pattern then .ok ⟨quickExpression dot pattern, false⟩
  else
    let extension (text : List Char) : String := (Compiler.ofPattern (fun _ => "") dot text).output
    let c := Compiler.ofPattern extension dot pattern
    if c.broken then
      .error (.plain .typeError "Cannot set properties of undefined (setting 'type')")
    else .ok ⟨c.output, c.negated⟩

/-- The greatest length of a pattern. -/
def patternLimit : Nat := 65536

/-- The text of the expression that finds the paths of a pattern. -/
def expressionText (dot : Bool) (pattern : String) : Except Failure String := do
  let length := (Text.Units.units pattern).length
  if pattern = "" then throw (.plain .typeError "Expected a non-empty string")
  if patternLimit < length then
    throw (.plain .syntaxError
      s!"Input length: {length}, exceeds maximum allowed length: {patternLimit}")
  let common :=
    if pattern.toList.head? == some '.' || pattern.toList.head? == some '*' then
      shortExpression? dot pattern
    else none
  let compiled ←
    match common with
    | some text => pure ⟨text, false⟩
    | none => compile dot pattern
  let whole := "^(?:" ++ compiled.text ++ ")$"
  return if compiled.negated then "^(?!" ++ whole ++ ").*$" else whole

/-- The expression that finds the paths of a pattern; none if its text is no expression, in
which case no path is found. -/
def makeExpression (dot : Bool) (pattern : String) : Except Failure (Option Regex) := do
  let text ← expressionText dot pattern
  return Regex.read? (Text.Units.units text)

end SuperCalls.Glob
