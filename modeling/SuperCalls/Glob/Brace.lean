/-
Module: SuperCalls.Glob.Brace
Purpose: Brace expansion: `a{b,c}d` stands for `abd` and `acd`, and `{1..3}` for `1`, `2` and
  `3`.  Braces that hold neither a comma nor a range stay as they are, and so do braces behind
  a dollar sign and braces without a partner.
Main exports: expandBraces
-/
import SuperCalls.Failure
import SuperCalls.Glob.Range

namespace SuperCalls.Glob

/-!
### Pieces
-/

/-- What is known of a pair of braces. -/
structure BraceInfo where
  /-- The braces stand behind a dollar sign, or inside ones that do. -/
  dollar : Bool
  /-- A misplaced range keeps the braces from being expanded. -/
  invalid : Bool
  commas : Nat
  ranges : Nat
deriving Repr, DecidableEq

/-- A piece of a pattern.  Three dots where a range cannot be leave a label on the group before
them, and a labelled group is its label. -/
inductive Piece where
  | text (s : List Char)
  | opening
  | closing
  | comma
  | dot
  | range
  /-- Parentheses; they are stranded if the braces around them were never closed. -/
  | parens (stranded : Bool) (label : Option (List Char)) (pieces : List Piece)
  | braces (info : BraceInfo) (label : Option (List Char)) (pieces : List Piece)
deriving Repr

mutual

/-- The text of a piece, unexpanded. -/
def Piece.raw : Piece → List Char
  | .text s => s
  | .opening => ['\x7b']
  | .closing => ['\x7d']
  | .comma => [',']
  | .dot => ['.']
  | .range => ['.', '.']
  | .parens _ label pieces => label.getD (rawAll pieces)
  | .braces _ label pieces => label.getD (rawAll pieces)

/-- The text of pieces, unexpanded. -/
def rawAll : List Piece → List Char
  | [] => []
  | piece :: pieces => piece.raw ++ rawAll pieces

end

/-!
### The latest piece

The latest piece is the last one that was read, and of parentheses without a label it is the
last one in them: their closing parenthesis is a text, which goes on behind them.
-/

mutual

/-- Put a text on the latest piece, if that is a text; a single dot becomes part of the text. -/
def Piece.join (s : List Char) : Piece → Option Piece
  | .text t => some (.text (t ++ s))
  | .dot => some (.text ('.' :: s))
  | .parens stranded none pieces => (joinLast s pieces).map (.parens stranded none)
  | _ => none

/-- Put a text on the latest of several pieces. -/
def joinLast (s : List Char) : List Piece → Option (List Piece)
  | [] => none
  | [piece] => (piece.join s).map fun piece => [piece]
  | piece :: pieces => (joinLast s pieces).map (piece :: ·)

end

mutual

/-- The last character of the latest piece. -/
def Piece.lastChar? : Piece → Option Char
  | .text s => s.getLast?
  | .parens _ (some label) _ => label.getLast?
  | .parens _ none pieces => lastCharOf? pieces
  | .braces _ (some label) _ => label.getLast?
  | _ => none

/-- The last character of the latest of several pieces. -/
def lastCharOf? : List Piece → Option Char
  | [] => none
  | [piece] => piece.lastChar?
  | _ :: pieces => lastCharOf? pieces

end

/-- What stands for a text that is not there. -/
def missingText : List Char := "undefined".toList

/-- Put three dots on a piece: a text goes on with them, a group has them on its label. -/
def Piece.withDots : Piece → Piece
  | .text s => .text (s ++ ['.', '.', '.'])
  | .parens stranded label pieces =>
      .parens stranded (some (label.getD missingText ++ ['.', '.', '.'])) pieces
  | .braces info label pieces =>
      .braces info (some (label.getD missingText ++ ['.', '.', '.'])) pieces
  | piece => .text (piece.raw ++ ['.', '.', '.'])

/-!
### Reading

The blocks that are open hold their pieces in reverse, the innermost block first.
-/

/-- An open block: the whole pattern, parentheses, or braces. -/
inductive BlockKind where
  | whole
  | parens
  | braces (info : BraceInfo)

/-- An open block. -/
structure Block where
  kind : BlockKind
  pieces : List Piece

/-- Put a text behind pieces; a text right before it goes on with it. -/
def pushText (pieces : List Piece) (s : List Char) : List Piece :=
  match pieces with
  | latest :: rest =>
      match latest.join s with
      | some latest => latest :: rest
      | none => .text s :: pieces
  | [] => [.text s]

/-- What the characters being read are part of. -/
inductive ReadMode where
  | plain
  | escaped
  /-- A class, with the number of its open brackets and its text in reverse. -/
  | bracketed (depth : Nat) (seen : List Char) (escaped : Bool)
  /-- A quotation, with its mark and its text in reverse. -/
  | quotation (mark : Char) (seen : List Char) (escaped : Bool)

/-- The state of the reading. -/
structure Reading where
  mode : ReadMode
  top : Block
  below : List Block

namespace Reading

/-- Put a text into the innermost block. -/
def text (r : Reading) (s : List Char) : Reading :=
  { r with mode := .plain, top := { r.top with pieces := pushText r.top.pieces s } }

/-- Put a piece into the innermost block. -/
def piece (r : Reading) (p : Piece) : Reading :=
  { r with top := { r.top with pieces := p :: r.top.pieces } }

/-- Whether some braces are open. -/
def inBraces (r : Reading) : Bool :=
  (r.top :: r.below).any fun block =>
    match block.kind with
    | .braces _ => true
    | _ => false

/-- Open a block. -/
def open_ (r : Reading) (kind : BlockKind) (pieces : List Piece) : Reading :=
  { r with top := ⟨kind, pieces⟩, below := r.top :: r.below }

/-- Close the innermost block; its pieces become one piece of the block around it. -/
def close (r : Reading) (whole : List Piece → Piece) : Reading :=
  match r.below with
  | [] => r
  | outer :: below =>
      { r with
        top := { outer with pieces := whole r.top.pieces :: outer.pieces }
        below := below }

/-- Whether the innermost block stands behind a dollar sign. -/
def behindDollar (r : Reading) : Bool :=
  let inherited :=
    match r.top.kind with
    | .braces info => info.dollar
    | _ => false
  (r.top.pieces.head?.bind Piece.lastChar?) == some '$' || inherited

/-- Read a comma inside braces.  It makes a text of a range before it. -/
def comma (r : Reading) : Reading :=
  match r.top.kind with
  | .braces info =>
      let pieces :=
        if 0 < info.ranges then
          [.text (rawAll r.top.pieces.dropLast.reverse), .opening]
        else r.top.pieces
      { r with top := ⟨.braces { info with ranges := 0, commas := info.commas + 1 }, .comma :: pieces⟩ }
  | _ => r.piece .comma

/-- Read a dot.  Two dots behind the first or the third piece are a range; three are no range, and
go to the piece before them. -/
def dot (r : Reading) : Reading :=
  match r.top.kind with
  | .braces info =>
      if 0 < info.commas then r.text ['.']
      else
        match r.top.pieces with
        | .dot :: rest =>
            if r.top.pieces.length = 3 || r.top.pieces.length = 5 then
              { r with top := ⟨.braces { info with ranges := info.ranges + 1 }, .range :: rest⟩ }
            else
              { r with
                top := ⟨.braces { info with invalid := true, ranges := 0 }, .text ['.', '.'] :: rest⟩ }
        | .range :: before :: rest =>
            { r with
              top := ⟨.braces { info with ranges := info.ranges - 1 }, before.withDots :: rest⟩ }
        | _ => r.piece .dot
  | _ => r.text ['.']

/-- Read a character outside classes and quotations. -/
def plain (r : Reading) (c : Char) : Reading :=
  if c = '\uFEFF' || c = '\u00A0' then r
  else if c = '\\' then { r with mode := .escaped }
  else if c = ']' then r.text ['\\', ']']
  else if c = '[' then { r with mode := .bracketed 1 ['['] false }
  else if c = '(' then r.open_ .parens [.text ['(']]
  else if c = ')' then
    match r.top.kind with
    | .parens => (r.text [')']).close fun pieces => .parens false none pieces.reverse
    | _ => r.text [')']
  else if c = '"' || c.toNat = 0x27 || c.toNat = 0x60 then { r with mode := .quotation c [] false }
  else if c = '\x7b' then r.open_ (.braces ⟨r.behindDollar, false, 0, 0⟩) [.opening]
  else if c = '\x7d' then
    match r.top.kind with
    | .braces info => (r.piece .closing).close fun pieces => .braces info none pieces.reverse
    | _ => r.text ['\x7d']
  else if c = ',' && r.inBraces then r.comma
  else if c = '.' && r.inBraces then r.dot
  else r.text [c]

/-- Read a character. -/
def step (r : Reading) (c : Char) : Reading :=
  match r.mode with
  | .plain => r.plain c
  | .escaped => r.text ['\\', c]
  | .bracketed depth seen escaped =>
      let seen := c :: seen
      if escaped then { r with mode := .bracketed depth seen false }
      else if c = '\\' then { r with mode := .bracketed depth seen true }
      else if c = '[' then { r with mode := .bracketed (depth + 1) seen false }
      else if c = ']' then
        if depth ≤ 1 then r.text seen.reverse else { r with mode := .bracketed (depth - 1) seen false }
      else { r with mode := .bracketed depth seen false }
  | .quotation mark seen escaped =>
      if escaped then { r with mode := .quotation mark (c :: seen) false }
      else if c = '\\' then { r with mode := .quotation mark (c :: seen) true }
      else if c = mark then r.text seen.reverse
      else { r with mode := .quotation mark (c :: seen) false }

/-- End the reading.  An escape at the very end escapes something that is not there. -/
def finish (r : Reading) : Reading :=
  match r.mode with
  | .plain => r
  | .escaped => r.text ('\\' :: missingText)
  | .bracketed _ seen escaped => r.text (seen.reverse ++ if escaped then missingText else [])
  | .quotation _ seen escaped => r.text (seen.reverse ++ if escaped then missingText else [])

end Reading

/-- A piece of a block that was never closed. -/
def Piece.loose (inBraces : Bool) : Piece → Piece
  | .parens _ label pieces => .parens inBraces label pieces
  | .braces info label pieces => .braces info label pieces
  | piece => .text piece.raw

/-- The pieces of a pattern; blocks that were never closed are taken apart.  Parentheses are
stranded if such braces are around them, with nothing but parentheses between. -/
def pieces (pattern : List Char) : List Piece :=
  let r := (pattern.foldl Reading.step ⟨.plain, ⟨.whole, []⟩, []⟩).finish
  ((r.top :: r.below).foldr
    (fun block (seen, inBraces) =>
      match block.kind with
      | .whole => (seen ++ block.pieces.reverse, false)
      | .parens => (seen ++ block.pieces.reverse.map (Piece.loose inBraces), inBraces)
      | .braces _ => (seen ++ block.pieces.reverse.map (Piece.loose true), true))
    (([] : List Piece), false)).1

/-!
### Expanding

The alternatives of a block are kept with the latest first; each of them is a list of texts,
and what follows goes on every text of the latest.
-/

/-- The texts of alternatives continued in several ways. -/
def product (firsts seconds : List (List Char)) : List (List Char) :=
  firsts.flatMap fun first => seconds.map (first ++ ·)

/-- Continue the latest alternative. -/
def continueWith (alternatives : List (List (List Char))) (stash : List (List Char)) :
    List (List (List Char)) :=
  let (latest, earlier) :=
    match alternatives with
    | latest :: earlier => (latest, earlier)
    | [] => ([[]], [])
  if stash.isEmpty then latest :: earlier else product latest stash :: earlier

/-- A refusal to list a long range. -/
def rangeFailure : Failure :=
  .plain .rangeError
    "expanded array length exceeds range limit. Use options.rangeLimit to increase or disable the limit."

/-- A refusal to expand stranded parentheses. -/
def strandedFailure : Failure :=
  .plain .typeError "Cannot read properties of undefined (reading 'push')"

/-- The values of the range that some pieces are. -/
def rangeOf (pieces : List Piece) : Except Failure (List (List Char)) :=
  let ends := pieces.filterMap fun piece =>
    match piece with
    | .text s => some (String.ofList s)
    | _ => none
  if exceedsRangeLimit ends then .error rangeFailure
  else
    let values := rangeValues ends
    .ok (if values.isEmpty then [rawAll pieces] else values.map String.toList)

mutual

/-- Expand the pieces of a block; the number is the position of the next piece in it. -/
def expandPieces (inBraces : Bool) (position : Nat) (alternatives : List (List (List Char))) :
    List Piece → Except Failure (List (List (List Char)))
  | [] => .ok alternatives
  | piece :: rest =>
      match expandPiece inBraces position alternatives piece with
      | .error failure => .error failure
      | .ok alternatives => expandPieces inBraces (position + 1) alternatives rest

/-- Expand a piece. -/
def expandPiece (inBraces : Bool) (position : Nat) (alternatives : List (List (List Char))) :
    Piece → Except Failure (List (List (List Char)))
  | .text [] => .ok alternatives
  | .text s => .ok (continueWith alternatives [s])
  | .opening => .ok alternatives
  | .closing => .ok alternatives
  | .comma =>
      if inBraces then
        .ok (if position = 1 then [[]] :: [[]] :: alternatives else [[]] :: alternatives)
      else .ok (continueWith alternatives [[',']])
  | .dot => .ok (continueWith alternatives [['.']])
  | .range => .ok (continueWith alternatives [['.', '.']])
  | .parens _ (some label) _ => .ok (continueWith alternatives [label])
  | .parens stranded none pieces =>
      if stranded then .error strandedFailure else expandPieces false 0 alternatives pieces
  | .braces _ (some label) _ => .ok (continueWith alternatives [label])
  | .braces info none pieces =>
      if info.invalid || info.dollar then .ok (continueWith alternatives [rawAll pieces])
      else if pieces.length = 2 then .ok (continueWith alternatives [['\x7b', '\x7d']])
      else if 0 < info.ranges then
        match rangeOf pieces with
        | .error failure => .error failure
        | .ok values => .ok (continueWith alternatives values)
      else
        match expandPieces true 0 [] pieces with
        | .error failure => .error failure
        | .ok inner =>
            let texts := inner.reverse.flatten
            .ok (continueWith alternatives
              (if info.commas = 0 then texts.map fun text => '\x7b' :: text ++ ['\x7d'] else texts))

end

/-- Whether a text holds an opening brace and a closing one behind it. -/
def hasBraces (pattern : List Char) : Bool :=
  (pattern.dropWhile (· != '\x7b')).contains '\x7d'

/-- The greatest length of a pattern with braces. -/
def bracesLimit : Nat := 10000

/-- The patterns that a pattern with braces stands for, each once, shorter ones first; an empty
one is left out. -/
def expandBraces (pattern : String) : Except Failure (List String) :=
  let cs := pattern.toList
  let length (s : String) : Nat := (Text.Units.units s).length
  if !hasBraces cs || length pattern < 3 then .ok (if cs.isEmpty then [] else [pattern])
  else if bracesLimit < length pattern then
    .error (.plain .syntaxError
      (s!"Input length ({length pattern}), exceeds max characters ({bracesLimit})"))
  else
    match expandPieces false 0 [] (pieces cs) with
    | .error failure => .error failure
    | .ok alternatives =>
        let texts := (alternatives.reverse.flatten.map String.ofList).eraseDups
        .ok ((texts.mergeSort fun s t => length s ≤ length t).filter (· != ""))

end SuperCalls.Glob
