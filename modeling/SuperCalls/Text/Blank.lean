/-
Module: SuperCalls.Text.Blank
Purpose: The character classes that decide where a super call may stand and what may
  separate its arguments, and where a line ends.
Main exports: isBlank, isLineEnd, isWord, trimBlanks
-/

namespace SuperCalls.Text

/-- White space: tab, line feed, vertical tab, form feed, carriage return, space, no-break
space, the space separators of Unicode, the two line separators, and the byte-order mark.
U+0085, U+180E and U+200B are not white space. -/
def isBlank (c : Char) : Bool :=
  let n := c.toNat
  (9 ≤ n && n ≤ 13) || n == 32 || n == 0xA0 || n == 0x1680 || (0x2000 ≤ n && n ≤ 0x200A)
    || n == 0x2028 || n == 0x2029 || n == 0x202F || n == 0x205F || n == 0x3000 || n == 0xFEFF

/-- The characters that end a line: line feed, carriage return, and the two separators U+2028 and
U+2029. -/
def isLineEnd (c : Char) : Bool :=
  c == '\n' || c == '\r' || c.toNat == 0x2028 || c.toNat == 0x2029

/-- Word characters: ASCII letters, ASCII digits and the underscore. -/
def isWord (c : Char) : Bool :=
  c.isAlphanum || c == '_'

/-- The text without the white space at its two ends. -/
def trimBlanks (cs : List Char) : List Char :=
  ((cs.dropWhile isBlank).reverse.dropWhile isBlank).reverse

end SuperCalls.Text
