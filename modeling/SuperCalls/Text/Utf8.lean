/-
Module: SuperCalls.Text.Utf8
Purpose: UTF-8 as a machine that reads one byte at a time.  The strict reading of a file
  accepts well-formed bytes only; the lenient one puts U+FFFD in place of every maximal
  malformed part.  Both are views of one scan.
Main exports: encode, scan, decode?, decodeLossy
-/

namespace SuperCalls.Text.Utf8

/-!
The bytes of a character are its code point cut into six-bit groups, the first byte telling
how many follow.  A byte-order mark is a character like any other.
-/

/-- The bytes of one character. -/
def encodeChar (c : Char) : List UInt8 :=
  let n := c.toNat
  if n < 0x80 then [UInt8.ofNat n]
  else if n < 0x800 then [UInt8.ofNat (0xC0 + n / 64), UInt8.ofNat (0x80 + n % 64)]
  else if n < 0x10000 then
    [UInt8.ofNat (0xE0 + n / 4096), UInt8.ofNat (0x80 + n / 64 % 64), UInt8.ofNat (0x80 + n % 64)]
  else
    [UInt8.ofNat (0xF0 + n / 262144), UInt8.ofNat (0x80 + n / 4096 % 64),
      UInt8.ofNat (0x80 + n / 64 % 64), UInt8.ofNat (0x80 + n % 64)]

/-- The bytes of a text. -/
def encode (s : String) : List UInt8 :=
  s.toList.flatMap encodeChar

/-!
### Reading

Between characters the machine is `none`.  Inside a character it holds the code point read so
far, the number of bytes still owed, and the range the next byte must lie in: the range is
narrower than `80..BF` only after `E0`, `ED`, `F0` and `F4`, which is what rules out overlong
forms, surrogates and values above U+10FFFF.
-/

/-- An unfinished character. -/
structure Pending where
  value : Nat
  owed : Nat
  low : UInt8
  high : UInt8
deriving Repr, DecidableEq

/-- What a first byte begins: a whole character, an unfinished one, or nothing. -/
inductive Start where
  | whole (c : Char)
  | unfinished (p : Pending)
  | malformed
deriving Repr, DecidableEq

/-- Read a byte that stands between characters. -/
def start (b : UInt8) : Start :=
  let n := b.toNat
  if n < 0x80 then .whole (Char.ofNat n)
  else if 0xC2 ≤ n && n ≤ 0xDF then .unfinished ⟨n - 0xC0, 1, 0x80, 0xBF⟩
  else if 0xE0 ≤ n && n ≤ 0xEF then
    .unfinished ⟨n - 0xE0, 2, if n = 0xE0 then 0xA0 else 0x80, if n = 0xED then 0x9F else 0xBF⟩
  else if 0xF0 ≤ n && n ≤ 0xF4 then
    .unfinished ⟨n - 0xF0, 3, if n = 0xF0 then 0x90 else 0x80, if n = 0xF4 then 0x8F else 0xBF⟩
  else .malformed

/-- Scan bytes into characters, `none` standing for a malformed part.  The pieces read so far
are kept in reverse. -/
def scanFrom (seen : List (Option Char)) : Option Pending → List UInt8 → List (Option Char)
  | none, [] => seen.reverse
  | some _, [] => (none :: seen).reverse
  | none, b :: rest =>
      match start b with
      | .whole c => scanFrom (some c :: seen) none rest
      | .unfinished p => scanFrom seen (some p) rest
      | .malformed => scanFrom (none :: seen) none rest
  | some p, b :: rest =>
      if p.low ≤ b && b ≤ p.high then
        let value := p.value * 64 + (b.toNat - 0x80)
        if p.owed ≤ 1 then scanFrom (some (Char.ofNat value) :: seen) none rest
        else scanFrom seen (some ⟨value, p.owed - 1, 0x80, 0xBF⟩) rest
      else
        match start b with
        | .whole c => scanFrom (some c :: none :: seen) none rest
        | .unfinished q => scanFrom (none :: seen) (some q) rest
        | .malformed => scanFrom (none :: none :: seen) none rest

/-- The characters and malformed parts of a sequence of bytes, in order. -/
def scan (bytes : List UInt8) : List (Option Char) :=
  scanFrom [] none bytes

/-- The text of well-formed bytes. -/
def decode? (bytes : List UInt8) : Option String :=
  let pieces := scan bytes
  if pieces.all Option.isSome then some (String.ofList (pieces.filterMap id)) else none

/-- The text of any bytes: each malformed part reads as U+FFFD. -/
def decodeLossy (bytes : List UInt8) : String :=
  String.ofList ((scan bytes).map (·.getD '\uFFFD'))

end SuperCalls.Text.Utf8
