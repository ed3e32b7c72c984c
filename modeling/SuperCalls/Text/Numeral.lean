/-
Module: SuperCalls.Text.Numeral
Purpose: Reading a whole number from a numeral.  Numerals may be decimal, with a point, an
  exponent and a sign, or unsigned in base sixteen, eight or two; white space around them is
  dropped and nothing at all counts as zero.  A numeral denotes the double nearest to it, so
  one that lies within half a unit of a whole double is that whole number.
Main exports: Magnitude, Numeral, Numeral.ofText?, Numeral.whole?,
  Numeral.integer?
-/
import SuperCalls.Text.Blank

namespace SuperCalls.Text

/-- The size of a number: a fraction, or beyond every double. -/
inductive Magnitude where
  | fraction (numerator denominator : Nat)
  | infinite
deriving Repr, DecidableEq

/-- A number as it is written: a sign and a size. -/
structure Numeral where
  negative : Bool
  size : Magnitude
deriving Repr, DecidableEq

/-!
### The nearest double

A double is `m * 2 ^ x` with `m` below `2 ^ 53`.  For a fraction the exponent is the one that
brings the quotient into `2 ^ 52 .. 2 ^ 53`, never below `-1074`; the quotient is then rounded
to the nearest whole number, a tie going to the even one.
-/

/-- The quotient of `p` by `q`, rounded to the nearest whole number, ties to even. -/
def roundHalfEven (p q : Nat) : Nat :=
  let low := p / q
  let rest := p % q
  if 2 * rest < q then low
  else if q < 2 * rest then low + 1
  else if low % 2 = 0 then low else low + 1

/-- The binary exponent of the double nearest to `p / q`, for `0 < p`. -/
def binaryExponent (p q : Nat) : Int :=
  let guess : Int := (p.log2 : Int) - (q.log2 : Int) - 52
  let fits (x : Int) : Bool :=
    if 0 ≤ x then Nat.pow 2 (52 + x.toNat) * q ≤ p else Nat.pow 2 52 * q ≤ p * Nat.pow 2 (-x).toNat
  max (-1074) (if fits guess then guess else guess - 1)

/-- The whole number that is the double nearest to `p / q`, if that double is whole and
finite. -/
def wholeDouble? (p q : Nat) : Option Nat :=
  if p = 0 then some 0
  else
    let x := binaryExponent p q
    if 0 ≤ x then
      let unit := Nat.pow 2 x.toNat
      let value := roundHalfEven p (q * unit) * unit
      if value < Nat.pow 2 1024 then some value else none
    else
      let scale := Nat.pow 2 (-x).toNat
      let mantissa := roundHalfEven (p * scale) q
      if mantissa % scale = 0 then some (mantissa / scale) else none

/-!
### Reading

A decimal numeral with many digits or a large exponent is settled by its order of magnitude
alone: from `10 ^ 310` on it is infinite, below `10 ^ -330` it is zero.
-/

/-- The value of a digit in bases up to sixteen. -/
def digitValue? (c : Char) : Option Nat :=
  if '0' ≤ c && c ≤ '9' then some (c.toNat - 48)
  else if 'a' ≤ c && c ≤ 'f' then some (c.toNat - 87)
  else if 'A' ≤ c && c ≤ 'F' then some (c.toNat - 55)
  else none

/-- The number that a run of digits writes in a base, if each of them is below the base. -/
def digitsValue? (base : Nat) (ds : List Char) : Option Nat :=
  ds.foldl
    (fun acc d => do
      let n ← acc
      let v ← digitValue? d
      if v < base then some (n * base + v) else none)
    (some 0)

/-- The number that decimal digits write. -/
def decimalValue (ds : List Char) : Nat :=
  ds.foldl (fun n d => n * 10 + (d.toNat - 48)) 0

/-- `m * 10 ^ e`. -/
def scaled (m : Nat) (e : Int) : Magnitude :=
  let order : Int := ((Nat.toDigits 10 m).length : Int) + e
  if m = 0 then .fraction 0 1
  else if 310 < order then .infinite
  else if order < -330 then .fraction 0 1
  else if 0 ≤ e then .fraction (m * Nat.pow 10 e.toNat) 1
  else .fraction m (Nat.pow 10 (-e).toNat)

/-- The exponent part of a decimal numeral: nothing, or `e`, a sign and digits. -/
def exponent? : List Char → Option Int
  | [] => some 0
  | c :: rest =>
      if c = 'e' || c = 'E' then
        let (negative, ds) :=
          match rest with
          | '-' :: ds => (true, ds)
          | '+' :: ds => (false, ds)
          | ds => (false, ds)
        if ds.isEmpty || !ds.all Char.isDigit then none
        else some (if negative then -(decimalValue ds : Int) else decimalValue ds)
      else none

/-- A decimal numeral without its sign: digits with at most one point, then an exponent. -/
def unsignedDecimal? (cs : List Char) : Option Magnitude :=
  let (whole, rest) := cs.span Char.isDigit
  let (part, rest) :=
    match rest with
    | '.' :: more => more.span Char.isDigit
    | _ => ([], rest)
  if whole.isEmpty && part.isEmpty then none
  else do
    let e ← exponent? rest
    some (scaled (decimalValue (whole ++ part)) (e - (part.length : Int)))

/-- A number in a base other than ten, written without a sign. -/
def based? (base : Nat) (ds : List Char) : Option Magnitude :=
  if ds.isEmpty then none else (digitsValue? base ds).map (.fraction · 1)

/-- A size: `Infinity` or a decimal numeral. -/
def magnitude? (cs : List Char) : Option Magnitude :=
  if cs = "Infinity".toList then some .infinite else unsignedDecimal? cs

/-- Read a numeral; white space around it is dropped. -/
def Numeral.ofText? (text : String) : Option Numeral :=
  match trimBlanks text.toList with
  | [] => some ⟨false, .fraction 0 1⟩
  | '0' :: 'x' :: ds | '0' :: 'X' :: ds => (based? 16 ds).map (⟨false, ·⟩)
  | '0' :: 'o' :: ds | '0' :: 'O' :: ds => (based? 8 ds).map (⟨false, ·⟩)
  | '0' :: 'b' :: ds | '0' :: 'B' :: ds => (based? 2 ds).map (⟨false, ·⟩)
  | '-' :: cs => (magnitude? cs).map (⟨true, ·⟩)
  | '+' :: cs => (magnitude? cs).map (⟨false, ·⟩)
  | cs => (magnitude? cs).map (⟨false, ·⟩)

/-- The natural number that a numeral denotes: its nearest double is whole, finite and not
below zero. -/
def Numeral.whole? (n : Numeral) : Option Nat :=
  match n.size with
  | .infinite => none
  | .fraction p q =>
      match wholeDouble? p q with
      | some 0 => some 0
      | some value => if n.negative then none else some value
      | none => none

/-- The integer that a numeral denotes: its nearest double is whole and finite. -/
def Numeral.integer? (n : Numeral) : Option Int :=
  match n.size with
  | .infinite => none
  | .fraction p q =>
      (wholeDouble? p q).map fun value => if n.negative then -(value : Int) else (value : Int)

end SuperCalls.Text
