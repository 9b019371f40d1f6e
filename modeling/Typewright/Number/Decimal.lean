import Typewright.Number.Binary64
import Typewright.Number.Numeral

/-!
# Decimal numerals of floating-point numbers

Reading a decimal numeral as the number nearest to it: a sign, digits with a point among them, a
power of ten, and the words for infinity and for what is no number. Blanks may stand around the
numeral and single underscores between digits. The module also holds the sum of two numbers and a
multiple of one, rounded once.
-/

namespace Typewright.Binary64

open Text

/-- The digits in front of a text, with single underscores between them, and the rest. -/
def digitRun : List Char → List Nat × List Char
  | [] => ([], [])
  | c :: '_' :: rest =>
    match digitValue? c, digitRun rest with
    | none, _ => ([], c :: '_' :: rest)
    | some digit, ([], _) => ([digit], '_' :: rest)
    | some digit, (digits, after) => (digit :: digits, after)
  | c :: rest =>
    match digitValue? c with
    | none => ([], c :: rest)
    | some digit =>
      let (digits, after) := digitRun rest
      (digit :: digits, after)

/-- The number that digits are in base ten. -/
def digitsValue (digits : List Nat) : Nat :=
  digits.foldl (fun value digit => 10 * value + digit) 0

/-- The power of ten at the end of a numeral; none is the zeroth. -/
def powerText? : List Char → Option Int
  | [] => some 0
  | e :: rest =>
    if e = 'e' ∨ e = 'E' then
      let (negative, rest) := match rest with
        | '-' :: more => (true, more)
        | '+' :: more => (false, more)
        | more => (false, more)
      match digitRun rest with
      | (d :: ds, []) =>
        let value : Int := digitsValue (d :: ds)
        some (if negative then -value else value)
      | _ => none
    else none

/-- Reads a numeral without sign. -/
def unsigned? (negative : Bool) (text : List Char) : Option Binary64 :=
  let word := String.ofList (text.map Char.toLower)
  if word = "inf" ∨ word = "infinity" then some (infinity negative)
  else if word = "nan" then some nan
  else
    let (whole, rest) := digitRun text
    let (fraction, rest) := match rest with
      | '.' :: more => digitRun more
      | more => ([], more)
    if whole.isEmpty && fraction.isEmpty then none
    else do
      let power ← powerText? rest
      return ofDecimal negative (digitsValue (whole ++ fraction)) (power - fraction.length)

/-- Reads a numeral with an optional sign and blanks around it. -/
def ofText? (text : List Char) : Option Binary64 :=
  match trim text with
  | '-' :: rest => unsigned? true rest
  | '+' :: rest => unsigned? false rest
  | rest => unsigned? false rest

/-- The number with the other sign. -/
def negate (x : Binary64) : Binary64 :=
  ofFields (!x.isNegative) x.biased x.fraction

/-- The number nearest to `units · 2 ^ power`. -/
def ofUnits (units : Int) (power : Int) : Binary64 :=
  if power < 0 then ofRatio (units < 0) units.natAbs (Nat.pow 2 power.natAbs)
  else ofRatio (units < 0) (units.natAbs * Nat.pow 2 power.natAbs) 1

/-- A finite number in units of two to its exponent. -/
def units (x : Binary64) : Int :=
  if x.isNegative then -(x.significand : Int) else x.significand

/-- A positive multiple of a number. -/
def scale (x : Binary64) (factor : Nat) : Binary64 :=
  if x.biased = 2047 || x.isZero then x else ofUnits (x.units * factor) x.exponent

/-- The sum of two numbers. -/
def sum (x y : Binary64) : Binary64 :=
  if x.isNaN || y.isNaN then nan
  else if x.isInfinite then (if y.isInfinite && x.isNegative != y.isNegative then nan else x)
  else if y.isInfinite then y
  else
    let power := min x.exponent y.exponent
    let aligned (z : Binary64) : Int := z.units * Nat.pow 2 (z.exponent - power).toNat
    ofUnits (aligned x + aligned y) power

end Typewright.Binary64
