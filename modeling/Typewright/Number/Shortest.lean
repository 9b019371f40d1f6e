import Typewright.Number.Binary64
import Typewright.Number.Numeral

/-!
# Shortest decimal text of a floating-point number

The decimal text of a number has the fewest digits that read back as the same number, and among
those the digits nearest to it. `Binary64.shortest` finds digits and power by exact arithmetic on
the interval of reals that round to the number; `Binary64.text` lays them out: with a decimal point
for numbers from 10⁻⁴ up to 10¹⁶, with a power of ten beyond.
-/

namespace Typewright.Binary64

/-- A positive ratio `numerator / denominator` with the lower and upper end of the interval around
it, over the same denominator. -/
structure Interval where
  lower : Nat
  value : Nat
  upper : Nat
  denominator : Nat
  closed : Bool

/-- The reals that round to a positive finite number. The interval is closed if the significand is
even, and its lower half is shorter where the exponent changes. -/
def interval (x : Binary64) : Interval :=
  let value := 4 * x.significand
  let below := if x.fraction = 0 ∧ 1 < x.biased then 1 else 2
  let power := x.exponent - 2
  let up := if power < 0 then 1 else Nat.pow 2 power.natAbs
  let down := if power < 0 then Nat.pow 2 power.natAbs else 1
  ⟨(value - below) * up, value * up, (value + 2) * up, down, x.significand % 2 == 0⟩

/-- Whether `digits · 10 ^ power` lies in the interval. -/
def Interval.contains (i : Interval) (digits : Nat) (power : Int) : Bool :=
  let scaled := if power < 0 then digits else digits * Nat.pow 10 power.natAbs
  let unit := if power < 0 then Nat.pow 10 power.natAbs else 1
  let point := scaled * i.denominator
  if i.closed then i.lower * unit ≤ point && point ≤ i.upper * unit
  else i.lower * unit < point && point < i.upper * unit

/-- The largest `power` with `10 ^ power` at most the value, looked for around an estimate. -/
def Interval.magnitude (i : Interval) : Int :=
  let estimate : Int := ((i.value.log2 : Int) - i.denominator.log2) * 30103 / 100000
  let atMost (power : Int) : Bool :=
    if power < 0 then i.denominator ≤ i.value * Nat.pow 10 power.natAbs
    else i.denominator * Nat.pow 10 power.natAbs ≤ i.value
  if atMost (estimate + 1) then estimate + 1
  else if atMost estimate then estimate
  else estimate - 1

/-- The neighbours of the value on the grid of multiples of `10 ^ power`, and whether the lower one
is the nearer, ties going to the even one. -/
def Interval.neighbours (i : Interval) (power : Int) : Nat × Nat × Bool :=
  let numerator := if power < 0 then i.value * Nat.pow 10 power.natAbs else i.value
  let unit := if power < 0 then i.denominator else i.denominator * Nat.pow 10 power.natAbs
  let low := numerator / unit
  let twice := 2 * (numerator % unit)
  (low, low + 1, twice < unit || (twice == unit && low % 2 == 0))

/-- The digits on a grid that lie in the interval, the nearer first. -/
def Interval.onGrid? (i : Interval) (power : Int) : Option Nat :=
  let (low, high, lowNearer) := i.neighbours power
  let ordered := if lowNearer then [low, high] else [high, low]
  ordered.find? (fun digits => i.contains digits power)

/-- The first grid with a point in the interval, from one digit to seventeen. -/
def Interval.shortest (i : Interval) : Nat × Int :=
  let magnitude := i.magnitude
  ((List.range 17).findSome? fun (count : Nat) =>
    let power := magnitude - (count : Int)
    (i.onGrid? power).map (·, power)).getD (0, 0)

/-- The shortest digits and power of a positive finite number. -/
def shortest (x : Binary64) : Nat × Int :=
  x.interval.shortest

/-- Digits without the zeros at their end, which move into the power. -/
def stripZeros (digits : List Char) (power : Int) : List Char × Int :=
  let kept := (digits.reverse.dropWhile (· == '0')).reverse
  (kept, power + (digits.length - kept.length : Nat))

/-- Lays out digits with the point after the given number of places: in full from `0.0001` up to
sixteen places, else with one digit before the point and a power of ten of two digits or more. -/
def layout (digits : List Char) (point : Int) : String :=
  if -4 < point ∧ point ≤ 16 then
    if point ≤ 0 then
      "0." ++ String.ofList (List.replicate point.natAbs '0' ++ digits)
    else
      let places := point.toNat
      let whole := digits.take places ++ List.replicate (places - digits.length) '0'
      let rest := digits.drop places
      String.ofList whole ++ "." ++ (if rest.isEmpty then "0" else String.ofList rest)
  else
    let power := point - 1
    let head := digits.take 1
    let tail := digits.drop 1
    String.ofList (head ++ (if tail.isEmpty then [] else '.' :: tail)) ++
      (if power < 0 then "e-" else "e+") ++ Numeral.padded 2 power.natAbs

/-- The text of a number, with the given words for infinity and for what is no number. -/
def textWith (infinite nan : String) (x : Binary64) : String :=
  if x.isNaN then nan
  else
    let sign := if x.isNegative then "-" else ""
    if x.isInfinite then sign ++ infinite
    else if x.isZero then sign ++ "0.0"
    else
      let (digits, power) := x.shortest
      let (digits, power) := stripZeros (Nat.toDigits 10 digits) power
      sign ++ layout digits (power + digits.length)

/-- The text of a number. -/
def text : Binary64 → String :=
  textWith "inf" "nan"

end Typewright.Binary64
