/-!
# Binary floating-point numbers

A `Binary64` is a double-precision number, kept as its 64 bits so that it can be compared, and
reasoned about, exactly. A finite one is `significand · 2 ^ exponent` with a sign; reading a decimal
numeral rounds to the nearest such number, ties going to the even significand.
-/

namespace Typewright

/-- A double-precision number by its bits: a sign, eleven bits of exponent and fifty-two of
fraction. -/
structure Binary64 where
  bits : UInt64
  deriving DecidableEq, Repr, Inhabited

namespace Binary64

/-- The sign bit. -/
def isNegative (x : Binary64) : Bool :=
  x.bits.toNat / Nat.pow 2 63 == 1

/-- The biased exponent. -/
def biased (x : Binary64) : Nat :=
  x.bits.toNat / Nat.pow 2 52 % 2048

/-- The fraction bits. -/
def fraction (x : Binary64) : Nat :=
  x.bits.toNat % Nat.pow 2 52

/-- Neither finite nor infinite. -/
def isNaN (x : Binary64) : Bool :=
  x.biased == 2047 && x.fraction != 0

/-- Infinite, of either sign. -/
def isInfinite (x : Binary64) : Bool :=
  x.biased == 2047 && x.fraction == 0

/-- The significand of a finite number. -/
def significand (x : Binary64) : Nat :=
  if x.biased = 0 then x.fraction else Nat.pow 2 52 + x.fraction

/-- The exponent of a finite number. -/
def exponent (x : Binary64) : Int :=
  if x.biased = 0 then -1074 else (x.biased : Int) - 1075

/-- Zero, of either sign. -/
def isZero (x : Binary64) : Bool :=
  x.biased == 0 && x.fraction == 0

/-- The number with the given sign, biased exponent and fraction. -/
def ofFields (negative : Bool) (biased fraction : Nat) : Binary64 :=
  ⟨UInt64.ofNat ((if negative then Nat.pow 2 63 else 0) + biased * Nat.pow 2 52 + fraction)⟩

/-- Infinity of the given sign. -/
def infinity (negative : Bool) : Binary64 :=
  ofFields negative 2047 0

/-- The quiet not-a-number. -/
def nan : Binary64 :=
  ofFields false 2047 (Nat.pow 2 51)

/-- A quotient rounded to the nearest whole number, ties going to the even one. -/
def roundDiv (numerator denominator : Nat) : Nat :=
  let quotient := numerator / denominator
  let remainder := numerator % denominator
  if 2 * remainder < denominator then quotient
  else if 2 * remainder > denominator then quotient + 1
  else if quotient % 2 = 0 then quotient else quotient + 1

/-- A positive ratio divided by a power of two, as numerator and denominator. -/
def scaleDown (numerator denominator : Nat) (power : Int) : Nat × Nat :=
  if power < 0 then (numerator * Nat.pow 2 power.natAbs, denominator)
  else (numerator, denominator * Nat.pow 2 power.natAbs)

/-- The number nearest to a ratio. -/
def ofRatio (negative : Bool) (numerator denominator : Nat) : Binary64 :=
  if numerator = 0 then ofFields negative 0 0
  else
    let guess : Int := (numerator.log2 : Int) - denominator.log2 - 52
    let (n, d) := scaleDown numerator denominator guess
    let power := max (if n < Nat.pow 2 52 * d then guess - 1 else guess) (-1074)
    let (n, d) := scaleDown numerator denominator power
    let rounded := roundDiv n d
    let (rounded, power) :=
      if rounded = Nat.pow 2 53 then (Nat.pow 2 52, power + 1) else (rounded, power)
    if rounded < Nat.pow 2 52 then ofFields negative 0 rounded
    else if power > 971 then infinity negative
    else ofFields negative (power + 1075).toNat (rounded - Nat.pow 2 52)

/-- The number nearest to `digits · 10 ^ power`. Powers beyond the range of the format are cut
short, as they cannot change the result. -/
def ofDecimal (negative : Bool) (digits : Nat) (power : Int) : Binary64 :=
  let places : Int := (Nat.toDigits 10 digits).length
  if digits = 0 then ofFields negative 0 0
  else if power + places > 400 then infinity negative
  else if power + places < -400 then ofFields negative 0 0
  else if power < 0 then ofRatio negative digits (Nat.pow 10 power.natAbs)
  else ofRatio negative (digits * Nat.pow 10 power.natAbs) 1

/-- The number nearest to an integer. -/
def ofInt (n : Int) : Binary64 :=
  ofRatio (n < 0) n.natAbs 1

/-- The integer that a number equals, if it equals one. -/
def toInt? (x : Binary64) : Option Int :=
  if x.biased = 2047 then none
  else
    let signed (n : Nat) : Int := if x.isNegative then -(n : Int) else n
    if 0 ≤ x.exponent then some (signed (x.significand * Nat.pow 2 x.exponent.natAbs))
    else
      let unit := Nat.pow 2 x.exponent.natAbs
      if x.significand % unit = 0 then some (signed (x.significand / unit)) else none

end Binary64

end Typewright
