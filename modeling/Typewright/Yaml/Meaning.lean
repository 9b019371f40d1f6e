import Typewright.Document.Graph
import Typewright.Number.Decimal
import Typewright.Text.Case
import Typewright.Text.Search
import Typewright.Yaml.Cursor
import Typewright.Yaml.Kind

/-!
# Meanings of YAML scalars

What a scalar's text denotes, given the scalar's kind. A kind can be asked for by a tag, so a text
need not have the form of its kind: `!!int x` denotes nothing and is a fault.
-/

namespace Typewright.Yaml.Meaning

open Text

/-- The text without underscores. -/
def dropUnderscores (text : List Char) : List Char :=
  text.filter (· != '_')

/-- The truth value of a word, in any case. -/
def bool (text : String) : Except Fault Bool :=
  let word := Text.lower text
  if ["yes", "true", "on"].contains word then .ok true
  else if ["no", "false", "off"].contains word then .ok false
  else .error (.word word)

/-- The value of a numeral in a base. A decimal one has at most 4300 digits. -/
def numeral (base : Nat) (text : List Char) : Except Fault Int :=
  let digits := (text.filter fun c => (digitValue? c).isSome).length
  match Numeral.int? base text with
  | none => .error (.value (.numeral base (String.ofList text)))
  | some n =>
    if base = 10 ∧ Numeral.maxDigits < digits then .error (.value (.tooManyDigits digits))
    else .ok n

/-- Splits off a sign and says whether it is a minus. There must be some text. -/
def signed (text : List Char) : Except Fault (Bool × List Char) :=
  match text with
  | [] => .error .noDigits
  | '-' :: rest => .ok (true, rest)
  | '+' :: rest => .ok (false, rest)
  | text => .ok (false, text)

/-- The value of digits in base sixty, most significant first. -/
def sixtieths (digits : List Int) : Int :=
  digits.foldl (fun value digit => 60 * value + digit) 0

/-- The integer that a text denotes. The base shows in front: `0b`, `0x`, `0` for base eight, and
colons for base sixty. -/
def int (text : List Char) : Except Fault Int := do
  let (negative, text) ← signed (dropUnderscores text)
  let value ← match text with
    | ['0'] => pure 0
    | '0' :: 'b' :: digits => numeral 2 digits
    | '0' :: 'x' :: digits => numeral 16 digits
    | [] => throw .noDigits
    | '0' :: _ => numeral 8 text
    | _ =>
      if text.contains ':' then do
        return sixtieths (← (splitAtChar ':' text).mapM (numeral 10))
      else numeral 10 text
  return if negative then -value else value

/-- The value of a decimal numeral. -/
def decimal (text : List Char) : Except Fault Binary64 :=
  match Binary64.ofText? text with
  | some x => .ok x
  | none => .error (.value (.decimal (String.ofList text)))

/-- The value of numbers in base sixty, least significant first, rounded after each of them. A base
beyond the range of floating-point numbers is a fault. -/
def sumOfSixtieths : Binary64 → Nat → List Binary64 → Except Fault Binary64
  | value, _, [] => .ok value
  | value, base, x :: rest =>
    if (Binary64.ofInt base).isInfinite then .error .tooLarge
    else sumOfSixtieths (value.sum (x.scale base)) (60 * base) rest

/-- The floating-point number that a text denotes. -/
def float (text : List Char) : Except Fault Binary64 := do
  let lower := (Text.lower (String.ofList (dropUnderscores text))).toList
  let (negative, text) ← signed lower
  if text = ".nan".toList then return .nan
  let value ←
    if text = ".inf".toList then pure (.infinity false)
    else if text.contains ':' then do
      let parts ← (splitAtChar ':' text).mapM decimal
      sumOfSixtieths (.ofInt 0) 1 parts.reverse
    else decimal text
  return if negative then value.negate else value

/-! ## Bytes -/

/-- The value of a digit in base sixty-four. -/
def digit64? (c : Char) : Option Nat :=
  if 'A' ≤ c ∧ c ≤ 'Z' then some (c.toNat - 65)
  else if 'a' ≤ c ∧ c ≤ 'z' then some (c.toNat - 97 + 26)
  else if '0' ≤ c ∧ c ≤ '9' then some (c.toNat - 48 + 52)
  else if c = '+' then some 62
  else if c = '/' then some 63
  else none

/-- The bytes that digits in base sixty-four stand for. The digits of the open group of four and the
number of padding marks after them are given. Complete padding ends the text, other characters
do not count, and an open group at the end is a fault. -/
def bytesOf : List Nat → Nat → List Char → Option (List UInt8)
  | group, _, [] => if group.isEmpty then some [] else none
  | group, padding, c :: rest =>
    let byte (n : Nat) : UInt8 := UInt8.ofNat n
    if c = '=' then
      if 2 ≤ group.length then
        if 4 ≤ group.length + padding + 1 then some [] else bytesOf group (padding + 1) rest
      else bytesOf group padding rest
    else
      match digit64? c, group with
      | none, _ => bytesOf group padding rest
      | some d, [] => bytesOf [d] 0 rest
      | some d, [x] => (bytesOf [x, d] 0 rest).map (byte (x * 4 + d / 16) :: ·)
      | some d, [x, y] => (bytesOf [x, y, d] 0 rest).map (byte (y % 16 * 16 + d / 4) :: ·)
      | some d, _ :: _ :: z :: _ => (bytesOf [] 0 rest).map (byte (z % 4 * 64 + d) :: ·)

/-- The bytes that an ASCII text stands for. -/
def bytes (text : List Char) : Except Fault (List UInt8) :=
  if text.all (·.toNat < 128) then
    match bytesOf [] 0 text with
    | some bytes => .ok bytes
    | none => .error .invalid
  else .error .invalid

/-- A calendar fault as a fault of a text. -/
def checked {α : Type} (result : Except CalendarFault α) : Except Fault α :=
  result.mapError fun fault => .value (.calendar fault)

/-- The date or moment that a text denotes. A line feed at the end does not count. -/
def timestamp (text : List Char) : Except Fault Scalar :=
  match Timestamp.parse? (if text.getLast? = some '\n' then text.dropLast else text) with
  | none => .error .noMatch
  | some { year, month, day, time := none } => do
    return .date (← checked (Date.make year month day))
  | some { year, month, day, time := some t } => do
    return .datetime (← checked (DateTime.make year month day t.hour t.minute t.second
      (Timestamp.microseconds t.fraction) t.offset))

/-- What a scalar denotes. Only the kinds of scalars have a meaning for a text. -/
def scalar (kind : Kind) (text : String) : Except Fault Scalar :=
  match kind with
  | .null => .ok .null
  | .bool => (bool text).map .bool
  | .int => (int text.toList).map .int
  | .float => (float text.toList).map .float
  | .binary => (bytes text.toList).map .bytes
  | .timestamp => timestamp text.toList
  | .string => .ok (.str text)
  | _ => .error .invalid

end Typewright.Yaml.Meaning
