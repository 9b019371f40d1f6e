import Typewright.Document.Graph
import Typewright.Number.Decimal
import Typewright.Text.Search
import Typewright.Toml.Layout

/-!
# Numbers, dates and times in a TOML text

What is neither quoted nor a container: integers, also in base two, eight and sixteen,
floating-point numbers, dates, moments and times of day.
-/

namespace Typewright.Toml

open Text

namespace Scalars

/-- Whether zeros and underscores stand in a number only where they may. -/
def isStrict (text : List Char) : Bool :=
  let text := trim text
  let unsigned := match text with
    | '+' :: rest => rest
    | '-' :: rest => rest
    | rest => rest
  let leadsWithZero (allowed : List Char) : List Char → Bool
    | '0' :: c :: _ => !allowed.contains c
    | _ => false
  !text.isEmpty && text.head? != some '_' && text.getLast? != some '_' &&
    (Text.find? ['_', '.'] text).isNone && (Text.find? ['.', '_'] text).isNone &&
    (text.length == 1 ||
      (!leadsWithZero ['.', 'o', 'b', 'x'] text &&
        (unsigned.length == text.length || !leadsWithZero ['.'] unsigned) &&
        (Text.find? ['_', '_'] unsigned).isNone))

/-! ## Times and dates -/

/-- A whole number in a part of a text. -/
def part? (text : List Char) (first last : Nat) : Option Int :=
  Numeral.int? 10 ((text.take last).drop first)

/-- A natural number in a part of a text. -/
def field? (text : List Char) (first last : Nat) : Option Nat := do
  let n ← part? text first last
  if n < 0 then none else some n.toNat

/-- Two digits in front of a text. -/
def twoDigits? : List Char → Option (Nat × List Char)
  | c :: d :: rest =>
    if c.isDigit && d.isDigit then some (10 * (c.toNat - 48) + (d.toNat - 48), rest) else none
  | _ => none

/-- Two digits after a colon. -/
def colonDigits? : List Char → Option (Nat × List Char)
  | ':' :: rest => twoDigits? rest
  | _ => none

/-- The fields of a time of day in front of a text: hours, minutes, seconds, and the number that
three to six digits after a point are. -/
def timeFields? (text : List Char) : Option (Nat × Nat × Nat × Nat) := do
  let (hour, rest) ← twoDigits? text
  let (minute, rest) ← colonDigits? rest
  let (second, rest) ← colonDigits? rest
  let digits := match rest with
    | '.' :: more => (more.take 6).takeWhile Char.isDigit
    | _ => []
  let fraction := if digits.length < 3 then 0 else Binary64.digitsValue (digits.map (·.toNat - 48))
  return (hour, minute, second, fraction)

/-- A time of day. -/
def time (hour minute second microsecond : Nat) : Except Fault Scalar :=
  if 23 < hour ∨ 59 < minute ∨ 59 < second then .error .invalid
  else .ok (.foreign "time" (DateTime.timeText hour minute second microsecond))

/-- The distance from universal time that a text names. -/
def zone? (text : List Char) : Option Int := do
  if text = ['Z'] then return 0
  let hours ← part? text 1 3
  let minutes ← part? text 4 6
  let seconds := hours * 3600 + minutes * 60
  return if text.head? = some '-' then -seconds else seconds

/-- The fraction of a second in microseconds. -/
def microseconds? (digits : List Char) : Option Nat := do
  let n ← field? digits 0 digits.length
  return if digits.length ≤ 6 then n * Nat.pow 10 (6 - digits.length)
    else n / Nat.pow 10 (digits.length - 6)

/-- The part of a text after a fraction that names the distance from universal time, and the
fraction before it. -/
def splitZone (text : List Char) : List Char × Option (List Char) :=
  match text.getLast? with
  | some c =>
    if c = 'Z' ∨ c = 'z' then (text.dropLast, some ['Z'])
    else
      let sign := if text.contains '+' then '+' else '-'
      if text.contains sign then (text.takeWhile (· != sign), some (text.dropWhile (· != sign)))
      else (text, none)
  | none => ([], none)

/-- What stands after the seconds: microseconds and the distance from universal time. What cannot be
read counts as left out. -/
def afterSeconds (text : List Char) : Nat × Option Int :=
  match text.drop 19 with
  | [] => (0, none)
  | '.' :: rest =>
    let (digits, zone) := splitZone rest
    match zone, zone.bind zone? with
    | some _, none => (0, none)
    | _, offset =>
      match microseconds? digits with
      | some n => (n, offset)
      | none => (0, none)
  | zone => (0, zone? zone)

/-- The date or moment that a text is. The fields stand at fixed places, whatever separates them. -/
def date? (text : List Char) : Option Scalar := do
  if !(text.drop 1).contains '-' then none
  let year ← field? text 0 4
  let month ← field? text 5 7
  let day ← field? text 8 10
  if text.length = 10 then
    return .date (← (Date.make year month day).toOption)
  else
    let (microsecond, offset) := afterSeconds text
    let moment := DateTime.make year month day (← field? text 11 13) (← field? text 14 16)
      (← field? text 17 19) microsecond offset
    return .datetime (← moment.toOption)

/-! ## Numbers -/

/-- An integer whose base shows in front of its digits. A decimal one does not begin with a zero
unless it is zero. -/
def integer? (text : List Char) : Option Int :=
  let text := trim text
  let (negative, unsigned) := match text with
    | '-' :: rest => (true, rest)
    | '+' :: rest => (false, rest)
    | rest => (false, rest)
  let base := match unsigned with
    | '0' :: c :: _ =>
      if c = 'x' ∨ c = 'X' then 16 else if c = 'o' ∨ c = 'O' then 8
      else if c = 'b' ∨ c = 'B' then 2 else 10
    | _ => 10
  match Numeral.nat? base (Numeral.dropBasePrefix base unsigned) with
  | none => none
  | some n =>
    if base = 10 ∧ unsigned.head? = some '0' ∧ n ≠ 0 then none
    else if base = 10 ∧ 4300 < unsigned.length then none
    else some (if negative then -n else n)

/-- The value of a number without its sign. -/
def unsigned (negative : Bool) (text : List Char) : Except Fault Scalar :=
  let lower := text.map Char.toLower
  let afterPoint := (text.dropWhile (· != '.')).drop 1
  let isDecimal := text.contains '.' || (!text.contains 'x' && lower.contains 'e')
  if isDecimal && (text.contains '.' && afterPoint.isEmpty || !text.head?.any Char.isDigit) then
    .error .invalid
  else if isDecimal || lower = ['i', 'n', 'f'] || lower = ['n', 'a', 'n'] then
    match Binary64.ofText? text with
    | none => .error .invalid
    | some x => .ok (.float (if negative && !x.isZero then x.negate else x))
  else
    match integer? text with
    | none => .error .invalid
    | some n => .ok (.int (if negative then -n else n))

/-- The value of a number. -/
def number (text : List Char) : Except Fault Scalar :=
  let withoutUnderscores := List.filter (fun c : Char => c != '_')
  match text with
  | '-' :: rest => unsigned true (withoutUnderscores rest)
  | '+' :: rest => unsigned false (withoutUnderscores rest)
  | rest => unsigned false (withoutUnderscores rest)

end Scalars

end Typewright.Toml
