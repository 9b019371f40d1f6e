import Typewright.Document.Calendar

/-!
# Written dates and moments

The texts that are dates or moments in YAML: `2020-01-31`, and the same with a time of day after a
`T` or blanks, with a fraction of a second and with a distance from universal time.
`Timestamp.parse?` reads the form, and `Timestamp.value` checks the fields against the calendar.
-/

namespace Typewright.Yaml

/-- A time of day as it is written: its fraction as digits, and its distance from universal time in
seconds. -/
structure WrittenTime where
  hour : Nat
  minute : Nat
  second : Nat
  fraction : List Char
  offset : Option Int
  deriving DecidableEq, Repr

/-- A date as it is written, with a time if there is one. -/
structure Timestamp where
  year : Nat
  month : Nat
  day : Nat
  time : Option WrittenTime
  deriving DecidableEq, Repr

namespace Timestamp

/-- The value of decimal digits. -/
def digitsValue (digits : List Char) : Nat :=
  digits.foldl (fun n d => 10 * n + (d.toNat - 48)) 0

/-- Reads digits, at least one number of them and at most another. -/
def digits? (least most : Nat) (text : List Char) : Option (Nat × List Char) :=
  let digits := (text.take most).takeWhile Char.isDigit
  if digits.length < least then none else some (digitsValue digits, text.drop digits.length)

/-- Reads digits after a given character. -/
def digitsAfter? (mark : Char) (least most : Nat) : List Char → Option (Nat × List Char)
  | [] => none
  | c :: rest => if c = mark then digits? least most rest else none

/-- Spaces and tabs. -/
def isGap (c : Char) : Bool :=
  c == ' ' || c == '\t'

/-- The text after what separates the date from the time. -/
def afterDate? : List Char → Option (List Char)
  | [] => none
  | c :: rest =>
    if c = 'T' ∨ c = 't' then some rest
    else if isGap c then some (rest.dropWhile isGap)
    else none

/-- The digits after a decimal point, none if there is no point. -/
def fraction : List Char → List Char × List Char
  | '.' :: rest => (rest.takeWhile Char.isDigit, rest.dropWhile Char.isDigit)
  | text => ([], text)

/-- Reads a distance from universal time that ends the text, which may be left out. -/
def offset? (text : List Char) : Option (Option Int) :=
  match text, text.dropWhile isGap with
  | [], _ => some none
  | _, ['Z'] => some (some 0)
  | _, sign :: rest =>
    if sign = '+' ∨ sign = '-' then do
      let (hours, rest) ← digits? 1 2 rest
      let (minutes, rest) ← if rest.isEmpty then some (0, []) else digitsAfter? ':' 2 2 rest
      if !rest.isEmpty then none
      let seconds : Int := hours * 3600 + minutes * 60
      return some (if sign = '-' then -seconds else seconds)
    else none
  | _, [] => none

/-- Reads a time of day that ends the text. -/
def time? (text : List Char) : Option WrittenTime := do
  let (hour, rest) ← digits? 1 2 text
  let (minute, rest) ← digitsAfter? ':' 2 2 rest
  let (second, rest) ← digitsAfter? ':' 2 2 rest
  let (fraction, rest) := fraction rest
  return { hour, minute, second, fraction, offset := ← offset? rest }

/-- Reads a date with an optional time. Months and days have one digit or two. -/
def parse? (text : List Char) : Option Timestamp := do
  let (year, rest) ← digits? 4 4 text
  let (month, rest) ← digitsAfter? '-' 1 2 rest
  let (day, rest) ← digitsAfter? '-' 1 2 rest
  if rest.isEmpty then return { year, month, day, time := none }
  else return { year, month, day, time := some (← time? (← afterDate? rest)) }

/-- Whether a text is a date or a moment by its form. A date alone is written in full. -/
def isPlain (text : List Char) : Bool :=
  match parse? text with
  | none => false
  | some { time := none, .. } => text.length == 10
  | some _ => true

/-- Microseconds from the digits of a fraction; further digits do not count. -/
def microseconds (fraction : List Char) : Nat :=
  let digits := fraction.take 6
  digitsValue (digits ++ List.replicate (6 - digits.length) '0')

end Timestamp

end Typewright.Yaml
