import Typewright.Number.Numeral

/-!
# Dates and times

Calendar dates of the Gregorian calendar and times of day, as they occur as values in documents,
with the checks on their fields and their texts.
-/

namespace Typewright

/-- A span of seconds as days and the seconds beyond them. -/
def Calendar.spanText (seconds : Int) : String :=
  let days := seconds.fdiv 86400
  let rest := seconds.fmod 86400
  let parts := (if days = 0 then [] else ["days=" ++ Numeral.ofInt days]) ++
    (if rest = 0 then [] else ["seconds=" ++ Numeral.ofInt rest])
  "datetime.timedelta(" ++ (if parts.isEmpty then "0" else ", ".intercalate parts) ++ ")"

/-- A calendar date. -/
structure Date where
  year : Nat
  month : Nat
  day : Nat
  deriving DecidableEq, Repr

/-- A date with a time of day, and its distance from universal time in seconds if it is known. -/
structure DateTime where
  date : Date
  hour : Nat
  minute : Nat
  second : Nat
  microsecond : Nat
  offset : Option Int
  deriving DecidableEq, Repr

/-- A field of a date or time that is out of its range. -/
inductive CalendarFault
  | year (value : Nat)
  | month
  | day
  | hour
  | minute
  | second
  | microsecond
  | offset (seconds : Int)
  deriving DecidableEq, Repr

namespace CalendarFault

/-- The wording of a fault. -/
def message : CalendarFault → String
  | year value => "year " ++ Numeral.decimal value ++ " is out of range"
  | month => "month must be in 1..12"
  | day => "day is out of range for month"
  | hour => "hour must be in 0..23"
  | minute => "minute must be in 0..59"
  | second => "second must be in 0..59"
  | microsecond => "microsecond must be in 0..999999"
  | offset seconds =>
    "offset must be a timedelta strictly between -timedelta(hours=24) and timedelta(hours=24)" ++
      ", not " ++ Calendar.spanText seconds ++ "."

end CalendarFault

namespace Date

/-- Leap years. -/
def isLeap (year : Nat) : Bool :=
  year % 4 == 0 && (year % 100 != 0 || year % 400 == 0)

/-- The number of days of a month. -/
def daysIn (year month : Nat) : Nat :=
  if month = 2 then (if isLeap year then 29 else 28)
  else if month = 4 ∨ month = 6 ∨ month = 9 ∨ month = 11 then 30 else 31

/-- The date with the given fields, if there is one. Years run from 1 to 9999. -/
def make (year month day : Nat) : Except CalendarFault Date :=
  if year < 1 ∨ 9999 < year then .error (.year year)
  else if month < 1 ∨ 12 < month then .error .month
  else if day < 1 ∨ daysIn year month < day then .error .day
  else .ok ⟨year, month, day⟩

/-- The text of a date, `2020-01-31`. -/
def text (d : Date) : String :=
  Numeral.padded 4 d.year ++ "-" ++ Numeral.padded 2 d.month ++ "-" ++ Numeral.padded 2 d.day

/-- The number of days before a date since the beginning of the calendar. -/
def dayNumber (d : Date) : Nat :=
  let before := d.year - 1
  let months := (List.range (d.month - 1)).map (fun m => daysIn d.year (m + 1))
  before * 365 + before / 4 - before / 100 + before / 400 + months.foldl (· + ·) 0 + d.day

end Date

namespace DateTime

/-- The moment with the given fields, if there is one. An offset is less than a day. -/
def make (year month day hour minute second microsecond : Nat) (offset : Option Int) :
    Except CalendarFault DateTime := do
  if 86400 ≤ (offset.getD 0).natAbs then .error (.offset (offset.getD 0))
  let date ← Date.make year month day
  if 23 < hour then .error .hour
  else if 59 < minute then .error .minute
  else if 59 < second then .error .second
  else if 999999 < microsecond then .error .microsecond
  else .ok ⟨date, hour, minute, second, microsecond, offset⟩

/-- The text of a time of day, with a fraction only if there is one. -/
def timeText (hour minute second microsecond : Nat) : String :=
  Numeral.padded 2 hour ++ ":" ++ Numeral.padded 2 minute ++ ":" ++ Numeral.padded 2 second ++
    (if microsecond = 0 then "" else "." ++ Numeral.padded 6 microsecond)

/-- The text of a distance from universal time. -/
def offsetText (offset : Int) : String :=
  let seconds := offset.natAbs
  (if offset < 0 then "-" else "+") ++ Numeral.padded 2 (seconds / 3600) ++ ":" ++
    Numeral.padded 2 (seconds / 60 % 60) ++
    (if seconds % 60 = 0 then "" else ":" ++ Numeral.padded 2 (seconds % 60))

/-- The text of a moment with the given character between date and time. -/
def textWith (separator : String) (t : DateTime) : String :=
  t.date.text ++ separator ++ timeText t.hour t.minute t.second t.microsecond ++
    ((t.offset.map offsetText).getD "")

/-- The text of a moment, `2001-12-14 21:59:43`. -/
def text : DateTime → String :=
  textWith " "

/-- Microseconds since the beginning of the calendar, by universal time if the offset is known. -/
def instant (t : DateTime) : Int :=
  (((t.date.dayNumber * 86400 + t.hour * 3600 + t.minute * 60 + t.second : Nat) : Int) -
    t.offset.getD 0) * 1000000 + t.microsecond

/-- Whether two moments are the same point in time. A moment without an offset is never the same as
one with an offset. -/
def same (s t : DateTime) : Bool :=
  s.offset.isSome == t.offset.isSome && s.instant == t.instant

end DateTime

end Typewright
