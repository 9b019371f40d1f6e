import Typewright.Text.Blank
import Typewright.Text.Word

/-!
# Numerals of whole numbers

Reading whole numbers in a given base, with an optional sign, blanks around the numeral and single
underscores between digits.
-/

namespace Typewright.Numeral

open Text

/-- The most digits that the decimal numeral of an integer may have where it is read or written. -/
def maxDigits : Nat := 4300

/-- The value of a digit in bases up to thirty-six; decimal digits may be of any script. -/
def digit? (base : Nat) (c : Char) : Option Nat := do
  let value ←
    match digitValue? c with
    | some value => some value
    | none =>
      if 'a' ≤ c ∧ c ≤ 'z' then some (c.toNat - 'a'.toNat + 10)
      else if 'A' ≤ c ∧ c ≤ 'Z' then some (c.toNat - 'A'.toNat + 10)
      else none
  if value < base then some value else none

/-- Reads digits with single underscores between them, most significant first, onto the value of
those read so far. The flag says that an underscore may come next. -/
def digitsFrom? (base : Nat) : Nat → Bool → List Char → Option Nat
  | value, afterDigit, [] => if afterDigit then some value else none
  | value, true, '_' :: rest => digitsFrom? base value false rest
  | value, _, c :: rest => do digitsFrom? base (base * value + (← digit? base c)) true rest

/-- Reads an unsigned numeral. -/
def nat? (base : Nat) (text : List Char) : Option Nat :=
  digitsFrom? base 0 false text

/-- The prefix that a numeral of base two, eight or sixteen may carry. -/
def basePrefix (base : Nat) : List Char :=
  if base = 16 then ['x', 'X'] else if base = 8 then ['o', 'O']
  else if base = 2 then ['b', 'B'] else []

/-- Drops the prefix of the base, with an underscore that follows it. -/
def dropBasePrefix (base : Nat) : List Char → List Char
  | '0' :: c :: rest =>
    if (basePrefix base).contains c then
      match rest with
      | '_' :: digits => digits
      | _ => rest
    else '0' :: c :: rest
  | text => text

/-- Reads a signed numeral with blanks around it. -/
def int? (base : Nat) (text : List Char) : Option Int :=
  match trim text with
  | '-' :: rest => (nat? base (dropBasePrefix base rest)).map (fun n => -(n : Int))
  | '+' :: rest => (nat? base (dropBasePrefix base rest)).map Int.ofNat
  | rest => (nat? base (dropBasePrefix base rest)).map Int.ofNat

/-- The decimal digits of a number, at least one. -/
def decimal (n : Nat) : String :=
  String.ofList (Nat.toDigits 10 n)

/-- The decimal digits of a number on at least the given number of places. -/
def padded (width n : Nat) : String :=
  let digits := Nat.toDigits 10 n
  String.ofList (List.replicate (width - digits.length) '0' ++ digits)

/-- The decimal numeral of an integer. -/
def ofInt : Int → String
  | .ofNat n => decimal n
  | .negSucc n => "-" ++ decimal (n + 1)

/-- Whether the decimal numeral of an integer has too many digits. -/
def isTooLong (n : Int) : Bool :=
  maxDigits < (Nat.toDigits 10 n.natAbs).length

end Typewright.Numeral
