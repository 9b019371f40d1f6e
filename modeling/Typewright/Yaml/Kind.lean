import Typewright.Text.CodeTable
import Typewright.Yaml.Timestamp

/-!
# Kinds of YAML nodes

Every node is of a kind, which its tag names. A scalar without a tag is of the kind that the form of
its text shows: `12` is an integer, `1.5` a floating-point number, `yes` a truth value, `2020-01-31`
a date, and what has none of these forms is a text.
-/

namespace Typewright.Yaml

open Text

/-- The kinds of nodes. `merge` is the kind of the key `<<` and `value` that of the key `=`;
`unknown` stands for every other kind. -/
inductive Kind
  | null
  | bool
  | int
  | float
  | binary
  | timestamp
  | string
  | sequence
  | mapping
  | orderedMapping
  | pairs
  | set
  | merge
  | value
  | unknown
  deriving DecidableEq, Repr, Inhabited

namespace Kind

/-- The names of the kinds in tags. -/
def names : List (String × Kind) :=
  [("null", null), ("bool", bool), ("int", int), ("float", float), ("binary", binary),
    ("timestamp", timestamp), ("str", string), ("seq", sequence), ("map", mapping),
    ("omap", orderedMapping), ("pairs", pairs), ("set", set), ("merge", merge),
    ("value", value)]

/-- What the tags of these kinds begin with. -/
def tagStart : String := "tag:yaml.org,2002:"

/-- The kind that a tag names. -/
def ofTag (tag : String) : Kind :=
  ((names.find? fun (name, _) => tag == tagStart ++ name).map (·.2)).getD unknown

/-! ## Forms of scalars -/

/-- The text without a sign in front. -/
def dropSign : List Char → List Char
  | '-' :: rest => rest
  | '+' :: rest => rest
  | text => text

/-- Digits with underscores anywhere after the first of them. -/
def isDigits : List Char → Bool
  | [] => false
  | c :: rest => c.isDigit && rest.all fun d => d.isDigit || d == '_'

/-- Whole numbers below sixty, of one digit or two. -/
def isSixtieth : List Char → Bool
  | [c] => c.isDigit
  | [c, d] => '0' ≤ c && c ≤ '5' && d.isDigit
  | _ => false

/-- The texts that are nothing. -/
def isNull (text : List Char) : Bool :=
  ["", "~", "null", "Null", "NULL"].contains (String.ofList text)

/-- Words in lower case, capitalised and in upper case. -/
def inThreeCases (words : List String) (text : List Char) : Bool :=
  words.any fun word =>
    let capital := match word.toList with
      | [] => []
      | c :: rest => c.toUpper :: rest
    text == word.toList || text == capital || text == word.toList.map Char.toUpper

/-- The texts that are truth values. -/
def isBool (text : List Char) : Bool :=
  inThreeCases ["yes", "no", "true", "false", "on", "off"] text

/-- Digits of a class and underscores, at least one of them. -/
def isNumeral (cls : Char → Bool) (text : List Char) : Bool :=
  !text.isEmpty && text.all fun c => cls c || c == '_'

/-- The texts that are integers: in base two, eight, ten, sixteen or sixty. -/
def isInt (text : List Char) : Bool :=
  match dropSign text with
  | ['0'] => true
  | '0' :: 'b' :: rest => isNumeral (fun c => c == '0' || c == '1') rest
  | '0' :: 'x' :: rest =>
    isNumeral (fun c => c.isDigit || ('a' ≤ c && c ≤ 'f') || ('A' ≤ c && c ≤ 'F')) rest
  | '0' :: rest => isNumeral (fun c => '0' ≤ c && c ≤ '7') rest
  | unsigned =>
    match splitAtChar ':' unsigned with
    | first :: sixtieths => isDigits first && sixtieths.all isSixtieth
    | [] => false

/-- The texts that may follow the digits of a floating-point number: nothing, or a power of ten with
a sign. -/
def isPower : List Char → Bool
  | [] => true
  | e :: sign :: digits =>
    (e == 'e' || e == 'E') && (sign == '-' || sign == '+') && !digits.isEmpty &&
      digits.all Char.isDigit
  | _ => false

/-- Whether a text is digits and underscores with a power of ten after them. -/
def isFraction (text : List Char) : Bool :=
  isPower (text.dropWhile fun c => c.isDigit || c == '_')

/-- The texts that are floating-point numbers. They have a point. -/
def isFloat (text : List Char) : Bool :=
  match dropSign text with
  | '.' :: rest =>
    let word := String.ofList rest
    ["inf", "Inf", "INF"].contains word ||
      (text.head? == some '.' &&
        (["nan", "NaN", "NAN"].contains word ||
          (rest.head?.any Char.isDigit && isFraction rest)))
  | unsigned =>
    let before := unsigned.takeWhile (· != '.')
    match unsigned.dropWhile (· != '.'), splitAtChar ':' before with
    | [], _ | _, [] => false
    | _ :: after, [whole] => isDigits whole && isFraction after
    | _ :: after, whole :: sixtieths =>
      isDigits whole && sixtieths.all isSixtieth && after.all fun c => c.isDigit || c == '_'

/-- The kind of a scalar that shows its kind by its text. A line feed at the end does not count. -/
def ofText (text : String) : Kind :=
  let chars := text.toList
  let chars := if chars.getLast? == some '\n' then chars.dropLast else chars
  if isBool chars then bool
  else if isFloat chars then float
  else if isInt chars then int
  else if chars == ['<', '<'] then merge
  else if isNull chars then null
  else if Timestamp.isPlain chars then timestamp
  else if chars == ['='] then value
  else if [['!'], ['&'], ['*']].contains chars then unknown
  else string

end Kind

end Typewright.Yaml
