import Typewright.Text.CodeTable
import Typewright.Text.Quoted
import Typewright.Text.Utf8

/-!
# Percent encoding

Bytes written as a percent sign and two hexadecimal digits. Decoding replaces such bytes within runs
of ASCII and reads each run as UTF-8; encoding leaves letters, digits, `_`, `.`, `-`, `~` and
slashes as they are.
-/

namespace Typewright.Uri

open Text

/-- The value of a hexadecimal digit. -/
def hexDigit? (c : Char) : Option Nat :=
  if c.isDigit || ('a' ≤ c && c ≤ 'f') || ('A' ≤ c && c ≤ 'F') then some (hexDigitValue c) else none

/-- The bytes of a run of ASCII. -/
def runBytes : List Char → List UInt8
  | '%' :: a :: b :: rest =>
    match hexDigit? a, hexDigit? b with
    | some high, some low => UInt8.ofNat (16 * high + low) :: runBytes rest
    | _, _ => 37 :: runBytes (a :: b :: rest)
  | c :: rest => UInt8.ofNat c.toNat :: runBytes rest
  | [] => []

/-- Decodes a text whose run of ASCII so far is given, last character first. -/
def decodeRuns : List Char → List Char → List Char
  | run, [] => (Utf8.decodeLossy (runBytes run.reverse)).toList
  | run, c :: rest =>
    if c.toNat < 128 then decodeRuns (c :: run) rest
    else (Utf8.decodeLossy (runBytes run.reverse)).toList ++ c :: decodeRuns [] rest

/-- A text with its percent-encoded bytes decoded. -/
def decode (text : List Char) : List Char :=
  if text.contains '%' then decodeRuns [] text else text

/-- A byte as it stands in a path. -/
def encodeByte (b : UInt8) : List Char :=
  let c := Char.ofNat b.toNat
  if b < 128 && (c.isAlphanum || ['_', '.', '-', '~', '/'].contains c) then [c]
  else
    let digits := (hexDigits 2 b.toNat).map Char.toUpper
    '%' :: digits

/-- A path with all other bytes percent-encoded. -/
def encode (path : String) : String :=
  String.ofList ((Utf8.encode path).flatMap encodeByte)

end Typewright.Uri
