import Typewright.Text.Utf8
import Typewright.Document.Calendar
import Typewright.Document.Display

/-!
# Errors

The ways in which the library refuses its input, by cause. `Error.message` is the text that a user
sees and `Error.kind` the name of the kind of failure, which is part of the text where an error is
reported inside another one.
-/

namespace Typewright

/-- Why a file cannot be read or written. -/
inductive FileFault
  | missing
  | isDirectory
  | notDirectory
  | alreadyThere
  | nameTooLong
  | other (number : Nat) (text : String)
  deriving DecidableEq, Repr

/-- The wording of a fault, with its number in the system's list. -/
def FileFault.message : FileFault → String
  | missing => "[Errno 2] No such file or directory"
  | isDirectory => "[Errno 21] Is a directory"
  | notDirectory => "[Errno 20] Not a directory"
  | alreadyThere => "[Errno 17] File exists"
  | nameTooLong => "[Errno 36] File name too long"
  | other number text => "[Errno " ++ Numeral.decimal number ++ "] " ++ text

/-- Why a document cannot be had. -/
inductive ResolutionFault
  | invalidText
  | rootNotObject
  | unfetchable
  | unreadable (fault : FileFault) (path : String)
  deriving DecidableEq, Repr

/-- The wording of a fault. -/
def ResolutionFault.message : ResolutionFault → String
  | invalidText => "Invalid JSON/YAML document"
  | rootNotObject => "Document root must be an object"
  | unfetchable => "Cannot fetch document"
  | unreadable fault path =>
    "Cannot read file: " ++ fault.message ++ ": " ++ Display.quoted path

/-- A scalar's text that does not denote a value of the kind asked for. -/
inductive ValueFault
  | numeral (base : Nat) (text : String)
  | decimal (text : String)
  | tooManyDigits (count : Nat)
  | tooLong
  | calendar (fault : CalendarFault)
  | circular
  | codePoint
  | nullByte
  | address (message : String)
  deriving DecidableEq, Repr

/-- The wording of a fault. -/
def ValueFault.message : ValueFault → String
  | numeral base text =>
    "invalid literal for int() with base " ++ Numeral.decimal base ++ ": " ++ Display.quoted text
  | decimal text => "could not convert string to float: " ++ Display.quoted text
  | tooManyDigits count =>
    "Exceeds the limit (4300 digits) for integer string conversion: value has " ++
      Numeral.decimal count ++ " digits; use sys.set_int_max_str_digits() to increase the limit"
  | tooLong =>
    "Exceeds the limit (4300 digits) for integer string conversion; " ++
      "use sys.set_int_max_str_digits() to increase the limit"
  | calendar fault => fault.message
  | circular => "Circular reference detected"
  | codePoint => "chr() arg not in range(0x110000)"
  | nullByte => "embedded null byte"
  | address message => message

/-- Why the outside compiler gives no text. -/
inductive CompilerFault
  | notFound (command : String)
  | unwritable (fault : ValueFault)
  | exited (code : Int) (complaint : String)
  deriving DecidableEq, Repr

/-- The wording of a fault. -/
def CompilerFault.message : CompilerFault → String
  | notFound command =>
    "'" ++ command ++ "' not found. Install Node.js and json-schema-to-typescript"
  | unwritable fault => "Schema is not serializable: " ++ fault.message
  | exited code complaint =>
    "json2ts exited with code " ++ Numeral.ofInt code ++ ": " ++ complaint

/-- The wording of a decoding failure. -/
def undecodableMessage (failure : Text.Utf8.Failure) : String :=
  let last := failure.offset + failure.width - 1
  let place :=
    if failure.width = 1 then
      "byte 0x" ++ String.ofList (Text.hexDigits 2 failure.byte.toNat) ++ " in position " ++
        Numeral.decimal failure.offset
    else
      "bytes in position " ++ Numeral.decimal failure.offset ++ "-" ++ Numeral.decimal last
  "'utf-8' codec can't decode " ++ place ++ ": " ++ failure.fault.message

/-- An error that a package raised: the name of its kind, whether that is a kind of bad value, and
its text. -/
structure Foreign where
  kind : String
  isBadValue : Bool := false
  message : String
  deriving DecidableEq, Repr

/-- How a package refuses what it is given: by the error of its own that its callers are prepared
for, or by any other one. -/
inductive Refusal
  | own
  | other (error : Foreign)
  deriving DecidableEq, Repr

/-- The causes of failure. -/
inductive Error
  /-- A document could not be had; the locator may be empty. -/
  | resolution (locator : String) (fault : ResolutionFault)
  /-- A reference has no target: the reason. -/
  | reference (uri : String) (reason : String)
  /-- The outside compiler gave no text. -/
  | compiler (fault : CompilerFault)
  /-- No balanced pair of braces after an offset. -/
  | unbalanced (start : Nat)
  /-- The schema to compile has no title. -/
  | untitledRoot
  /-- A reference out of the schema to compile. -/
  | unsupportedRef (ref : String)
  /-- A reference within the schema to compile that names nothing. -/
  | unresolvableRef (ref : String)
  /-- A compiler's name that is none. -/
  | unknownCompiler (name : String)
  /-- A text that does not denote a value. -/
  | badValue (fault : ValueFault)
  /-- Bytes that are not UTF-8. -/
  | undecodable (failure : Text.Utf8.Failure)
  /-- A value of a kind that the operation does not take. -/
  | wrongKind
  /-- A value with no entries or no text where it should have some. -/
  | noSuchPart
  /-- A position past the end. -/
  | outOfRange
  /-- References that lead to each other without end. -/
  | endless
  /-- A file could not be read or written. -/
  | file (fault : FileFault) (path : String)
  /-- An error of a package that no caller is prepared for. -/
  | foreign (error : Foreign)
  deriving DecidableEq, Repr

namespace Error

/-- The name of the kind of failure. -/
def kind : Error → String
  | resolution _ _ => "ResolutionError"
  | reference _ _ => "JsonRefError"
  | compiler _ => "CompilerError"
  | unbalanced _ => "SplitterError"
  | untitledRoot | unsupportedRef _ | unresolvableRef _ | unknownCompiler _ | badValue _ =>
    "ValueError"
  | undecodable _ => "UnicodeDecodeError"
  | wrongKind => "TypeError"
  | noSuchPart => "AttributeError"
  | outOfRange => "IndexError"
  | endless => "RecursionError"
  | file .missing _ => "FileNotFoundError"
  | file .isDirectory _ => "IsADirectoryError"
  | file .notDirectory _ => "NotADirectoryError"
  | file .alreadyThere _ => "FileExistsError"
  | file .nameTooLong _ => "OSError"
  | file (.other number _) _ => if number = 1 ∨ number = 13 then "PermissionError" else "OSError"
  | foreign error => error.kind

/-- The text that a user sees. -/
def message : Error → String
  | resolution locator fault =>
    if locator = "" then fault.message else "[" ++ locator ++ "] " ++ fault.message
  | reference uri reason => "Error while resolving `" ++ uri ++ "`: " ++ reason
  | compiler fault => fault.message
  | unbalanced start =>
    "could not find balanced braces (offset " ++ Numeral.decimal start ++ ")"
  | untitledRoot => "Root schema must have a title"
  | unsupportedRef ref => "Unsupported $ref: " ++ ref
  | unresolvableRef ref => "Unresolvable $ref: " ++ ref
  | unknownCompiler name =>
    "Unknown compiler '" ++ name ++ "', expected one of ['builtin', 'json2ts']"
  | badValue fault => fault.message
  | undecodable failure => undecodableMessage failure
  | file fault path => fault.message ++ ": " ++ Display.quoted path
  | wrongKind => "a value of this kind cannot be used here"
  | noSuchPart => "a value has no such part"
  | outOfRange => "a position is out of range"
  | endless => "references lead to each other without end"
  | foreign error => error.message

/-- Refuses to write an integer with too many digits. -/
def refuseLong (long : Bool) : Except Error Unit :=
  if long then .error (.badValue .tooLong) else .ok ()

end Error

end Typewright
