import Typewright.Text.Word

/-!
# Arguments of the command

Reading the arguments of the command. An option may be cut short as long as only one option begins
so, its value is the next argument or follows an equals sign, and the last of several values counts.
Everything that is neither an option nor its value is refused.
-/

namespace Typewright.CommandLine

open Text

/-- The options of the command. -/
inductive Flag
  | help
  | url
  | output
  | endpoints
  | compiler
  | initConfig
  | verbose
  deriving DecidableEq, Repr

namespace Flag

/-- All options with their names. -/
def names : List (String × Flag) :=
  [("--help", help), ("--url", url), ("--output", output), ("--endpoints", endpoints),
    ("--compiler", compiler), ("--init-config", initConfig), ("--verbose", verbose)]

/-- Whether an option has a value. -/
def takesValue : Flag → Bool
  | url | output | endpoints | compiler => true
  | help | initConfig | verbose => false

end Flag

/-- What the arguments ask for. -/
structure Arguments where
  url : Option String := none
  output : Option String := none
  endpoints : Option String := none
  compiler : Option String := none
  initConfig : Bool := false
  verbose : Bool := false
  deriving DecidableEq, Repr

/-- The outcome of reading the arguments. -/
inductive Parsed
  | arguments (arguments : Arguments)
  | help
  | refused
  deriving DecidableEq, Repr

/-- What an argument is by its form: an option, perhaps with a value after an equals sign; a plain
argument; or something that can only be refused, now or after all others. -/
inductive Piece
  | flag (flag : Flag) (value : Option String)
  | helpTail (tail : List Char)
  | plain (text : String)
  | unknown
  | ambiguous
  deriving DecidableEq, Repr

/-- Digits alone, or digits after a point with further digits before it. -/
def isNumber (text : List Char) : Bool :=
  let isDigits (digits : List Char) : Bool :=
    !digits.isEmpty && digits.all fun c => (digitValue? c).isSome
  isDigits text ||
    match text.dropWhile (· != '.') with
    | _ :: fraction =>
      isDigits fraction && (text.takeWhile (· != '.')).all fun c => (digitValue? c).isSome
    | [] => false

/-- What an argument is that begins with one hyphen. -/
def shortPiece (text : String) : Piece :=
  match text.toList.drop 1 with
  | [] => .plain text
  | ['h'] => .flag .help none
  | 'h' :: tail => .helpTail tail
  | rest => if isNumber rest || rest.contains ' ' then .plain text else .unknown

/-- What an argument is that begins with two hyphens. -/
def longPiece (text : String) : Piece :=
  let chars := text.toList
  let name := String.ofList (chars.takeWhile (· != '='))
  let value := match chars.dropWhile (· != '=') with
    | _ :: value => some (String.ofList value)
    | [] => none
  match Flag.names.find? (·.1 == name), Flag.names.filter (·.1.startsWith name) with
  | some (_, flag), _ | none, [(_, flag)] => .flag flag value
  | none, [] => if chars.contains ' ' then .plain text else .unknown
  | none, _ => .ambiguous

/-- What an argument is. -/
def pieceOf (text : String) : Piece :=
  match text.toList with
  | '-' :: '-' :: _ => longPiece text
  | '-' :: _ => shortPiece text
  | _ => .plain text

/-- The pieces of the arguments. After two hyphens alone, nothing is an option. -/
def pieces : List String → List Piece
  | [] => []
  | "--" :: rest => .unknown :: rest.map .plain
  | text :: rest => pieceOf text :: pieces rest

namespace Arguments

/-- Sets an option without a value. -/
def switch (arguments : Arguments) : Flag → Arguments
  | .initConfig => { arguments with initConfig := true }
  | .verbose => { arguments with verbose := true }
  | _ => arguments

/-- Sets the value of an option, if it is one of those allowed. -/
def set? (arguments : Arguments) (flag : Flag) (value : String) : Option Arguments :=
  match flag with
  | .url => some { arguments with url := some value }
  | .output => some { arguments with output := some value }
  | .endpoints => some { arguments with endpoints := some value }
  | .compiler =>
    if ["builtin", "json2ts"].contains value then some { arguments with compiler := some value }
    else none
  | _ => none

/-- Whether letters after the option for help, without a blank, ask for help too. -/
def isHelpTail : List Char → Bool
  | [] => true
  | '-' :: _ | '=' :: _ => false
  | 'h' :: '=' :: _ => false
  | 'h' :: rest => isHelpTail rest
  | _ => true

/-- Reads pieces in order; `refuse` says that some of them before must be refused in the end. -/
def ofPieces : Bool → Arguments → List Piece → Parsed
  | refuse, arguments, [] => if refuse then .refused else .arguments arguments
  | refuse, arguments, piece :: rest =>
    match piece with
    | .ambiguous => .refused
    | .plain _ | .unknown => ofPieces true arguments rest
    | .helpTail tail => if isHelpTail tail then .help else .refused
    | .flag flag (some value) =>
      if flag.takesValue then
        match arguments.set? flag value with
        | some arguments => ofPieces refuse arguments rest
        | none => .refused
      else .refused
    | .flag flag none =>
      if flag = .help then .help
      else if flag.takesValue then
        match rest with
        | .plain value :: rest =>
          match arguments.set? flag value with
          | some arguments => ofPieces refuse arguments rest
          | none => .refused
        | _ => .refused
      else ofPieces refuse (arguments.switch flag) rest

/-- Reads the arguments of the command. -/
def parse (texts : List String) : Parsed :=
  let pieces := pieces texts
  if pieces.contains .ambiguous then .refused else ofPieces false {} pieces

end Arguments

end Typewright.CommandLine
