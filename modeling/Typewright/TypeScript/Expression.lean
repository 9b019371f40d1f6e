import Typewright.Identifier
import Typewright.Json.Writer
import Typewright.Text.Search

/-!
# Type expressions

The type expressions that schemas are compiled to (`TypeExpr`), and their text. Unions leave out
members whose text has occurred before. Where an operand stands before `[]` or between `&`, its text
goes into parentheses if it has a `|` or `&` outside brackets (`parenthesised`). Objects are laid
out over lines, each level indented by two spaces, with comments above their properties.
-/

namespace Typewright

open Text

/-- The lines of a documentation comment. -/
structure Comment where
  lines : List String
  deriving DecidableEq, Repr

namespace Comment

/-- No comment. -/
def none : Comment := ⟨[]⟩

/-- The comment for a description, if there is one, and a mark for deprecated things. The end of a
comment inside the description is broken up. -/
def ofDescription (description : Option String) (deprecated : Bool) : Comment :=
  let described := match description with
    | some text =>
      (Text.lines (replacePair '*' '/' ['*', '\\', '/'] (trim text.toList))).map String.ofList
    | Option.none => []
  ⟨described ++ (if deprecated then ["@deprecated"] else [])⟩

/-- The text of a comment, each line after the given indent; nothing if it has no lines. -/
def text (comment : Comment) (indent : String) : String :=
  if comment.lines.isEmpty then ""
  else
    let shown := comment.lines.map fun line =>
      String.ofList (trimEnd (indent ++ " * " ++ line).toList)
    indent ++ "/**\n" ++ "\n".intercalate shown ++ "\n" ++ indent ++ " */\n"

end Comment

/-- What is written before the type of a property. -/
structure PropertyHead where
  comment : Comment
  name : String
  isOptional : Bool
  deriving DecidableEq, Repr

/-- The types that have a word of their own. -/
inductive Primitive
  | string
  | number
  | boolean
  | null
  deriving DecidableEq, Repr

/-- The word of a primitive type. -/
def Primitive.text : Primitive → String
  | string => "string"
  | number => "number"
  | boolean => "boolean"
  | null => "null"

/-- The primitive type that a schema's `type` names. -/
def Primitive.ofSchemaType? (name : String) : Option Primitive :=
  if name = "string" then some .string
  else if name = "number" ∨ name = "integer" then some .number
  else if name = "boolean" then some .boolean
  else if name = "null" then some .null
  else Option.none

/-- Type expressions.

* `literal` is the type of one value; a scalar that has no literal is unknown.
* `intersection parts own` joins the parts, in parentheses where needed, and the own objects as they
  are.
* `tuple items rest` is a tuple that may go on with items of the types in `rest`.
* `sized item least most` is the union of the tuples of all sizes in a range.
* `object properties index` has an index signature with the union of the types in `index`, none if
  there are none. -/
inductive TypeExpr
  | unknown
  | never
  | undefined
  | primitive (type : Primitive)
  | literal (value : Scalar)
  | name (text : String)
  | raw (text : String)
  | union (members : List TypeExpr)
  | intersection (parts own : List TypeExpr)
  | array (item : TypeExpr)
  | tuple (items rest : List TypeExpr)
  | sized (item : TypeExpr) (least most : Int)
  | object (properties : List (PropertyHead × TypeExpr)) (index : List TypeExpr)
  deriving Repr, Inhabited

namespace TypeExpr

/-- The text of a literal type. -/
def literalText (s : Scalar) : String :=
  match Json.scalarText s with
  | .ok text => text
  | .error _ => "unknown"

/-- Whether a text, read from a given depth of brackets, has a `|` or `&` at depth zero. Brackets
are counted wherever they stand. -/
def hasOuterOperator : Int → List Char → Bool
  | _, [] => false
  | depth, c :: rest =>
    if c = '(' ∨ c = '[' ∨ c = '\x7b' ∨ c = '<' then hasOuterOperator (depth + 1) rest
    else if c = ')' ∨ c = ']' ∨ c = '\x7d' ∨ c = '>' then hasOuterOperator (depth - 1) rest
    else if (c = '|' ∨ c = '&') ∧ depth = 0 then true
    else hasOuterOperator depth rest

/-- The text of an operand, in parentheses if it has a `|` or `&` outside brackets. -/
def parenthesised (text : String) : String :=
  if hasOuterOperator 0 text.toList then "(" ++ text ++ ")" else text

/-- The text of a union: each text once, in order; nothing belongs to the empty union. -/
def unionText (members : List String) : String :=
  if members.isEmpty then "never" else " | ".intercalate members.eraseDups

/-- The spaces before a line at a level. -/
def indent (level : Nat) : String :=
  String.ofList (List.replicate (2 * level) ' ')

/-- A property name as it stands in an object type: quoted unless it is a safe identifier. -/
def keyText (name : String) : String :=
  if Identifier.isSafe name then name else Text.quote name

/-- The line of a property at a level, under its comment. -/
def propertyText (level : Nat) (head : PropertyHead) (type : String) : String :=
  head.comment.text (indent level) ++ indent level ++ keyText head.name ++
    (if head.isOptional then "?" else "") ++ ": " ++ type ++ ";"

/-- The text of a tuple. -/
def tupleText (items rest : List String) : String :=
  "[" ++ ", ".intercalate (items ++ rest.map fun type => "..." ++ parenthesised type ++ "[]") ++ "]"

/-- The sizes in a range, which is empty if its ends are the wrong way round. -/
def sizes (least most : Int) : List Nat :=
  (List.range (most + 1 - least).toNat).map fun (offset : Nat) => (least + (offset : Int)).toNat

/-- The text of an object type whose lines stand at a level. -/
def objectText (level : Nat) (properties index : List String) : String :=
  let lines := properties ++
    (if index.isEmpty then [] else [indent level ++ "[k: string]: " ++ unionText index ++ ";"])
  if lines.isEmpty then "\x7b\x7d"
  else "\x7b\n" ++ "\n".intercalate lines ++ "\n" ++ indent (level - 1) ++ "\x7d"

mutual

/-- The text of a type expression within lines at a level. -/
def text (level : Nat) : TypeExpr → String
  | unknown => "unknown"
  | never => "never"
  | undefined => "undefined"
  | primitive type => type.text
  | literal value => literalText value
  | name n => n
  | raw t => t
  | union members => unionText (texts level members)
  | intersection parts own =>
    let shown := (texts level parts).map parenthesised ++ texts level own
    if shown.isEmpty then "unknown" else " & ".intercalate shown
  | array item => parenthesised (text level item) ++ "[]"
  | tuple items rest => tupleText (texts level items) (texts level rest)
  | sized item least most =>
    let shown := text level item
    " | ".intercalate ((sizes least most).map fun size => tupleText (List.replicate size shown) [])
  | object properties index =>
    objectText (level + 1) (propertyTexts (level + 1) properties) (texts (level + 1) index)

/-- The texts of several type expressions. -/
def texts (level : Nat) : List TypeExpr → List String
  | [] => []
  | type :: rest => text level type :: texts level rest

/-- The lines of the properties of an object. -/
def propertyTexts (level : Nat) : List (PropertyHead × TypeExpr) → List String
  | [] => []
  | (head, type) :: rest =>
    propertyText level head (text level type) :: propertyTexts level rest

end

end TypeExpr

end Typewright
