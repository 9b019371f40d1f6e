import Typewright.TypeScript.Declaration

/-!
# What type expressions are built of

A type expression is built of given raw texts and names if all its raw texts and names are among
them, its comments are made of descriptions, and what an intersection takes as it is are objects
(`TypeExpr.Built`). The compiler builds its types
this way, and what is shown about their text is shown by induction on it.
-/

namespace Typewright

/-- A comment made of a description. -/
def Comment.IsDescription (comment : Comment) : Prop :=
  ∃ description deprecated, comment = .ofDescription description deprecated

theorem Comment.isDescription_none : Comment.none.IsDescription :=
  ⟨Option.none, false, rfl⟩

namespace TypeExpr

/-- A type expression whose raw texts and names are as given, in the shape that the compiler gives
to it. -/
inductive Built (isRaw isName : String → Prop) : TypeExpr → Prop
  | unknown : Built isRaw isName .unknown
  | never : Built isRaw isName .never
  | undefined : Built isRaw isName .undefined
  | primitive (type : Primitive) : Built isRaw isName (.primitive type)
  | literal (value : Scalar) : Built isRaw isName (.literal value)
  | name {text : String} (given : isName text) : Built isRaw isName (.name text)
  | raw {text : String} (given : isRaw text) : Built isRaw isName (.raw text)
  | union {members : List TypeExpr} (each : ∀ t ∈ members, Built isRaw isName t) :
      Built isRaw isName (.union members)
  | intersection {parts own : List TypeExpr} (eachPart : ∀ t ∈ parts, Built isRaw isName t)
      (eachOwn : ∀ t ∈ own, Built isRaw isName t)
      (objects : ∀ t ∈ own, ∃ properties index, t = .object properties index) :
      Built isRaw isName (.intersection parts own)
  | array {item : TypeExpr} (inside : Built isRaw isName item) : Built isRaw isName (.array item)
  | tuple {items rest : List TypeExpr} (eachItem : ∀ t ∈ items, Built isRaw isName t)
      (eachRest : ∀ t ∈ rest, Built isRaw isName t) : Built isRaw isName (.tuple items rest)
  | sized {item : TypeExpr} {least most : Int} (inside : Built isRaw isName item) :
      Built isRaw isName (.sized item least most)
  | object {properties : List (PropertyHead × TypeExpr)} {index : List TypeExpr}
      (described : ∀ property ∈ properties, property.1.comment.IsDescription)
      (eachProperty : ∀ property ∈ properties, Built isRaw isName property.2)
      (eachIndex : ∀ t ∈ index, Built isRaw isName t) :
      Built isRaw isName (.object properties index)

theorem Built.mono {isRaw isName weakerRaw weakerName : String → Prop} {t : TypeExpr}
    (built : Built isRaw isName t) (raws : ∀ text, isRaw text → weakerRaw text)
    (names : ∀ text, isName text → weakerName text) : Built weakerRaw weakerName t := by
  induction built with
  | unknown => exact .unknown
  | never => exact .never
  | undefined => exact .undefined
  | primitive type => exact .primitive type
  | literal value => exact .literal value
  | name given => exact .name (names _ given)
  | raw given => exact .raw (raws _ given)
  | union _ ih => exact .union ih
  | intersection _ _ objects ihPart ihOwn => exact .intersection ihPart ihOwn objects
  | array _ ih => exact .array ih
  | tuple _ _ ihItem ihRest => exact .tuple ihItem ihRest
  | sized _ ih => exact .sized ih
  | object described _ _ ihProperty ihIndex => exact .object described ihProperty ihIndex

end TypeExpr

end Typewright
