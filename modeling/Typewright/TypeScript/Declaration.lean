import Typewright.TypeScript.Expression

/-!
# Declarations

A declaration gives a name to a type: as an interface, as a constant enumeration or as an alias. It
is exported and may have a documentation comment.
-/

namespace Typewright

/-- What a declaration declares. -/
inductive DeclarationBody
  | interface (type : TypeExpr)
  | constEnum (members : List (String × TypeExpr))
  | alias (type : TypeExpr)
  deriving Repr, Inhabited

/-- A declaration for the schema with the given number. -/
structure Declaration where
  schema : Nat
  name : String
  comment : Comment
  body : DeclarationBody
  deriving Repr

namespace Declaration

/-- The text of a declaration without its comment. -/
def bareText (name : String) : DeclarationBody → String
  | .interface type => "export interface " ++ name ++ " " ++ type.text 0
  | .constEnum members =>
    let lines := members.map fun (member, value) =>
      TypeExpr.indent 1 ++ member ++ " = " ++ value.text 0
    "export const enum " ++ name ++ " \x7b\n" ++ ",\n".intercalate lines ++ "\n\x7d"
  | .alias type => "export type " ++ name ++ " = " ++ type.text 0 ++ ";"

/-- The text of a declaration. -/
def text (d : Declaration) : String :=
  d.comment.text "" ++ bareText d.name d.body

end Declaration

end Typewright
