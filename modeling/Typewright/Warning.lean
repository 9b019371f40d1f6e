/-!
# Warnings

What the library points out without refusing its input.
-/

namespace Typewright

/-- Warnings. -/
inductive Warning
  /-- A schema without a name contains itself. -/
  | unnamedRecursion
  /-- A declaration belongs to no schema. -/
  | orphanDeclaration (name : String)
  deriving DecidableEq, Repr

/-- The text of a warning. -/
def Warning.message : Warning → String
  | unnamedRecursion => "Unnamed recursive schema rendered as unknown"
  | orphanDeclaration name =>
    "Declaration " ++ name ++ " has no matching schema, dependencies are left empty"

end Typewright
