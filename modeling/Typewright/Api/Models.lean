import Typewright.Compile.Whole
import Typewright.External.Program
import Typewright.Model.Extract

/-!
# Models of a description

From a description without references to its models and endpoints: the description is normalised,
its definitions are compiled by the built-in or by the outside compiler, and the models are cut out
of the text.
-/

namespace Typewright.Api

/-- The result for a description, with the run of the outside compiler if there was one. -/
structure Docs where
  models : List Model
  endpoints : List Endpoint
  warnings : List Warning
  run : Option External.Run
  deriving Repr

/-- The text of all models. -/
def Docs.code (docs : Docs) : String :=
  "\n".intercalate (docs.models.map (·.code))

/-- The compilers to choose from; the outside one with its program. -/
inductive Compiler
  | builtin
  | outside (program : External.Program)

/-- What a compiler makes of the definitions of a description. -/
def Compiler.apply (compiler : Compiler) (normal : Normal) :
    Except Error (String × List Warning × Option External.Run) :=
  match compiler with
  | .builtin => do
    let source ← Compile.wholeSource normal.graph normal.definitions
    return (source.text, source.warnings, none)
  | .outside program => do
    let (g, root) := Compile.addRoot normal.graph normal.definitions
    let run ← External.compile program External.defaultCommand g root g Compile.wholeOptions
    return (run.output, [], some run)

/-- The models and endpoints of a description without references. -/
def docs (g : Graph) (document : Value) (compiler : Compiler) : Except Error Docs := do
  let normal ← normalise g document
  let (source, warnings, run) ← compiler.apply normal
  let context : Model.Context :=
    { graph := normal.graph, naming := normal.naming, schemas := normal.schemas
      generatedIds := normal.generatedIds, excludedIds := [topLevelTitle] }
  let (models, more) ← Model.extract context source
  return { models, endpoints := normal.endpoints, warnings := warnings ++ more, run }

end Typewright.Api
