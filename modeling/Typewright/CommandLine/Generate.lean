import Typewright.Api.Models
import Typewright.CommandLine.Arguments
import Typewright.CommandLine.Notice
import Typewright.Reference.Resolve
import Typewright.Settings

/-!
# The command

The command generates the models of a description, or creates a file of settings. Settings come from
the arguments, and from the file of settings where the arguments say nothing. Expected failures of a
generation are printed; all others end the command.
-/

namespace Typewright.CommandLine

/-- How the command ends. -/
inductive Exit
  | success
  | failure
  | usage
  deriving DecidableEq, Repr

/-- The code for an end. -/
def Exit.code : Exit → Nat
  | success => 0
  | failure => 1
  | usage => 2

/-- Whether an error is an expected failure of a generation. -/
def isReported : Error → Bool
  | .resolution _ _ | .reference _ _ | .compiler _ | .unbalanced _ | .untitledRoot
  | .unsupportedRef _ | .unresolvableRef _ | .unknownCompiler _ | .badValue _
  | .undecodable _ => true
  | .foreign error => error.isBadValue
  | _ => false

/-- A text that may be missing. -/
def optional : Option String → Value
  | some s => .str s
  | none => .null

/-- An endpoint as an object. -/
def addEndpoint (g : Graph) (e : Api.Endpoint) : Graph × Value :=
  let (g, responses) :=
    g.add (.mapping (e.responseModels.map fun (status, id) => (.str status, .str id)))
  g.add (.mapping
    [(.str "id", .str e.id), (.str "title", .str e.path), (.str "path", .str e.path),
      (.str "method", .str e.method), (.str "requestModel", optional e.requestModel),
      (.str "responseModels", responses)])

/-- The index of endpoints by their ids. -/
def endpointIndex (endpoints : List Api.Endpoint) : Document :=
  let (g, entries) := endpoints.foldl (fun (g, entries) e =>
    let (g, v) := addEndpoint g e
    (g, Entries.put entries (.str e.id) v)) (Graph.empty, [])
  let (g, root) := g.add (.mapping entries)
  ⟨g, root⟩

/-- The text of the index of endpoints. -/
def indexText (endpoints : List Api.Endpoint) : Except Error String := do
  let d := endpointIndex endpoints
  let text ← (Json.write d.graph (.indented 2) d.root).mapError Reference.writeError
  return text ++ "\n"

/-- The path that a setting is. -/
def pathOf (d : Document) : Except Error String :=
  match d.root with
  | .scalar (.str path) => .ok path
  | _ => .error .wrongKind

/-- The settings that arguments are. -/
def settingsOf (arguments : Arguments) : Settings :=
  { url := ⟨.empty, optional arguments.url⟩
    output := ⟨.empty, optional arguments.output⟩
    endpoints := ⟨.empty, optional arguments.endpoints⟩
    compiler := ⟨.empty, optional arguments.compiler⟩ }

/-- The settings of a new file: the models have a file of their own, and the built-in compiler is
the default. -/
def initialSettings : Settings :=
  { output := .str "models.ts" }

section

variable {m : Type → Type} [Monad m]

/-- Says something. -/
def say (shell : Shell m) (notice : Notice) : Loading m Unit :=
  ExceptT.lift (shell.printLine notice.text)

/-- The description that settings name: an address or a path, or the description itself. -/
def description (shell : Shell m) (url : Document) : Loading m Document :=
  if url.graph.isMapping url.root then Reference.dereference shell.toOutside "" url
  else Reference.load shell.toOutside (Display.value url.graph url.root)

/-- Saves the results, or prints the models if there is no file for them. -/
def saveResults (shell : Shell m) (docs : Api.Docs) (s : Settings) : Loading m Unit := do
  if s.output.isTruthy then
    let path ← pathOf s.output
    shell.writeTextInto path docs.code
    say shell (.modelsSaved docs.models.length path)
  else say shell (.code docs.code)
  if s.endpoints.isTruthy then
    let path ← pathOf s.endpoints
    shell.writeTextInto path (← indexText docs.endpoints)
    say shell (.endpointsSaved docs.endpoints.length path)

/-- Generates the models that settings ask for. The outside compiler is given as a program. -/
def run (shell : Shell m) (program : External.Program) (s : Settings) : Loading m Unit := do
  let compiler := match ← s.compilerName with
    | .builtin => Api.Compiler.builtin
    | .json2ts => .outside program
  let d ← description shell s.url
  let docs ← Api.docs d.graph d.root compiler
  saveResults shell docs s

/-- Runs a step and reports its expected failures. -/
def reporting (shell : Shell m) (step : Loading m Unit) : Loading m Exit :=
  tryCatch (do step; say shell .finished; return .success) fun error =>
    if isReported error then do
      say shell (.failed error.message)
      return .failure
    else throw error

/-- Generates models as the arguments and the file of settings ask. -/
def generate (shell : Shell m) (program : External.Program) (arguments : Arguments) :
    Loading m Exit := do
  let given := settingsOf arguments
  let found ← Settings.load shell Settings.fileName none
  if found.isSome then say shell .settingsUsed
  let s := (found.getD {}).merge given
  if s.url.isTruthy then
    Error.refuseLong (Display.hasLongInteger s.url.graph s.url.root)
    say shell (.started (Display.value s.url.graph s.url.root))
    reporting shell (run shell program s)
  else
    say shell .urlMissing
    return .failure

/-- Creates a file of settings. -/
def createSettings (shell : Shell m) (arguments : Arguments) : Loading m Exit := do
  let given := settingsOf arguments
  let s := { initialSettings.merge given with url := given.url, endpoints := given.endpoints }
  s.save shell Settings.fileName
  say shell .settingsCreated
  return .success

/-- The command. -/
def command (shell : Shell m) (program : External.Program) (texts : List String) :
    Loading m Exit := do
  match Arguments.parse texts with
  | .refused => return .usage
  | .help => do
    say shell .help
    return .success
  | .arguments arguments =>
    if arguments.initConfig then createSettings shell arguments
    else generate shell program arguments

end

end Typewright.CommandLine
