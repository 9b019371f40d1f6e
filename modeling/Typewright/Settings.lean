import Typewright.World.Shell

/-!
# Settings

The settings of a generation: where the description is, where the models and the index of endpoints
go, and which compiler is used. They are kept in a TOML file, whose other contents do not matter. A
setting read from a file can be any value; what it is good for is decided where it is used.
-/

namespace Typewright

open Text

/-- The settings; nothing stands for a setting that is not given. -/
structure Settings where
  url : Document := .ofScalar .null
  output : Document := .ofScalar .null
  endpoints : Document := .ofScalar .null
  compiler : Document := .str "builtin"
  deriving DecidableEq, Repr

/-- The compilers that settings can name. -/
inductive CompilerName
  | builtin
  | json2ts
  deriving DecidableEq, Repr

namespace Settings

/-- The name of the file that settings are looked for in. -/
def fileName : String := "openapi_ts.toml"

/-- The settings by their names in a file. -/
def fields (s : Settings) : List (String × Document) :=
  [("url", s.url), ("output", s.output), ("endpoints", s.endpoints), ("compiler", s.compiler)]

/-- The settings that a table holds. -/
def ofDocument (d : Document) : Settings :=
  let setting (name : String) (fallback : Document) : Document :=
    ((d.graph.field? d.root name).map (⟨d.graph, ·⟩)).getD fallback
  let none := Document.ofScalar .null
  { url := setting "url" none
    output := setting "output" none
    endpoints := setting "endpoints" none
    compiler := setting "compiler" (.str "builtin") }

/-- The settings as a table, without those that are not given. -/
def toEntries (s : Settings) : Graph × Entries :=
  s.fields.foldl (fun (g, entries) (name, d) =>
    if d.root = .null then (g, entries)
    else
      let (g, v) := g.adopt d
      (g, entries ++ [(.str name, v)])) (.empty, [])

/-- Settings in which other settings, where they count as true, take precedence. -/
def merge (s others : Settings) : Settings :=
  let first (a b : Document) : Document := if a.isTruthy then a else b
  { url := first others.url s.url
    output := first others.output s.output
    endpoints := first others.endpoints s.endpoints
    compiler := first others.compiler s.compiler }

/-- The compiler that the settings name. -/
def compilerName (s : Settings) : Except Error CompilerName :=
  match s.compiler.root with
  | .scalar (.str "builtin") => .ok .builtin
  | .scalar (.str "json2ts") => .ok .json2ts
  | .scalar x => .error (.unknownCompiler (Display.scalar x))
  | .node _ => .error .wrongKind

section

variable {m : Type → Type} [Monad m]

/-- Where the settings are looked for: in the file of the usual name in a directory if it is there,
else at the given path. -/
def locate (shell : Shell m) (path : String) (directory : Option String) : m String := do
  match directory with
  | none => return path
  | some directory =>
    if directory = "" then return path
    else if (← shell.kindOf directory) ≠ some .directory then return path
    else
      let inside := Path.join directory fileName
      return if (← shell.kindOf inside).isSome then inside else path

/-- Loads settings. There are none if the file is missing, cannot be read or is not TOML. -/
def load (shell : Shell m) (path : String) (directory : Option String) :
    Loading m (Option Settings) := do
  let path ← ExceptT.lift (locate shell path directory)
  let kind ← ExceptT.lift (shell.kindOf path)
  if kind.isNone then return none
  let answer : Except FileFault (List UInt8) ← ExceptT.lift (shell.readFile path)
  match answer with
  | .error _ => return none
  | .ok bytes =>
    match shell.toml.read bytes with
    | .ok d => return some (ofDocument d)
    | .error .own => return none
    | .error (.other error) => throw (.foreign error)

/-- Saves settings. The file is emptied first, and stays empty if the settings cannot be written. -/
def save (shell : Shell m) (s : Settings) (path : String) : Loading m Unit := do
  shell.writeText path ""
  let (g, entries) := s.toEntries
  match shell.toml.write g entries with
  | .ok text => shell.writeText path text
  | .error error => throw (.foreign error)

end

end Settings

end Typewright
