import Typewright.Compile.Options
import Typewright.Compile.Reference
import Typewright.Schema.Naming
import Typewright.TypeScript.Declaration
import Typewright.Warning

/-!
# Compiling schemas to declarations

A schema with a title becomes a declaration and is mentioned elsewhere by its name; a schema without
one is written out where it stands. References are followed. A schema without a title that is met
again inside itself is unknown, with a warning. An integer with too many digits for a text is refused
where it would be written.

The state of a compilation is a `Draft`: the names given so far and the bodies finished so far. A
name is given before the body is compiled, so that a body can mention itself, and the declarations
come in the order of their names.

Each function of a schema's parts takes the function for the schemas inside as an argument;
`expression` ties the knot. Every level inside another either names a schema or goes into one that
is not around it yet, so the depth is bounded by twice the number of containers.
-/

namespace Typewright.Compile

open Text

/-- What has been compiled so far. -/
structure Draft where
  names : List (Nat × String) := []
  bodies : List (Nat × Comment × DeclarationBody) := []
  warnings : List Warning := []
  deriving Repr

/-- Steps of a compilation. -/
abbrev Compiling := StateT Draft (Except Error)

/-- The fixed data of a compilation. -/
structure Job where
  graph : Graph
  root : Nat
  options : Options

/-- Compiles a schema inside others: the schemas around it that are being written out, whether a
title makes it a name, and the schema. -/
abbrev Inner := List Nat → Bool → Value → Compiling TypeExpr

namespace Draft

/-- The name given to a schema. -/
def nameOf? (draft : Draft) (schema : Nat) : Option String :=
  (draft.names.find? (·.1 == schema)).map (·.2)

/-- Whether a name has been given. -/
def isTaken (draft : Draft) (name : String) : Bool :=
  draft.names.any (·.2 == name)

/-- The first of the suffixed forms of a name that has not been given. -/
def freeName (draft : Draft) (name : String) : String :=
  Naming.firstFree draft.isTaken draft.names.length name

/-- The declarations whose bodies are finished, in the order of their names. -/
def declarations (draft : Draft) : List Declaration :=
  draft.names.filterMap fun (schema, name) =>
    (draft.bodies.find? (·.1 == schema)).map fun (_, comment, body) =>
      { schema, name, comment, body }

end Draft

/-- Notes a warning. -/
def warn (warning : Warning) : Compiling Unit :=
  modify fun draft => { draft with warnings := draft.warnings ++ [warning] }

/-- The literal type of a value. -/
def literal : Value → TypeExpr
  | .scalar s => .literal s
  | .node _ => .unknown

/-- The comment of a schema: its description, unless that is blank, and whether it is deprecated. -/
def commentOf (g : Graph) (entries : Entries) : Comment :=
  let description := ((entries.get? "description").bind Value.str?).filter fun text =>
    !(trim text.toList).isEmpty
  .ofDescription description (((entries.get? "deprecated").map g.isTruthy).getD false)

/-- The values that a loop over a value would go through. -/
def elements (g : Graph) (v : Value) : Except Error (List Value) :=
  match g.node? v, v with
  | some (.sequence items), _ => .ok items
  | some (.mapping entries), _ => .ok (entries.map fun (key, _) => .scalar key)
  | none, .scalar (.str s) => .ok (s.toList.map fun c => .str (String.ofList [c]))
  | none, .scalar (.bytes bs) => .ok (bs.map fun b => .scalar (.int b.toNat))
  | none, _ => .error .wrongKind

/-- The keys that a schema requires. -/
def requiredKeys (g : Graph) (entries : Entries) : Except Error (List Scalar) :=
  match entries.get? "required" with
  | none => .ok []
  | some v =>
    if g.isTruthy v then do
      let values ← elements g v
      values.mapM fun
        | .scalar key => .ok key
        | .node _ => .error .wrongKind
    else .ok []

/-- The entries of a mapping inside a schema; what counts as false has none. -/
def entriesUnder (g : Graph) (entries : Entries) (key : String) : Except Error Entries :=
  match entries.get? key with
  | none => .ok []
  | some v =>
    match g.entries? v with
    | some inside => .ok inside
    | none => if g.isTruthy v then .error .noSuchPart else .ok []

/-- Whether a schema is declared as an interface. -/
def isInterface (entries : Entries) : Bool :=
  if ["$ref", "enum", "const", "allOf", "anyOf", "oneOf", "tsType"].any entries.has then false
  else match entries.get? "type" with
    | some (.scalar (.str s)) => s == "object"
    | none | some (.scalar .null) =>
      entries.has "properties" || entries.has "additionalProperties"
    | _ => false

/-- The bound that an integer gives; truth values count as integers. -/
def bound? : Option Value → Option Int
  | some (.scalar (.int n)) => some n
  | some (.scalar (.bool b)) => some (if b then 1 else 0)
  | _ => none

/-- An array with bounds on its size. -/
def boundedArray (item : TypeExpr) (least most : Option Int) : TypeExpr :=
  let minimum := least.getD 0
  match most with
  | some maximum => .sized item minimum maximum
  | none =>
    if minimum ≤ 0 then .array item
    else .tuple (List.replicate minimum.toNat item) [item]

namespace Job

/-- The head of a property of an object. -/
def propertyHead (job : Job) (required : List Scalar) (key : Scalar) (schema : Value) :
    Except Error PropertyHead :=
  match key with
  | .str name => .ok
    { name
      isOptional := !required.any (·.sameKey key)
      comment :=
        match job.graph.entries? schema with
        | some entries =>
          if entries.has Schema.refKey then .none else commentOf job.graph entries
        | none => .none }
  | _ => .error .wrongKind

/-- The types of the index signature of an object. -/
def indexTypes (job : Job) (inner : Inner) (around : List Nat) (entries : Entries) :
    Compiling (List TypeExpr) := do
  let patterns ← entriesUnder job.graph entries "patternProperties"
  let types ← patterns.mapM fun (_, schema) => inner around true schema
  let types ← match entries.get? "additionalProperties" with
    | none | some (.scalar (.bool true)) => pure (types ++ [.unknown])
    | some v =>
      if job.graph.isMapping v then do pure (types ++ [← inner around true v]) else pure types
  return if types.isEmpty then []
    else if job.options.strictIndexSignatures then [.union types, .undefined] else types

/-- The object type of a schema. -/
def object (job : Job) (inner : Inner) (around : List Nat) (entries : Entries) :
    Compiling TypeExpr := do
  let required ← requiredKeys job.graph entries
  let declared ← entriesUnder job.graph entries "properties"
  let properties ← declared.mapM fun (key, schema) => do
    let head ← job.propertyHead required key schema
    return (head, ← inner around true schema)
  return .object properties (← job.indexTypes inner around entries)

/-- The array or tuple type of a schema. -/
def array (job : Job) (inner : Inner) (around : List Nat) (entries : Entries) :
    Compiling TypeExpr := do
  let items := (entries.get? "items").getD .null
  match job.graph.items? items with
  | some members => do
    let types ← members.mapM (inner around true)
    match entries.get? "additionalItems" with
    | some (.scalar (.bool false)) => return .tuple types []
    | additional => return .tuple types [← inner around true (additional.getD (.bool true))]
  | none => do
    let item ← if items = .null then pure .unknown else inner around true items
    if job.options.ignoreBounds then return .array item
    else
      let least := bound? (entries.get? "minItems")
      return boundedArray item least (bound? (entries.get? "maxItems"))

/-- The type of a schema by one word of its `type`, or by its other keywords. -/
def typed (job : Job) (inner : Inner) (around : List Nat) (entries : Entries) (type : Value) :
    Compiling TypeExpr :=
  match type with
  | .node _ => throw .wrongKind
  | .scalar word =>
    match (match word with
      | .str s => Primitive.ofSchemaType? s
      | _ => none) with
    | some p => return .primitive p
    | none =>
      if word = .str "array" then job.array inner around entries
      else if word = .str "object" ∨ entries.has "properties" ∨
          entries.has "additionalProperties" then
        job.object inner around entries
      else if entries.has "items" then job.array inner around entries
      else return .unknown

/-- The list that a schema has under a keyword. -/
def listUnder? (job : Job) (entries : Entries) (key : String) : Option (List Value) :=
  (entries.get? key).bind job.graph.items?

/-- The type of a schema that is written out. The keywords that fix a type are looked for in order:
a raw type, a constant, an enumeration, compositions, and the `type`. -/
def written (job : Job) (inner : Inner) (around : List Nat) (entries : Entries) :
    Compiling TypeExpr := do
  if let some v := entries.get? "tsType" then
    Error.refuseLong (Display.hasLongInteger job.graph v)
    return .raw (Display.value job.graph v)
  else if let some v := entries.get? "const" then
    Error.refuseLong v.isLongInteger
    return literal v
  else if let some values := job.listUnder? entries "enum" then
    Error.refuseLong (values.any Value.isLongInteger)
    return .union (values.map literal)
  else if let some members := job.listUnder? entries "allOf" then
    let parts ← members.mapM (inner around true)
    let own ←
      if entries.has "properties" then do pure [← job.object inner around entries] else pure []
    return .intersection parts own
  else if let some members := job.listUnder? entries "anyOf" then
    return .union (← members.mapM (inner around true))
  else if let some members := job.listUnder? entries "oneOf" then
    return .union (← members.mapM (inner around true))
  else
    let type := (entries.get? "type").getD .null
    match job.graph.items? type with
    | some words => return .union (← words.mapM (job.typed inner around entries))
    | none => job.typed inner around entries type

/-- The members of a constant enumeration: the safe identifiers of the names, as far as there are
values. -/
def enumMembers (job : Job) (names : List Value) (values : List Value) : List (String × TypeExpr) :=
  (names.zip values).map fun (name, value) =>
    (Identifier.ofText (Display.value job.graph name), literal value)

/-- Whether a name or a value of a member of a constant enumeration has an integer with too many
digits. -/
def hasLongMember (job : Job) (names : List Value) (values : List Value) : Bool :=
  (names.zip values).any fun (name, value) =>
    Display.hasLongInteger job.graph name || value.isLongInteger

/-- The body of the declaration of a schema. -/
def body (job : Job) (inner : Inner) (around : List Nat) (schema : Nat) (entries : Entries) :
    Compiling DeclarationBody := do
  if isInterface entries then
    return .interface (← job.object inner around entries)
  else
    match job.options.constEnums, entries.get? "enum", job.listUnder? entries "tsEnumNames" with
    | true, some values, some names =>
      let values ← elements job.graph values
      Error.refuseLong (job.hasLongMember names values)
      return .constEnum (job.enumMembers names values)
    | _, _, _ => return .alias (← inner around false (.node schema))

/-- The name that a schema asks for by its title, or by a word that stands in for a missing one. -/
def titleName (job : Job) (entries : Entries) (standIn : String) : Except Error String :=
  let nameFor (title : String) : String :=
    let name := Identifier.ofText title
    if name = "" then "Interface" else name
  match (entries.get? "title").getD .null with
  | .scalar (.str title) => .ok (nameFor (if title = "" then standIn else title))
  | title => if job.graph.isTruthy title then .error .wrongKind else .ok (nameFor standIn)

/-- The name of a schema, which is declared when it is first asked for. -/
def declare (job : Job) (inner : Inner) (around : List Nat) (standIn : String) (schema : Nat)
    (entries : Entries) : Compiling String := do
  match (← get).nameOf? schema with
  | some name => return name
  | none =>
    let name := (← get).freeName (← job.titleName entries standIn)
    modify fun draft => { draft with names := draft.names ++ [(schema, name)] }
    if schema = job.root ∨ job.options.declareReferenced then
      let comment := commentOf job.graph entries
      let body ← job.body inner around schema entries
      modify fun draft => { draft with bodies := draft.bodies ++ [(schema, comment, body)] }
    return name

/-- The type of a value that stands for a schema. -/
def step (job : Job) (inner : Inner) (around : List Nat) (named : Bool) (v : Value) :
    Compiling TypeExpr := do
  let (v, hopped) ← follow job.graph (.node job.root) v
  match v, job.graph.entries? v with
  | .scalar (.bool true), _ => return .unknown
  | .scalar (.bool false), _ => return .never
  | .node schema, some entries =>
    if entries.isEmpty then return .unknown
    else if (named || hopped) && (((entries.get? "title").bind Value.str?).isSome) then
      return .name (← job.declare inner around "" schema entries)
    else if around.contains schema then
      warn .unnamedRecursion
      return .unknown
    else job.written inner (schema :: around) entries
  | _, _ => return .unknown

/-- The type of a value that stands for a schema, up to a depth. -/
def expression (job : Job) : Nat → Inner
  | 0 => fun _ _ _ => throw .endless
  | depth + 1 => job.step (job.expression depth)

/-- The depth that suffices for every schema of the graph. -/
def depth (job : Job) : Nat :=
  2 * job.graph.size + 2

/-- Declares the definitions of the root that are mappings, reached or not. -/
def declareDefinitions (job : Job) (entries : Entries) : Compiling Unit := do
  let definitions ← entriesUnder job.graph entries "definitions"
  for (_, v) in definitions do
    match v, job.graph.entries? v with
    | .node schema, some entries =>
      let _ ← job.declare (job.expression job.depth) [] "Definition" schema entries
    | _, _ => pure ()

/-- Compiles the root and, if asked to, its definitions. -/
def run (job : Job) : Compiling Unit := do
  match job.graph.entries? (.node job.root) with
  | some entries =>
    match (entries.get? "title").bind Value.str? with
    | none => throw .untitledRoot
    | some _ =>
      let _ ← job.declare (job.expression job.depth) [] "" job.root entries
      if job.options.declareUnreachable then job.declareDefinitions entries
  | none => throw .noSuchPart

end Job

/-- What a compilation gives: its declarations in order, the text above them, and its warnings. -/
structure Source where
  banner : String
  declarations : List Declaration
  warnings : List Warning
  deriving Repr

/-- The text of the declarations under the banner. -/
def Source.text (source : Source) : String :=
  "\n".intercalate ((if source.banner = "" then [] else [source.banner]) ++
    source.declarations.map Declaration.text) ++ "\n"

/-- Compiles a schema. -/
def source (g : Graph) (schema : Value) (options : Options) : Except Error Source := do
  match schema with
  | .scalar _ => .error .noSuchPart
  | .node root =>
    let (_, draft) ← (Job.run ⟨g, root, options⟩).run {}
    match options.banner with
    | none => .error .wrongKind
    | some banner => .ok ⟨banner, draft.declarations, draft.warnings⟩

end Typewright.Compile
