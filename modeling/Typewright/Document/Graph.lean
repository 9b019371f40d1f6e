import Typewright.Document.Calendar
import Typewright.Number.Binary64

/-!
# Document graphs

A document is a graph: its mappings and sequences are numbered nodes, and a value is either a scalar
or the number of a node. Two positions hold the same container exactly if they hold the same number,
so sharing and cycles are part of the data. Equal contents under different numbers are different
containers.

Mappings keep their entries in the order of insertion. Keys are scalars, and two keys are the same
entry if they are equal as values: the integer one, the number 1.0 and the truth value `true` are
one key.
-/

namespace Typewright

/-- A value without parts. `foreign` is a value of a further kind that is only carried along, by the
name of its kind and its text. -/
inductive Scalar
  | null
  | bool (b : Bool)
  | int (n : Int)
  | float (x : Binary64)
  | str (s : String)
  | date (d : Date)
  | datetime (t : DateTime)
  | bytes (bs : List UInt8)
  | foreign (kind text : String)
  deriving DecidableEq, Repr, Inhabited

namespace Scalar

/-- The integer that a scalar equals as a key, if it equals one. -/
def toInt? : Scalar → Option Int
  | bool b => some (if b then 1 else 0)
  | int n => some n
  | float x => x.toInt?
  | _ => none

/-- Whether two scalars are the same key. -/
def sameKey (a b : Scalar) : Bool :=
  match a, b with
  | datetime s, datetime t => s.same t
  | float x, float y => if x.isNaN || y.isNaN then false else x == y || (x.isZero && y.isZero)
  | _, _ =>
    match a.toInt?, b.toInt? with
    | some m, some n => m == n
    | _, _ => a == b

/-- Whether a scalar is an integer whose numeral has too many digits. -/
def isLongInteger : Scalar → Bool
  | int n => Numeral.isTooLong n
  | _ => false

/-- Whether a scalar counts as true: everything but nothing, false, zero and the empty text. -/
def isTruthy : Scalar → Bool
  | null => false
  | bool b => b
  | int n => n != 0
  | float x => !x.isZero
  | str s => s != ""
  | bytes bs => !bs.isEmpty
  | date _ | datetime _ | foreign _ _ => true

end Scalar

/-- What stands at a position of a document: a scalar, or the container with the given number. -/
inductive Value
  | scalar (s : Scalar)
  | node (id : Nat)
  deriving DecidableEq, Repr, Inhabited

namespace Value

/-- The value that is nothing. -/
def null : Value := .scalar .null

/-- A truth value. -/
def bool (b : Bool) : Value := .scalar (.bool b)

/-- A text. -/
def str (s : String) : Value := .scalar (.str s)

/-- The text that a value is, if it is one. -/
def str? : Value → Option String
  | .scalar (.str s) => some s
  | _ => none

/-- The number of the container that a value is, if it is one. -/
def node? : Value → Option Nat
  | .node id => some id
  | .scalar _ => none

/-- Whether a value is an integer whose numeral has too many digits. -/
def isLongInteger : Value → Bool
  | .scalar s => s.isLongInteger
  | .node _ => false

end Value

/-- The entries of a mapping, in order. -/
abbrev Entries := List (Scalar × Value)

namespace Entries

/-- The value under a key. -/
def find? (entries : Entries) (key : Scalar) : Option Value :=
  (List.find? (fun entry => entry.1.sameKey key) entries).map (·.2)

/-- The value under a key that is a text. -/
def get? (entries : Entries) (key : String) : Option Value :=
  entries.find? (.str key)

/-- Whether there is an entry under a text. -/
def has (entries : Entries) (key : String) : Bool :=
  (entries.get? key).isSome

/-- Sets the value under a key. An old entry keeps its place and its key; a new one goes last. -/
def put : Entries → Scalar → Value → Entries
  | [], key, value => [(key, value)]
  | (k, v) :: rest, key, value =>
    if k.sameKey key then (k, value) :: rest else (k, v) :: put rest key value

end Entries

/-- A container. -/
inductive Node
  | mapping (entries : Entries)
  | sequence (items : List Value)
  deriving DecidableEq, Repr, Inhabited

namespace Node

/-- The values that a container holds, in order. -/
def values : Node → List Value
  | mapping entries => entries.map (·.2)
  | sequence items => items

/-- The containers that a container holds, in order. -/
def successors (node : Node) : List Nat :=
  node.values.filterMap Value.node?

end Node

/-- Numbered containers. -/
structure Graph where
  nodes : Array Node
  deriving DecidableEq, Repr, Inhabited

namespace Graph

/-- No containers. -/
def empty : Graph := ⟨#[]⟩

/-- The number of containers. -/
def size (g : Graph) : Nat := g.nodes.size

/-- The container with the given number. -/
def get? (g : Graph) (id : Nat) : Option Node := g.nodes[id]?

/-- The container that a value is, if it is one. -/
def node? (g : Graph) : Value → Option Node
  | .node id => g.get? id
  | .scalar _ => none

/-- The entries of a value that is a mapping. -/
def entries? (g : Graph) (v : Value) : Option Entries :=
  match g.node? v with
  | some (.mapping entries) => some entries
  | _ => none

/-- The items of a value that is a sequence. -/
def items? (g : Graph) (v : Value) : Option (List Value) :=
  match g.node? v with
  | some (.sequence items) => some items
  | _ => none

/-- Whether a value is a mapping. -/
def isMapping (g : Graph) (v : Value) : Bool := (g.entries? v).isSome

/-- The value that a mapping holds under a text. -/
def field? (g : Graph) (v : Value) (key : String) : Option Value :=
  (g.entries? v).bind (·.get? key)

/-- Whether a value counts as true: a container does unless it is empty. -/
def isTruthy (g : Graph) : Value → Bool
  | .scalar s => s.isTruthy
  | .node id =>
    match g.get? id with
    | some (.mapping entries) => !entries.isEmpty
    | some (.sequence items) => !items.isEmpty
    | none => true

/-- The containers that a container holds, in order. -/
def successors (g : Graph) (id : Nat) : List Nat :=
  ((g.get? id).map Node.successors).getD []

/-- Adds a container under the next number. -/
def add (g : Graph) (node : Node) : Graph × Value :=
  (⟨g.nodes.push node⟩, .node g.nodes.size)

/-- Replaces the container with the given number. -/
def set (g : Graph) (id : Nat) (node : Node) : Graph :=
  ⟨g.nodes.setIfInBounds id node⟩

end Graph

/-- A value within a graph. -/
structure Document where
  graph : Graph
  root : Value
  deriving DecidableEq, Repr, Inhabited

namespace Document

/-- A scalar as a document. -/
def ofScalar (s : Scalar) : Document :=
  ⟨.empty, .scalar s⟩

/-- A text as a document. -/
def str (s : String) : Document :=
  ofScalar (.str s)

/-- Whether the root counts as true. -/
def isTruthy (d : Document) : Bool :=
  d.graph.isTruthy d.root

end Document

/-- A value whose containers have numbers greater by an offset. -/
def Value.shift (offset : Nat) : Value → Value
  | .scalar s => .scalar s
  | .node id => .node (id + offset)

/-- A container whose parts have numbers greater by an offset. -/
def Node.shift (offset : Nat) : Node → Node
  | .mapping entries => .mapping (entries.map fun (key, v) => (key, v.shift offset))
  | .sequence items => .sequence (items.map (Value.shift offset))

/-- Takes a document into a graph, its containers after those of the graph. -/
def Graph.adopt (g : Graph) (d : Document) : Graph × Value :=
  (⟨g.nodes ++ d.graph.nodes.map (Node.shift g.size)⟩, d.root.shift g.size)

end Typewright
