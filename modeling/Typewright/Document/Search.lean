import Typewright.Document.Graph

/-!
# Search in a graph

A search from a start visits everything that can be reached from it along given successors. It keeps
a stack of nodes to visit. A node is marked as seen when it is put on the stack, so it is put there
once; the unseen successors of a visited node go on top, the first of them uppermost.

The order of the visits is what the library shows (`Search.order`), and membership in it is what
decides reachability (`Search.reaches`).
-/

namespace Typewright.Search

/-- The successors that have not been seen, each once, in order. -/
def fresh (seen successors : List Nat) : List Nat :=
  (successors.filter (fun id => !seen.contains id)).eraseDups

/-- Visits the nodes on a stack and whatever they lead to. The fuel bounds the number of visits. -/
def visit (next : Nat → List Nat) : Nat → List Nat → List Nat → List Nat
  | 0, _, _ => []
  | _ + 1, [], _ => []
  | fuel + 1, id :: stack, seen =>
    let unseen := fresh seen (next id)
    id :: visit next fuel (unseen ++ stack) (seen ++ unseen)

/-- The nodes in the order of their visits from a start. No more than `bound` nodes other than the
start lead anywhere or are led to. -/
def order (next : Nat → List Nat) (bound start : Nat) : List Nat :=
  visit next (bound + 1) [start] [start]

end Typewright.Search

namespace Typewright.Graph

/-- Every container that can be reached from a container, itself included. -/
def reachable (g : Graph) (start : Nat) : List Nat :=
  Search.order g.successors g.size start

/-- Whether a container is a mapping with an entry under a text. -/
def hasField (g : Graph) (key : String) (id : Nat) : Bool :=
  (g.field? (.node id) key).isSome

end Typewright.Graph
