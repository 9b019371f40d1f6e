import Typewright.Proofs.Document.Copies
import Typewright.Reference.Link

/-!
# Replaced references

What a replacement of references should do for a document whose references stay within it: each
mapping that is a reference gives way to what its pointer leads to, and nothing else changes
(`Reference.replaced`). A linker does so if it succeeds and gives a copy of this document
(`Reference.Replaces`); the numbers of the containers are up to it.
-/

namespace Typewright

/-- A container with other values in place of those that it holds. -/
def Node.mapValues (f : Value → Value) : Node → Node
  | .mapping entries => .mapping (entries.map fun (key, v) => (key, f v))
  | .sequence items => .sequence (items.map f)

namespace Reference

/-- What a container refers to within its document, if it is a reference: a mapping with the text of
a pointer that begins at the root. -/
def target? (document : Document) (id : Nat) : Option Value :=
  match document.graph.field? (.node id) Schema.refKey with
  | some (.scalar (.str text)) =>
    match text.toList with
    | '#' :: pointer =>
      (fragmentSegments pointer).foldlM (stepInto document.graph) document.root
    | _ => none
  | _ => none

/-- A value, or what it refers to if it is a reference. -/
def replacement (document : Document) : Value → Value
  | .node id => (target? document id).getD (.node id)
  | v => v

/-- A document with what they refer to in place of its references. -/
def replaced (document : Document) : Document :=
  ⟨⟨document.graph.nodes.map (Node.mapValues (replacement document))⟩,
    replacement document document.root⟩

/-- A step replaces the references of a document: it gives a copy of the document with what they refer
to in their place. -/
def Replaces {m : Type → Type} [Monad m] (step : Document → Loading m Document)
    (document : Document) : Prop :=
  ∃ linked, step document = pure linked ∧ (replaced document).IsCopy linked

end Reference

end Typewright
