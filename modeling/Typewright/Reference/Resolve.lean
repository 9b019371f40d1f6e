import Typewright.Reference.Detached
import Typewright.Schema.Structure
import Typewright.World.Load

/-!
# Documents without references

A document in which nothing refers is used as it is, but for its root, which becomes a container of
its own. Any other document is detached first, and its references are replaced by the linker in use,
which loads other documents by their addresses.
-/

namespace Typewright.Reference

/-- A document whose root is a new container with the entries of the old one. Inside, the old root
stays what it was. -/
def withFreshRoot (document : Document) : Document :=
  match document.graph.node? document.root with
  | some node =>
    let (g, root) := document.graph.add node
    ⟨g, root⟩
  | none => document

variable {m : Type → Type} [Monad m]

/-- A document without its references, which are relative to an address. -/
def dereference (outside : Outside m) (base : String) (document : Document) :
    Loading m Document := do
  if Schema.hasRefs document.graph document.root then
    let detached ← detach document
    outside.link (Load.fromUri outside) base detached
  else return withFreshRoot document

/-- Loads the document at a locator and resolves its references. -/
def load (outside : Outside m) (locator : String) : Loading m Document := do
  let document ← Load.document outside locator
  let base ← Load.baseAddress outside.resolve locator
  dereference outside base document

end Typewright.Reference
