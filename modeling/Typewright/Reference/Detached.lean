import Typewright.Error
import Typewright.Json.Writer

/-!
# Detached documents

The tree that a document becomes when it is written as JSON and read back: every container stands in
one place only, and keys are texts, of which the last value under each is kept. A container inside
itself and a value that JSON does not have are errors.
-/

namespace Typewright.Reference

/-- A fault of writing as an error. -/
def writeError : Json.WriteFault → Error
  | .circular => .badValue .circular
  | .unsupported => .wrongKind
  | .tooLong => .badValue .tooLong

/-- The value that a scalar becomes. -/
def detachedScalar (s : Scalar) : Except Error Scalar :=
  match Json.scalarText s with
  | .ok _ => .ok s
  | .error fault => .error (writeError fault)

/-- The key that a scalar becomes. -/
def detachedKey (s : Scalar) : Except Error Scalar :=
  match Json.keyText s with
  | .ok text => .ok (.str text)
  | .error fault => .error (writeError fault)

/-- Detaches a value. The containers around it are given; the fuel bounds the depth. -/
def detachWithin (source : Graph) : Nat → List Nat → Graph → Value → Except Error (Graph × Value)
  | _, _, g, .scalar s => do return (g, .scalar (← detachedScalar s))
  | 0, _, _, .node _ => .error (.badValue .circular)
  | fuel + 1, around, g, .node id =>
    if around.contains id then .error (.badValue .circular)
    else match source.get? id with
      | none => .error .wrongKind
      | some (.mapping entries) => do
        let (g, entries) ← entries.foldlM (fun (g, kept) (key, v) => do
          let key ← detachedKey key
          let (g, v) ← detachWithin source fuel (id :: around) g v
          return (g, Entries.put kept key v)) (g, [])
        return g.add (.mapping entries)
      | some (.sequence items) => do
        let (g, items) ← items.foldlM (fun (g, kept) v => do
          let (g, v) ← detachWithin source fuel (id :: around) g v
          return (g, kept ++ [v])) (g, [])
        return g.add (.sequence items)

/-- Detaches a document. -/
def detach (document : Document) : Except Error Document := do
  let (g, root) ← detachWithin document.graph (document.graph.size + 1) [] .empty document.root
  return ⟨g, root⟩

end Typewright.Reference
