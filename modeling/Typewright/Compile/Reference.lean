import Typewright.Document.Pointer
import Typewright.Error
import Typewright.Schema.Structure

/-!
# References within a schema

A reference inside the schema to compile is a pointer from its root, `#/definitions/Pet`. Resolving
it walks the graph along the segments; empty segments are passed over. `follow` goes on while the
target is itself a reference, and refuses chains without end.
-/

namespace Typewright.Compile

open Text

/-- The item at an index of a list; negative indexes count from the end. -/
def itemAt (items : List Value) (index : Int) : Except Error Value :=
  let place := if index < 0 then index + items.length else index
  if place < 0 then .error .outOfRange
  else match items[place.toNat]? with
    | some v => .ok v
    | none => .error .outOfRange

/-- One step from a value along a segment of the pointer `ref`. -/
def stepTo (g : Graph) (ref : String) (v : Value) (segment : String) : Except Error Value :=
  match g.node? v with
  | some (.sequence items) =>
    match Numeral.int? 10 segment.toList with
    | some index => itemAt items index
    | none => .error (.badValue (.numeral 10 segment))
  | some (.mapping entries) =>
    match entries.get? segment with
    | some v => .ok v
    | none => .error (.unresolvableRef ref)
  | none => .error (.unresolvableRef ref)

/-- The value that a pointer names, walking from a root. -/
def resolve (g : Graph) (root : Value) (ref : String) : Except Error Value :=
  match ref.toList with
  | '#' :: path =>
    ((Pointer.segments path).filter (!·.isEmpty)).foldlM
      (fun v segment => stepTo g ref v (Pointer.decodeSegment segment)) root
  | _ => .error (.unsupportedRef ref)

/-- The text of a reference. -/
def refText : Value → Except Error String
  | .scalar (.str s) => .ok s
  | .scalar (.bytes _) => .error .wrongKind
  | _ => .error .noSuchPart

/-- Follows references from a value to one that is none, and says whether there were any. The fuel
bounds their number. -/
def followFrom (g : Graph) (root : Value) : Nat → Bool → Value → Except Error (Value × Bool)
  | 0, _, _ => .error .endless
  | fuel + 1, hopped, v =>
    match g.field? v Schema.refKey with
    | none => .ok (v, hopped)
    | some ref => do
      let text ← refText ref
      let target ← resolve g root text
      followFrom g root fuel true target

/-- Follows references from a value. A chain longer than the number of containers has come back to
where it was. -/
def follow (g : Graph) (root v : Value) : Except Error (Value × Bool) :=
  followFrom g root (g.size + 1) false v

end Typewright.Compile
