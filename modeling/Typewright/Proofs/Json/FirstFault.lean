import Typewright.Proofs.Document.Entries
import Typewright.Proofs.Document.Search
import Typewright.Proofs.Json.Parts

/-!
# The fault that a JSON text fails for

What has no JSON text may have several faults: containers inside themselves, integers that are too
long, and values and keys that JSON does not have. A fault stands at a place, the numbers of the parts that lead to it
(`Json.FaultAt`), and places come in the order of the text. Writing fails for the fault at the first
place (`Json.write_eq_error_iff`), and gives a text if there is none (`Json.exists_write_iff`).
-/

namespace Typewright

/-- What keeps a scalar from being written, as a value or as a key: it is an integer with too many
digits, or JSON does not have its like. -/
def Scalar.writeFault? : Scalar → Option Json.WriteFault
  | int n => if Numeral.isTooLong n then some .tooLong else none
  | date _ | datetime _ | bytes _ | foreign _ _ => some .unsupported
  | _ => none

theorem Scalar.ne_circular_of_writeFault? {s : Scalar} {fault : Json.WriteFault}
    (unwritable : s.writeFault? = some fault) : fault ≠ .circular := by
  rintro rfl
  unfold Scalar.writeFault? at unwritable
  split at unwritable
  · split at unwritable <;> cases unwritable
  all_goals cases unwritable

namespace Json

theorem intText_eq_error_iff {n : Int} {fault : WriteFault} :
    intText n = .error fault ↔ (Scalar.int n).writeFault? = some fault := by
  rw [intText, Scalar.writeFault?]
  cases Numeral.isTooLong n <;> simp

theorem scalarText_eq_error_iff {s : Scalar} {fault : WriteFault} :
    scalarText s = .error fault ↔ s.writeFault? = some fault := by
  cases s with
  | bool b => cases b <;> simp [scalarText, Scalar.writeFault?]
  | int n => exact intText_eq_error_iff
  | _ => simp [scalarText, Scalar.writeFault?]

theorem keyText_eq_error_iff {s : Scalar} {fault : WriteFault} :
    keyText s = .error fault ↔ s.writeFault? = some fault := by
  cases s with
  | bool b => cases b <;> simp [keyText, Scalar.writeFault?]
  | int n => exact intText_eq_error_iff
  | _ => simp [keyText, Scalar.writeFault?]

/-- A fault at a place within a part, with the containers around it: the numbers of the parts that
lead to the fault, none if the part itself is at fault. A container around itself is a fault, and
nothing inside it has a place. -/
inductive FaultAt (g : Graph) : List Nat → Part → List Nat → WriteFault → Prop
  | key {around : List Nat} {s : Scalar} {fault : WriteFault}
    (unwritable : s.writeFault? = some fault) : FaultAt g around (.key s) [] fault
  | scalar {around : List Nat} {s : Scalar} {fault : WriteFault}
    (unwritable : s.writeFault? = some fault) : FaultAt g around (.value (.scalar s)) [] fault
  | again {around : List Nat} {id : Nat} (inside : id ∈ around) :
    FaultAt g around (.value (.node id)) [] .circular
  | missing {around : List Nat} {id : Nat} (outside : id ∉ around) (absent : g.get? id = none) :
    FaultAt g around (.value (.node id)) [] .unsupported
  | within {around place : List Nat} {id number : Nat} {node : Node} {part : Part}
    {fault : WriteFault} (outside : id ∉ around) (found : g.get? id = some node)
    (isPart : node.parts[number]? = some part) (inner : FaultAt g (id :: around) part place fault) :
    FaultAt g around (.value (.node id)) (number :: place) fault

/-- The fault at the first place within a part. Of two places that one comes first which has the
smaller number where they begin to differ. -/
def IsFirstFault (g : Graph) (around : List Nat) (part : Part) (fault : WriteFault) : Prop :=
  ∃ place, FaultAt g around part place fault ∧
    ∀ other more, FaultAt g around part other more → ¬ List.Lex (· < ·) other place

/-- The fault that comes first in the text of a value. -/
def FirstFault (g : Graph) (v : Value) (fault : WriteFault) : Prop :=
  IsFirstFault g [] (.value v) fault

/-- A value without faults. -/
def Faultless (g : Graph) (v : Value) : Prop :=
  ∀ place fault, ¬ FaultAt g [] (.value v) place fault

section

variable {g : Graph} {layout : Layout} {fuel : Nat} {around place : List Nat} {part : Part}
  {fault : WriteFault}

/-- There is one fault at a place. -/
theorem FaultAt.unique {other : WriteFault} (one : FaultAt g around part place fault)
    (two : FaultAt g around part place other) : fault = other := by
  induction one with
  | key unwritable | scalar unwritable =>
    cases two with
    | _ unwritable' => exact Option.some.inj (unwritable.symm.trans unwritable')
  | again inside =>
    cases two with
    | again => rfl
    | missing outside => exact absurd inside outside
  | missing outside =>
    cases two with
    | again inside => exact absurd inside outside
    | missing => rfl
  | within _ found isPart _ ih =>
    cases two with
    | within _ found' isPart' inner =>
      cases found.symm.trans found'
      cases isPart.symm.trans isPart'
      exact ih inner

theorem IsFirstFault.unique {other : WriteFault} (one : IsFirstFault g around part fault)
    (two : IsFirstFault g around part other) : fault = other := by
  obtain ⟨place, here, first⟩ := one
  obtain ⟨place', here', first'⟩ := two
  obtain rfl : place = place' :=
    List.le_antisymm (first place' other here') (first' place fault here)
  exact here.unique here'

/-- What has a fault has no text. -/
theorem FaultAt.not_written (faulty : FaultAt g around part place fault) (text : String) :
    partText g layout fuel around part ≠ .ok text := by
  intro written
  induction faulty generalizing fuel text with
  | key unwritable =>
    rw [partText, keyText_eq_error_iff.2 unwritable] at written
    cases written
  | scalar unwritable =>
    rw [partText, textOf, scalarText_eq_error_iff.2 unwritable] at written
    cases written
  | again inside =>
    cases fuel with
    | zero => cases written
    | succ fuel => exact (parts_of_textOf_ok written).1 inside
  | missing _ absent =>
    cases fuel with
    | zero => cases written
    | succ fuel =>
      obtain ⟨_, _, found, _⟩ := parts_of_textOf_ok written
      rw [absent] at found
      cases found
  | within _ found isPart _ ih =>
    cases fuel with
    | zero => cases written
    | succ fuel =>
      obtain ⟨_, node, found', all⟩ := parts_of_textOf_ok written
      cases found.symm.trans found'
      obtain ⟨shown, one⟩ := all _ (List.mem_of_getElem? isPart)
      exact ih shown one

/-- Where writing a container stops at a part, the first fault of the part is the first of the
container, since the parts before it have texts and so no faults. -/
theorem isFirstFault_of_stopsWith {id : Nat} {node : Node} (outside : id ∉ around)
    (found : g.get? id = some node)
    (stops : StopsWith (partText g layout fuel (id :: around)) node.parts fault)
    (inPart : ∀ part ∈ node.parts, partText g layout fuel (id :: around) part = .error fault →
      IsFirstFault g (id :: around) part fault) :
    IsFirstFault g around (.value (.node id)) fault := by
  obtain ⟨front, part, back, whole, before, failed⟩ := stops
  have isPart : node.parts[front.length]? = some part := by simp [whole]
  obtain ⟨place, inner, first⟩ := inPart part (List.mem_of_getElem? isPart) failed
  refine ⟨front.length :: place, .within outside found isPart inner, ?_⟩
  intro other more faulty earlier
  cases faulty with
  | again inside => exact outside inside
  | missing _ absent =>
    rw [found] at absent
    cases absent
  | @within _ otherPlace _ number _ otherPart _ _ found' isOther otherInner =>
    cases found.symm.trans found'
    cases earlier with
    | rel early =>
      rw [whole, List.getElem?_append_left early] at isOther
      obtain ⟨shown, one⟩ := before otherPart (List.mem_of_getElem? isOther)
      exact otherInner.not_written shown one
    | cons earlier =>
      cases isPart.symm.trans isOther
      exact first otherPlace more otherInner earlier

/-- A part without a text fails for its first fault. The containers around it are different and
none is missing, so the fuel lasts until one of them is met again. -/
theorem isFirstFault_of_partText (once : around.Nodup) (bound : ∀ outer ∈ around, outer < g.size)
    (enough : g.size + 1 ≤ around.length + fuel)
    (failed : partText g layout fuel around part = .error fault) :
    IsFirstFault g around part fault := by
  have alone {part : Part} {around : List Nat} {fault : WriteFault}
      (here : FaultAt g around part [] fault) : IsFirstFault g around part fault :=
    ⟨[], here, fun _ _ _ earlier => by cases earlier⟩
  induction fuel generalizing around part with
  | zero =>
    have bounded : around ⊆ List.range g.size :=
      fun outer member => List.mem_range.2 (bound outer member)
    have fits := (once.subperm bounded).length_le
    rw [List.length_range] at fits
    omega
  | succ fuel ih =>
    match part with
    | .key s => exact alone (.key (keyText_eq_error_iff.1 failed))
    | .value (.scalar s) =>
      rw [partText, textOf] at failed
      exact alone (.scalar (scalarText_eq_error_iff.1 failed))
    | .value (.node id) =>
      rcases parts_of_textOf_error failed with ⟨rfl, inside⟩ | ⟨rfl, outside, absent⟩ |
        ⟨outside, node, found, stops⟩
      · exact alone (.again inside)
      · exact alone (.missing outside absent)
      · refine isFirstFault_of_stopsWith outside found stops fun part _ failed => ?_
        refine ih (List.nodup_cons.2 ⟨outside, once⟩) ?_ (by rw [List.length_cons]; omega) failed
        exact List.forall_mem_cons.2 ⟨Graph.lt_size_of_get? found, bound⟩

/-- Writing a value fails for its first fault. -/
theorem write_eq_error_iff {v : Value} :
    write g layout v = .error fault ↔ FirstFault g v fault := by
  have fails {other : WriteFault} (failed : write g layout v = .error other) :
      FirstFault g v other :=
    isFirstFault_of_partText .nil (by simp) (by simp) failed
  refine ⟨fails, fun first => ?_⟩
  cases written : write g layout v with
  | ok text =>
    obtain ⟨place, faulty, _⟩ := first
    exact absurd written (faulty.not_written text)
  | error other => rw [(fails written).unique first]

/-- A value has a text exactly if it has no fault. -/
theorem exists_write_iff {v : Value} :
    (∃ text, write g layout v = .ok text) ↔ Faultless g v := by
  constructor
  · rintro ⟨text, written⟩ place fault faulty
    exact faulty.not_written text written
  · intro faultless
    cases written : write g layout v with
    | ok text => exact ⟨text, rfl⟩
    | error fault =>
      obtain ⟨place, faulty, _⟩ := write_eq_error_iff.1 written
      exact absurd faulty (faultless place fault)

end

end Json

end Typewright
