import Typewright.Compile.Reference
import Typewright.Proofs.Document.Pointers
import Typewright.Proofs.Outcome
import Typewright.Proofs.Text.Numerals

/-!
# Where pointers lead

A path through a value is written as a reference: its keys and indexes as the segments of a pointer.
Resolving the reference reads the segments in turn, each as what it comes to asks, but passes over
the empty ones (`Compile.resolve_along`). So a reference leads along its path unless the path
goes through an empty key, which the walk does not enter.
-/

namespace Typewright.Compile

open Text

/-! ## Paths -/

/-- A step from a container to one of its values. -/
inductive Step
  | key (name : String)
  | index (place : Nat)
  deriving DecidableEq, Repr

/-- The segment of a pointer that a step is written as. -/
def Step.segment : Step → String
  | .key name => name
  | .index place => Numeral.decimal place

/-- The reference to where a path leads. -/
def reference (path : List Step) : String :=
  "#" ++ Pointer.encode (path.map Step.segment)

/-- `Along g v path w` says that a path of keys and indexes exists from `v` and ends at `w`. -/
inductive Along (g : Graph) : Value → List Step → Value → Prop
  | here (v : Value) : Along g v [] v
  | key {v w target : Value} {name : String} {path : List Step} (held : g.field? v name = some w)
      (rest : Along g w path target) : Along g v (.key name :: path) target
  | index {v w target : Value} {items : List Value} {place : Nat} {path : List Step}
      (listed : g.items? v = some items) (held : items[place]? = some w)
      (rest : Along g w path target) : Along g v (.index place :: path) target

/-- `Reads g v segments w` says that segments, each read as the container it comes to asks, lead
from `v` to `w`. A list takes every numeral for an index. -/
inductive Reads (g : Graph) : Value → List String → Value → Prop
  | here (v : Value) : Reads g v [] v
  | key {v w target : Value} {segment : String} {segments : List String}
      (held : g.field? v segment = some w) (rest : Reads g w segments target) :
      Reads g v (segment :: segments) target
  | item {v w target : Value} {items : List Value} {segment : String} {index : Int}
      {segments : List String} (listed : g.items? v = some items)
      (numeral : Numeral.int? 10 segment.toList = some index) (held : itemAt items index = .ok w)
      (rest : Reads g w segments target) : Reads g v (segment :: segments) target

variable {g : Graph} {root v w target : Value} {path : List Step}

theorem itemAt_natCast {items : List Value} {place : Nat} (held : items[place]? = some w) :
    itemAt items (place : Int) = .ok w := by
  have nonnegative : ¬ ((place : Int) < 0) := by omega
  rw [itemAt, if_neg nonnegative]
  simp only [if_neg nonnegative, Int.toNat_natCast, held]

/-- A path is read from its segments. -/
theorem Along.reads (along : Along g v path target) :
    Reads g v (path.map Step.segment) target := by
  induction along with
  | here v => exact .here v
  | key held _ ih => exact .key held ih
  | index listed held _ ih => exact .item listed (Numeral.int?_decimal _) (itemAt_natCast held) ih

/-! ## Steps of the walk -/

/-- A step of the walk is a step of the reading. -/
theorem stepTo_eq_ok_iff {ref segment : String} :
    stepTo g ref v segment = .ok w ↔ g.field? v segment = some w ∨
      ∃ items index, g.items? v = some items ∧ Numeral.int? 10 segment.toList = some index ∧
        itemAt items index = .ok w := by
  rw [stepTo, Graph.field?, Graph.entries?, Graph.items?]
  cases g.node? v with
  | none => simp
  | some node =>
    cases node with
    | mapping entries =>
      cases held : entries.get? segment <;> simp [held]
    | sequence items =>
      cases numeral : Numeral.int? 10 segment.toList <;> simp

theorem reads_cons_iff {segment : String} {segments : List String} (ref : String) :
    Reads g v (segment :: segments) target ↔
      ∃ w, stepTo g ref v segment = .ok w ∧ Reads g w segments target := by
  constructor
  · intro reads
    cases reads with
    | key held rest => exact ⟨_, stepTo_eq_ok_iff.2 (.inl held), rest⟩
    | item listed numeral held rest =>
      exact ⟨_, stepTo_eq_ok_iff.2 (.inr ⟨_, _, listed, numeral, held⟩), rest⟩
  · intro ⟨w, step, rest⟩
    rcases stepTo_eq_ok_iff.1 step with held | ⟨items, index, listed, numeral, held⟩
    · exact .key held rest
    · exact .item listed numeral held rest

theorem foldlM_stepTo_eq_ok_iff {ref : String} {segments : List String} {v : Value} :
    segments.foldlM (stepTo g ref) v = .ok target ↔ Reads g v segments target := by
  induction segments generalizing v with
  | nil =>
    constructor
    · intro done
      cases done
      exact .here _
    · intro reads
      cases reads
      rfl
  | cons segment segments ih =>
    rw [List.foldlM_cons, reads_cons_iff ref]
    constructor
    · intro done
      obtain ⟨w, step, rest⟩ := exists_of_bind_ok done
      exact ⟨w, step, ih.1 rest⟩
    · intro ⟨w, step, rest⟩
      rw [step]
      exact ih.2 rest

/-! ## References -/

/-- The segments of a reference that the walk takes. -/
theorem resolve_reference_eq (path : List Step) : resolve g root (reference path) =
    ((path.map Step.segment).filter (· ≠ "")).foldlM (stepTo g (reference path)) root := by
  have letters : (reference path).toList =
      '#' :: (Pointer.encode (path.map Step.segment)).toList := by
    rw [reference, String.toList_append]
    rfl
  have kept : (Pointer.segments (Pointer.encode (path.map Step.segment)).toList).filter
      (!·.isEmpty) = ((path.map Step.segment).filter (· ≠ "")).map
        fun segment => (Pointer.encodeSegment segment).toList := by
    rw [Pointer.segments_encode, List.filter_cons_of_neg (by simp), List.filter_map]
    congr 1
    apply List.filter_congr
    intro segment _
    rw [Bool.eq_iff_iff]
    simp [Pointer.encodeSegment_eq_empty_iff]
  rw [resolve, letters]
  simp only [kept, List.foldlM_map, Pointer.decodeSegment_encodeSegment]

/-- Exactly the keys that are empty are written as empty segments. -/
theorem Step.segment_ne_empty {step : Step} (inhabited : step ≠ .key "") : step.segment ≠ "" := by
  cases step with
  | key name =>
    intro empty
    exact inhabited (congrArg Step.key empty)
  | index place =>
    intro empty
    exact Naming.decimal_ne_empty place (String.toList_eq_nil_iff.2 empty)

/-- A reference to where a path leads resolves to what its segments without the empty ones are read
as. Where no key of the path is empty this is the value at its end. -/
theorem resolve_along (along : Along g root path target) :
    (∀ w, resolve g root (reference path) = .ok w ↔
        Reads g root ((path.map Step.segment).filter (· ≠ "")) w) ∧
      ((∀ step ∈ path, step ≠ .key "") → resolve g root (reference path) = .ok target) := by
  have reading : ∀ w, resolve g root (reference path) = .ok w ↔
      Reads g root ((path.map Step.segment).filter (· ≠ "")) w := by
    intro w
    rw [resolve_reference_eq, foldlM_stepTo_eq_ok_iff]
  refine ⟨reading, fun inhabited => (reading target).2 ?_⟩
  have all : (path.map Step.segment).filter (· ≠ "") = path.map Step.segment := by
    rw [List.filter_eq_self]
    intro segment member
    obtain ⟨step, present, rfl⟩ := List.mem_map.1 member
    exact decide_eq_true (Step.segment_ne_empty (inhabited step present))
  rw [all]
  exact along.reads

/-- A list under keys with a slash and with what looks like an escape, and a text under an empty
key. -/
def nestedKeys : Graph :=
  ⟨#[.mapping [(.str "a/b", .node 1), (.str "", .str "empty")], .mapping [(.str "~1", .node 2)],
    .sequence [.null, .str "second"]]⟩

theorem resolve_along_nestedKeys :
    Along nestedKeys (.node 0) [.key "a/b", .key "~1", .index 1] (.str "second") ∧
      reference [.key "a/b", .key "~1", .index 1] = "#/a~1b/~01/1" ∧
      resolve nestedKeys (.node 0) (reference [.key "a/b", .key "~1", .index 1]) =
        .ok (.str "second") := by
  have along : Along nestedKeys (.node 0) [.key "a/b", .key "~1", .index 1] (.str "second") :=
    .key rfl (.key rfl (.index rfl rfl (.here _)))
  exact ⟨along, by decide +kernel, (resolve_along along).2 (by decide)⟩

/-- An empty key is not entered: the reference to the text under it resolves to the root. -/
theorem not_resolve_emptyKey :
    Along nestedKeys (.node 0) [.key ""] (.str "empty") ∧
      resolve nestedKeys (.node 0) (reference [.key ""]) ≠ .ok (.str "empty") := by
  refine ⟨.key rfl (.here _), ?_⟩
  decide +kernel

end Typewright.Compile
