import Typewright.Proofs.Json.Circular
import Typewright.Proofs.Schema.Definitions

/-!
# Cycles of copies

A copy of a schema has the cycles that the schema has among its containers without a name, and no
others. A path in the document that stays among these has its image in the copy, and a path in the
copy that goes on for ever never meets a reference, so it is the image of such a path
(`Standalone.leadsIntoCycle_copy_iff`). Since titles of structural dependencies are dropped, a path
through one of them does not count.
-/

namespace Typewright.Standalone

open Schema

/-- A step to a container without a name that a copy keeps. -/
def KeptStep (g : Graph) (naming : Naming) (root a b : Nat) : Prop :=
  b ∈ keptSuccessors g (dependencies g (.node root)) a ∧ naming.isNamed b = false

/-- Exactly the cycles of containers without a name are in the copy of a schema. The walk that finds
the containers to copy ends by itself and meets each of them once. The copy leads into a cycle if and
only if the schema does by steps that the copy keeps, and this is what its JSON text fails for. -/
structure CyclesSurvive (g : Graph) (naming : Naming) (root : Nat) : Prop where
  ends : ∀ more, g.size ≤ more →
    Search.order (copiedWith g naming) more root = members g naming root
  once : (members g naming root).Nodup ∧
    ∀ id, id ∈ members g naming root ↔ Own g.successors naming root id
  place : (copy g naming (.node root)).2 = .node g.size
  cycle_iff : LeadsIntoCycle (Search.Leads (copy g naming (.node root)).1.successors) g.size ↔
    LeadsIntoCycle (KeptStep g naming root) root
  circular : ∀ layout, Json.write (copy g naming (.node root)).1 layout (.node g.size) =
    .error .circular → LeadsIntoCycle (KeptStep g naming root) root
  fails : LeadsIntoCycle (KeptStep g naming root) root → ∀ layout, ∃ fault,
    Json.write (copy g naming (.node root)).1 layout (.node g.size) = .error fault ∧
      ((∀ place, Relation.ReflTransGen
          (Search.Leads (copy g naming (.node root)).1.successors) g.size place →
        ¬ Json.Unsupported (copy g naming (.node root)).1 place) → fault = .circular)

section

variable {g copied : Graph} {naming : Naming} {root base : Nat} {members : List Nat}
variable {references : List Node}
variable (copying : Copying g copied naming root base members references)
variable (wellFormed : g.WellFormed) (mappings : NamesMappings g naming)
variable (defined : defined? g (.node root) = some root)
include copying wellFormed mappings defined

/-- A path from an image ends at the image of the end of a path of kept steps, or at a reference,
from which nothing leads on. -/
theorem exists_original_path {a place : Nat} (own : KeptOwn g naming root a)
    (path : Relation.TransGen (Search.Leads copied.successors) (copyOf base members a) place) :
    (∃ b, KeptOwn g naming root b ∧ Relation.TransGen (KeptStep g naming root) a b ∧
      copyOf base members b = place) ∨ copied.successors place = [] := by
  have step : ∀ {b next : Nat}, KeptOwn g naming root b →
      Search.Leads copied.successors (copyOf base members b) next →
      (∃ c, KeptStep g naming root b c ∧ copyOf base members c = next) ∨
        copied.successors next = [] := by
    intro b next ownB leads
    rcases cases_of_leads_image copying mappings wellFormed defined ownB leads with
      ⟨c, kept, unnamed, same⟩ | ⟨_, name, _, held, _⟩
    · exact Or.inl ⟨c, ⟨kept, unnamed⟩, same⟩
    · refine Or.inr ?_
      rw [Graph.successors, held]
      rfl
  induction path with
  | single leads =>
    refine (step own leads).imp_left ?_
    rintro ⟨b, kept, same⟩
    exact ⟨b, own.tail kept, .single kept, same⟩
  | tail _ leads ih =>
    rcases ih with ⟨b, ownB, path, rfl⟩ | ended
    · refine (step ownB leads).imp_left ?_
      rintro ⟨c, kept, same⟩
      exact ⟨c, ownB.tail kept, path.tail kept, same⟩
    · rw [Search.Leads, ended] at leads
      cases leads

/-- A copy in place leads into a cycle exactly if its schema does by kept steps. -/
theorem leadsIntoCycle_copy_iff (named : naming.isNamed root = true) :
    LeadsIntoCycle (Search.Leads copied.successors) (copyOf base members root) ↔
      LeadsIntoCycle (KeptStep g naming root) root := by
  constructor
  · rintro ⟨place, path, cycle⟩
    have goesOn : copied.successors place ≠ [] := by
      obtain ⟨next, leads, _⟩ := Relation.TransGen.head'_iff.1 cycle
      exact List.ne_nil_of_mem leads
    rcases isCopied_of_path copying mappings wellFormed defined path with
      ⟨a, own, rfl⟩ | ⟨_, name, _, held, _⟩
    · rcases exists_original_path copying wellFormed mappings defined own cycle with
        ⟨b, ownB, around, same⟩ | ended
      · obtain rfl := copyOf_injective ((copying.member_iff b).2 (own_of_kept ownB)) same
        exact ⟨b, own, around⟩
      · exact absurd ended goesOn
    · refine absurd ?_ goesOn
      rw [Graph.successors, held]
      rfl
  · rintro ⟨a, path, cycle⟩
    have mirrors := mirrors_of_copying copying mappings wellFormed defined named
    refine ⟨copyOf base members a, mirrors.reached a path, ?_⟩
    have along : ∀ b, Relation.TransGen (KeptStep g naming root) a b →
        Relation.TransGen (Search.Leads copied.successors) (copyOf base members a)
          (copyOf base members b) := by
      intro b around
      induction around with
      | single kept =>
        exact .single (leads_image copying mappings wellFormed defined named path kept.1 kept.2)
      | tail before kept ih =>
        exact ih.tail (leads_image copying mappings wellFormed defined named
          (path.trans before.to_reflTransGen) kept.1 kept.2)
    exact along a cycle

end

/-- Exactly the cycles of containers without a name survive in the copy of a schema.

The document is any well formed graph, with sharing and cycles, and the names are any if only
mappings have them; the schema is a mapping without a reference. -/
theorem cycles_survive {g : Graph} {naming : Naming} {root : Nat} (wellFormed : g.WellFormed)
    (mappings : NamesMappings g naming) (named : naming.isNamed root = true)
    (defined : defined? g (.node root) = some root) : CyclesSurvive g naming root := by
  have bound := lt_size_of_defined defined
  have keeps := Graph.Extends.refl g
  have bounded := bounded_copiedWith keeps mappings wellFormed bound
  obtain ⟨references, copying, _⟩ :=
    exists_copying wellFormed keeps (Graph.Extends.refl _) mappings defined
  have cycleIff := leadsIntoCycle_copy_iff copying wellFormed mappings defined named
  rw [copyOf_root] at cycleIff
  refine ⟨fun more le => Search.order_of_le bounded le,
    ⟨Search.order_nodup bounded, copying.member_iff⟩, (copy_spec g naming root).choose_spec.1,
    cycleIff, fun layout failed => ?_, fun cycle layout => ?_⟩
  · rcases Json.write_error failed with ⟨_, cycle⟩ | ⟨other, _⟩
    · exact cycleIff.1 cycle
    · exact absurd rfl other
  · have there := cycleIff.2 cycle
    cases result : Json.write (copy g naming (.node root)).1 layout (.node g.size) with
    | ok text => exact absurd there (Json.not_leadsIntoCycle_of_write result)
    | error fault =>
      refine ⟨fault, rfl, fun supported => ?_⟩
      have circular : Json.write (copy g naming (.node root)).1 layout (.node g.size) =
          .error .circular := (Json.write_eq_circular_iff supported).2 there
      rw [circular] at result
      cases result
      rfl

theorem cycles_survive_cyclicDocument :
    NamesMappings cyclicDocument (Naming.after ["Top"] (namesFirst none)) ∧
      CyclesSurvive cyclicDocument (Naming.after ["Top"] (namesFirst none)) 0 :=
  have mappings : NamesMappings cyclicDocument (Naming.after ["Top"] (namesFirst none)) :=
    namesMappings_of_listed (by decide +kernel)
  ⟨mappings, cycles_survive (Graph.wellFormed_of_checked (by decide +kernel)) mappings
    (by decide +kernel) (by decide +kernel)⟩

/-- A document whose one cycle stands under the title of a schema inside it. -/
def titleCycle : Graph :=
  ⟨#[.mapping [(.str "properties", .node 1)], .mapping [(.str "p", .node 2)],
    .mapping [(.str "title", .node 3)], .mapping [(.str "self", .node 3)]]⟩

/-- A cycle that only a dropped title leads to does not survive. -/
theorem cycle_lost_with_title :
    titleCycle.WellFormed ∧ NamesMappings titleCycle (Naming.after [] (namesFirst none)) ∧
      (Naming.after [] (namesFirst none)).isNamed 0 = true ∧
      defined? titleCycle (.node 0) = some 0 ∧
      ¬ (LeadsIntoCycle (Search.Leads (copy titleCycle (Naming.after [] (namesFirst none))
            (.node 0)).1.successors) titleCycle.size ↔
          LeadsIntoCycle (fun a b => b ∈ titleCycle.successors a ∧
            (Naming.after [] (namesFirst none)).isNamed b = false) 0) := by
  have named : (Naming.after [] (namesFirst none)).namedSchemas = [0] := by decide +kernel
  refine ⟨Graph.wellFormed_of_checked (by decide +kernel),
    namesMappings_of_listed (by decide +kernel), by decide +kernel, by decide +kernel,
    fun same => ?_⟩
  have step : ∀ {a b : Nat}, b ∈ titleCycle.successors a → b ≠ 0 →
      b ∈ titleCycle.successors a ∧
        (Naming.after [] (namesFirst none)).isNamed b = false := by
    intro a b leads other
    refine ⟨leads, ?_⟩
    rw [Bool.eq_false_iff, ne_eq, Naming.isNamed_iff, named, List.mem_singleton]
    exact other
  have first := step (a := 0) (b := 1) (by decide) (by decide)
  have second := step (a := 1) (b := 2) (by decide) (by decide)
  have third := step (a := 2) (b := 3) (by decide) (by decide)
  have round := step (a := 3) (b := 3) (by decide) (by decide)
  have path : LeadsIntoCycle (fun a b => b ∈ titleCycle.successors a ∧
      (Naming.after [] (namesFirst none)).isNamed b = false) 0 :=
    ⟨3, .tail (.tail (.single first) second) third, .single round⟩
  have written : Json.write (copy titleCycle (Naming.after [] (namesFirst none)) (.node 0)).1
      .line (.node titleCycle.size) =
      .ok "\x7b\"title\": \"A\", \"properties\": \x7b\"p\": \x7b\x7d\x7d\x7d" := by
    decide +kernel
  exact Json.not_leadsIntoCycle_of_write written (same.2 path)

end Typewright.Standalone
