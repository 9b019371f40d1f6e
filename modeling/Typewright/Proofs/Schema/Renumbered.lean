import Typewright.Proofs.Document.Renumbering
import Typewright.Proofs.Schema.Mirror

/-!
# Schemas under other numbers

What a search for structural dependencies finds, what a registry of names holds and what the
stand-alone copies are do not depend on the numbers of containers. Renumbering the document and the
registry renumbers the dependencies (`Schema.dependencies_renumber`), the names
(`Naming.finalize_renumber`) and the definitions (`Standalone.definitions_renumber`).

Copies are added at the end of a graph. Both graphs grow in step, and the place of each copy in one
is the place of its counterpart in the other.
-/

namespace Typewright

namespace Schema

variable {g h : Graph} {f : Nat → Nat} (renumbers : g.Renumbers h f)
include renumbers

theorem defined?_renumber (v : Value) : defined? h (v.renumber f) = (defined? g v).map f := by
  unfold defined?
  rw [renumbers.entries?]
  cases v with
  | scalar s => rfl
  | node id =>
    cases g.entries? (.node id) with
    | none => rfl
    | some entries =>
      simp only [Option.map_some, Value.renumber_node, Entries.has_renumber]
      split <;> rfl

theorem isDefined_renumber (v : Value) : isDefined h (v.renumber f) = isDefined g v := by
  rw [isDefined, isDefined, defined?_renumber renumbers, Option.isSome_map]

theorem propertyChildren_renumber (entries : Entries) :
    propertyChildren h (entries.renumber f) =
      (propertyChildren g entries).map (Value.renumber f) := by
  unfold propertyChildren
  rw [renumbers.bind_entries?]
  cases (entries.get? "properties").bind g.entries? with
  | none => rfl
  | some properties => simp [Entries.renumber]

theorem itemChildren_renumber (entries : Entries) :
    itemChildren h (entries.renumber f) = (itemChildren g entries).map (Value.renumber f) := by
  unfold itemChildren
  rw [Entries.get?_renumber]
  cases entries.get? "items" with
  | none => rfl
  | some v =>
    simp only [Option.map_some, renumbers.items?]
    cases g.items? v <;> rfl

theorem additionalChildren_renumber (entries : Entries) :
    additionalChildren h (entries.renumber f) =
      (additionalChildren g entries).map (Value.renumber f) := by
  unfold additionalChildren
  rw [Entries.get?_renumber]
  cases entries.get? "additionalProperties" with
  | none => rfl
  | some v =>
    simp only [Option.map_some, renumbers.isMapping]
    split <;> rfl

theorem memberChildren_renumber (entries : Entries) (key : String) :
    memberChildren h (entries.renumber f) key =
      (memberChildren g entries key).map (Value.renumber f) := by
  unfold memberChildren
  rw [renumbers.bind_items?]
  cases (entries.get? key).bind g.items? <;> rfl

theorem children_renumber (entries : Entries) :
    children h (entries.renumber f) = (children g entries).map (Value.renumber f) := by
  simp only [children, compositionKeys, List.flatMap_cons, List.flatMap_nil, List.map_append,
    List.map_nil, propertyChildren_renumber renumbers, itemChildren_renumber renumbers,
    additionalChildren_renumber renumbers, memberChildren_renumber renumbers]

theorem filterMap_defined?_renumber (vs : List Value) :
    (vs.map (Value.renumber f)).filterMap (defined? h) = (vs.filterMap (defined? g)).map f := by
  rw [List.filterMap_map, List.map_filterMap]
  exact List.filterMap_congr fun v _ => defined?_renumber renumbers v

theorem definedChildren_renumber (id : Nat) :
    definedChildren h (f id) = (definedChildren g id).map f := by
  unfold definedChildren
  rw [← Value.renumber_node, renumbers.entries?]
  cases g.entries? (.node id) with
  | none => rfl
  | some entries =>
    simp only [Option.map_some, Option.getD_some, children_renumber renumbers,
      filterMap_defined?_renumber renumbers]

/-- The structural dependencies are the same, in the same order. -/
theorem dependencies_renumber (v : Value) :
    dependencies h (v.renumber f) = (dependencies g v).map f := by
  unfold dependencies
  rw [defined?_renumber renumbers]
  cases defined? g v with
  | none => rfl
  | some id =>
    simp only [Option.map_some]
    rw [Search.order_map renumbers.injective (definedChildren_renumber renumbers),
      Search.order_of_le (bounded_definedChildren g id) renumbers.size_le]

end Schema

/-! ## Names -/

/-- A proposal for the schema under another number. -/
def Proposal.renumber (f : Nat → Nat) (proposal : Proposal) : Proposal :=
  { proposal with schema := f proposal.schema }

namespace Naming

/-- A registry of the same schemas under other numbers. -/
def renumber (f : Nat → Nat) (naming : Naming) : Naming where
  registered := naming.registered.map f
  proposals := naming.proposals.map (Proposal.renumber f)
  names := naming.names.map fun entry => (f entry.1, entry.2)
  reserved := naming.reserved

section

variable {f : Nat → Nat} (injective : Function.Injective f) (naming : Naming)
include injective

theorem nameOf?_renumber (schema : Nat) :
    (naming.renumber f).nameOf? (f schema) = naming.nameOf? schema := by
  simp [nameOf?, renumber, List.find?_map, Function.comp_def, injective.beq_eq]

theorem isNamed_renumber (schema : Nat) :
    (naming.renumber f).isNamed (f schema) = naming.isNamed schema := by
  rw [isNamed, isNamed, nameOf?_renumber injective]

theorem idOf?_renumber (schema : Nat) :
    (naming.renumber f).idOf? (f schema) = naming.idOf? schema := by
  rw [idOf?, idOf?, nameOf?_renumber injective]

theorem proposal?_renumber (schema : Nat) :
    (naming.renumber f).proposal? (f schema) =
      (naming.proposal? schema).map (Proposal.renumber f) := by
  simp [proposal?, renumber, List.find?_map, Function.comp_def, Proposal.renumber,
    injective.beq_eq]

theorem isProposed_renumber (schema : Nat) :
    (naming.renumber f).isProposed (f schema) = naming.isProposed schema := by
  rw [isProposed, isProposed, proposal?_renumber injective, Option.isSome_map]

theorem descriptionOf?_renumber (schema : Nat) :
    (naming.renumber f).descriptionOf? (f schema) = naming.descriptionOf? schema := by
  rw [descriptionOf?, descriptionOf?, proposal?_renumber injective]
  cases naming.proposal? schema <;> rfl

theorem isGenerated_renumber (schema : Nat) :
    (naming.renumber f).isGenerated (f schema) = naming.isGenerated schema := by
  rw [isGenerated, isGenerated, proposal?_renumber injective]
  cases naming.proposal? schema <;> rfl

theorem register_renumber (schema : Nat) :
    (naming.renumber f).register (f schema) = (naming.register schema).renumber f := by
  unfold register
  rw [show (naming.renumber f).registered = naming.registered.map f from rfl,
    Search.contains_map injective]
  split
  · rfl
  · simp [renumber]

theorem propose_renumber (proposal : Proposal) :
    (naming.renumber f).propose (proposal.renumber f) = (naming.propose proposal).renumber f := by
  unfold propose
  rw [show (proposal.renumber f).schema = f proposal.schema from rfl,
    register_renumber injective]
  simp only [isProposed_renumber injective]
  split
  · rfl
  · simp [renumber]

theorem assign_renumber (proposal : Proposal) :
    (naming.renumber f).assign (proposal.renumber f) = (naming.assign proposal).renumber f := by
  unfold assign
  rw [show (proposal.renumber f).schema = f proposal.schema from rfl, isNamed_renumber injective]
  split
  · rfl
  · simp [renumber, Proposal.renumber]

omit injective in
theorem foldl_renumber {step : Naming → Proposal → Naming}
    (each : ∀ naming proposal,
      step (naming.renumber f) (proposal.renumber f) = (step naming proposal).renumber f)
    (proposals : List Proposal) :
    (proposals.map (Proposal.renumber f)).foldl step (naming.renumber f) =
      (proposals.foldl step naming).renumber f := by
  induction proposals generalizing naming with
  | nil => rfl
  | cons proposal proposals ih => rw [List.map_cons, List.foldl_cons, each, ih, List.foldl_cons]

theorem finalize_renumber : (naming.renumber f).finalize = naming.finalize.renumber f := by
  rw [finalize, finalize, show (naming.renumber f).proposals =
    naming.proposals.map (Proposal.renumber f) from rfl]
  exact foldl_renumber naming (assign_renumber injective) naming.proposals

end

theorem namedSchemas_renumber (f : Nat → Nat) (naming : Naming) :
    (naming.renumber f).namedSchemas = naming.namedSchemas.map f := by
  simp [namedSchemas, renumber]

end Naming

/-! ## Copies -/

namespace Standalone

open Schema

section

variable {g h : Graph} {f : Nat → Nat} (renumbers : g.Renumbers h f) (naming : Naming)
include renumbers

theorem isReplaced_renumber (id : Nat) :
    isReplaced h (naming.renumber f) (f id) = isReplaced g naming id := by
  rw [isReplaced, isReplaced, ← Value.renumber_node, renumbers.isMapping,
    naming.isNamed_renumber renumbers.injective]

theorem copiedWith_renumber (id : Nat) :
    copiedWith h (naming.renumber f) (f id) = (copiedWith g naming id).map f := by
  rw [copiedWith, copiedWith, renumbers.successors, List.filter_map]
  refine congrArg _ (List.filter_congr fun inside _ => ?_)
  rw [Function.comp_apply, isReplaced_renumber renumbers]

theorem members_renumber {root : Nat}
    (bounded : Search.Bounded (copiedWith g naming) g.size root) :
    members h (naming.renumber f) (f root) = (members g naming root).map f := by
  rw [members, members, Search.order_map renumbers.injective (copiedWith_renumber renumbers naming),
    Search.order_of_le bounded renumbers.size_le]

theorem leading_renumber (id : Nat) (entries : Entries) :
    leading h (naming.renumber f) (f id) (entries.renumber f) =
      (leading g naming id entries).renumber f := by
  have truthy : ((entries.renumber f).get? "description").map h.isTruthy =
      (entries.get? "description").map g.isTruthy := by
    rw [Entries.get?_renumber]
    cases entries.get? "description" <;> simp [renumbers.isTruthy]
  unfold leading
  rw [naming.nameOf?_renumber renumbers.injective, naming.descriptionOf?_renumber
    renumbers.injective, truthy]
  cases naming.nameOf? id with
  | none => rfl
  | some name =>
    cases naming.descriptionOf? id with
    | none => rfl
    | some text =>
      dsimp only
      split <;> rfl

theorem keptEntries_renumber (nested : List Nat) (id : Nat) (entries : Entries) :
    keptEntries (nested.map f) (f id) (entries.renumber f) =
      (keptEntries nested id entries).renumber f := by
  rw [keptEntries, keptEntries, Entries.renumber, List.filter_map, renumbers.contains_map]
  rfl

/-- The places of copies and of references, as they come, correspond. -/
structure Placing (f : Nat → Nat) (base start base' start' : Nat) : Prop where
  copies : ∀ place, f (base + place) = base' + place
  references : ∀ place, f (start + place) = start' + place

variable {base start base' start' : Nat} (placing : Placing f base start base' start')
variable (members : List Nat) (references : List Node)
include placing

omit renumbers in
theorem copyOf_renumber (injective : Function.Injective f) (id : Nat) :
    copyOf base' (members.map f) (f id) = f (copyOf base members id) := by
  have same : (members.map f).idxOf (f id) = members.idxOf id := by
    induction members with
    | nil => rfl
    | cons member members ih => rw [List.map_cons, List.idxOf_cons, List.idxOf_cons, ih,
        injective.beq_eq]
  rw [copyOf, copyOf, same, placing.copies]

theorem copyValue_renumber (v : Value) :
    copyValue h (naming.renumber f) base' start' (members.map f)
        (references.map (Node.renumber f)) (v.renumber f) =
      (((copyValue g naming base start members references v).1).map (Node.renumber f),
        (copyValue g naming base start members references v).2.renumber f) := by
  cases v with
  | scalar s => rfl
  | node id =>
    rw [Value.renumber_node, copyValue, copyValue, isReplaced_renumber renumbers,
      naming.idOf?_renumber renumbers.injective, copyOf_renumber placing _ renumbers.injective]
    split
    · simp [placing.references, Node.renumber, referenceTo, Entries.renumber, Value.str]
    · rfl

theorem copyValues_renumber (vs : List Value) :
    copyValues h (naming.renumber f) base' start' (members.map f)
        (references.map (Node.renumber f)) (vs.map (Value.renumber f)) =
      (((copyValues g naming base start members references vs).1).map (Node.renumber f),
        ((copyValues g naming base start members references vs).2).map (Value.renumber f)) := by
  induction vs generalizing references with
  | nil => rfl
  | cons v vs ih =>
    rw [List.map_cons, copyValues, copyValue_renumber renumbers naming placing]
    dsimp only
    rw [ih]
    rfl

theorem copyNode_renumber (nested : List Nat) (id : Nat) :
    copyNode h (naming.renumber f) base' start' (members.map f) (nested.map f)
        (references.map (Node.renumber f)) (f id) =
      (((copyNode g naming base start members nested references id).1).map (Node.renumber f),
        (copyNode g naming base start members nested references id).2.renumber f) := by
  unfold copyNode
  rw [renumbers.found]
  rcases g.get? id with _ | entries | items
  · rfl
  · simp only [Option.map_some, Node.renumber]
    have values : ((keptEntries nested id entries).renumber f).map (·.2) =
        ((keptEntries nested id entries).map (·.2)).map (Value.renumber f) := by
      simp [Entries.renumber]
    have keys : ((keptEntries nested id entries).renumber f).map (·.1) =
        (keptEntries nested id entries).map (·.1) := by
      simp [Entries.renumber]
    have zipped : ∀ (keys : List Scalar) (values : List Value),
        keys.zip (values.map (Value.renumber f)) = Entries.renumber f (keys.zip values) := by
      intro keys values
      rw [Entries.renumber, List.zip_map_right]
      rfl
    rw [keptEntries_renumber renumbers, values, keys,
      copyValues_renumber renumbers naming placing, leading_renumber renumbers]
    dsimp only
    rw [zipped, ← Entries.foldl_put_renumber]
  · simp only [Option.map_some, Node.renumber]
    rw [copyValues_renumber renumbers naming placing]

theorem copyNodes_renumber (nested ids : List Nat) :
    copyNodes h (naming.renumber f) base' start' (members.map f) (nested.map f)
        (references.map (Node.renumber f)) (ids.map f) =
      (((copyNodes g naming base start members nested references ids).1).map (Node.renumber f),
        ((copyNodes g naming base start members nested references ids).2).map
          (Node.renumber f)) := by
  induction ids generalizing references with
  | nil => rfl
  | cons id ids ih =>
    rw [List.map_cons, copyNodes, copyNode_renumber renumbers naming placing]
    dsimp only
    rw [ih]
    rfl

end

section

variable {g h : Graph} {f : Nat → Nat} {naming : Naming}

theorem copyAll_cons (naming : Naming) (g : Graph) (schema : Nat) (rest : List Nat) :
    copyAll naming g (schema :: rest) =
      ((copyAll naming (copy g naming (.node schema)).1 rest).1,
        ((naming.idOf? schema).getD "", (copy g naming (.node schema)).2) ::
          (copyAll naming (copy g naming (.node schema)).1 rest).2) := rfl

/-- The copy of a schema under another number is the copy under other numbers. -/
theorem copy_renumber (renumbers : g.Renumbers h f) {root : Nat}
    (bounded : Search.Bounded (copiedWith g naming) g.size root) :
    (copy g naming (.node root)).1.Renumbers (copy h (naming.renumber f) (.node (f root))).1 f ∧
      (copy h (naming.renumber f) (.node (f root))).2 =
        (copy g naming (.node root)).2.renumber f := by
  have placing : Placing f g.size (g.size + (members g naming root).length) h.size
      (h.size + ((members g naming root).map f).length) := by
    refine ⟨renumbers.behind, fun place => ?_⟩
    rw [Nat.add_assoc, renumbers.behind, List.length_map, Nat.add_assoc]
  have nodes := copyNodes_renumber renumbers naming placing (members g naming root) []
    (dependencies g (.node root)) (members g naming root)
  have nested := dependencies_renumber renumbers (.node root)
  rw [Value.renumber_node] at nested
  rw [copy, copy, members_renumber renumbers naming bounded, nested]
  rw [List.map_nil] at nodes
  dsimp only
  rw [nodes]
  refine ⟨(renumbers.append _).append _, ?_⟩
  rw [Value.renumber_node, ← Nat.add_zero g.size, renumbers.behind, Nat.add_zero]

variable (wellFormed : g.WellFormed) (mappings : NamesMappings g naming)
include wellFormed mappings

/-- Copies are added to a graph that extends the document. -/
theorem copyAll_renumber {larger : Graph} (keeps : g.Extends larger)
    (renumbers : larger.Renumbers h f) (schemas : List Nat)
    (named : ∀ schema ∈ schemas, naming.isNamed schema = true) :
    (copyAll naming larger schemas).1.Renumbers
        (copyAll (naming.renumber f) h (schemas.map f)).1 f ∧
      (copyAll (naming.renumber f) h (schemas.map f)).2 =
        (copyAll naming larger schemas).2.map fun made => (made.1, made.2.renumber f) := by
  induction schemas generalizing larger h with
  | nil => exact ⟨renumbers, rfl⟩
  | cons schema schemas ih =>
    have bound := lt_size_of_named mappings (named schema List.mem_cons_self)
    obtain ⟨between, same⟩ :=
      copy_renumber renumbers (bounded_copiedWith keeps mappings wellFormed bound)
    obtain ⟨_, _, kept, _⟩ := copy_spec larger naming schema
    obtain ⟨after, later⟩ := ih (keeps.trans kept) between
      fun other member => named other (List.mem_cons_of_mem _ member)
    rw [List.map_cons, copyAll_cons, copyAll_cons, naming.idOf?_renumber renumbers.injective, same,
      later]
    exact ⟨after, rfl⟩

/-- The definitions of the same schemas under other numbers. -/
theorem definitions_renumber (renumbers : g.Renumbers h f) :
    (definitions g naming).1.Renumbers (definitions h (naming.renumber f)).1 f ∧
      (definitions h (naming.renumber f)).2 =
        (definitions g naming).2.map fun made => (made.1, made.2.renumber f) := by
  rw [definitions, definitions, Naming.namedSchemas_renumber]
  exact copyAll_renumber wellFormed mappings (.refl g) renumbers _
    fun schema member => Naming.isNamed_iff.2 member

end

end Standalone

end Typewright
