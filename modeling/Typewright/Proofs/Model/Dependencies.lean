import Typewright.Model.Extract
import Typewright.Proofs.Schema.Dependencies
import Typewright.Proofs.Schema.Registry

/-!
# Dependencies are exact

The dependencies of a model are found by a search with a stack, which passes through named schemas
and schemas without a name alike, and are told apart by ids. What they are is said here without the
search: one schema has an edge to another where it holds it in a structural position
(`Schema.Edge`), and the dependencies of a schema are the ids of the other named schemas at the ends
of paths of edges (`Model.dependencies_exact`). So they are closed: what a dependency depends on is
a dependency too, unless it is the schema itself.
-/

namespace Typewright

/-! ## Structural edges -/

namespace Schema

/-- A value in a structural position of a schema: a property, the schema for all items or one of a
list of them, a mapping for further properties, or a member of a composition. -/
inductive Position (g : Graph) (entries : Entries) (v : Value) : Prop
  | property {holder : Value} {properties : Entries} {key : Scalar}
      (held : entries.get? "properties" = some holder) (read : g.entries? holder = some properties)
      (member : (key, v) ∈ properties)
  | item (held : entries.get? "items" = some v) (single : g.items? v = none)
  | listedItem {holder : Value} {items : List Value} (held : entries.get? "items" = some holder)
      (read : g.items? holder = some items) (member : v ∈ items)
  | additional (held : entries.get? "additionalProperties" = some v)
      (isMapping : g.isMapping v = true)
  | composed {key : String} {holder : Value} {members : List Value}
      (composes : key ∈ ["allOf", "anyOf", "oneOf"]) (held : entries.get? key = some holder)
      (read : g.items? holder = some members) (member : v ∈ members)

/-- An edge between schemas: both are mappings without a reference, and the first holds the second in
a structural position. -/
def Edge (g : Graph) (a b : Nat) : Prop :=
  ∃ entries, g.get? a = some (.mapping entries) ∧ entries.has refKey = false ∧
    Position g entries (.node b) ∧ defined? g (.node b) = some b

section

variable {g : Graph} {entries : Entries} {v : Value}

theorem mem_children_iff_position : v ∈ children g entries ↔ Position g entries v := by
  rw [mem_children_iff]
  constructor
  · intro child
    rcases child with ⟨properties, found, member⟩ | ⟨items, found, member⟩ | ⟨held, single⟩ |
      ⟨held, isMapping⟩ | ⟨key, composes, members, found, member⟩
    · rcases Option.bind_eq_some_iff.1 found with ⟨holder, held, read⟩
      rcases List.mem_map.1 member with ⟨⟨key, value⟩, inside, same⟩
      subst same
      exact .property held read inside
    · rcases Option.bind_eq_some_iff.1 found with ⟨holder, held, read⟩
      exact .listedItem held read member
    · exact .item held single
    · exact .additional held isMapping
    · rcases Option.bind_eq_some_iff.1 found with ⟨holder, held, read⟩
      exact .composed composes held read member
  · intro position
    cases position with
    | property held read member =>
      exact Or.inl ⟨_, Option.bind_eq_some_iff.2 ⟨_, held, read⟩, List.mem_map_of_mem member⟩
    | listedItem held read member =>
      exact Or.inr (Or.inl ⟨_, Option.bind_eq_some_iff.2 ⟨_, held, read⟩, member⟩)
    | item held single => exact Or.inr (Or.inr (Or.inl ⟨held, single⟩))
    | additional held isMapping =>
      exact Or.inr (Or.inr (Or.inr (Or.inl ⟨held, isMapping⟩)))
    | composed composes held read member =>
      exact Or.inr (Or.inr (Or.inr (Or.inr
        ⟨_, composes, _, Option.bind_eq_some_iff.2 ⟨_, held, read⟩, member⟩)))

end

/-- From a mapping without a reference the search goes along edges. -/
theorem leads_iff_edge {g : Graph} {a b : Nat} (defined : defined? g (.node a) = some a) :
    Search.Leads (definedChildren g) a b ↔ Edge g a b := by
  rcases defined?_eq_some defined with ⟨_, entries, found, plain⟩
  rw [Search.Leads, definedChildren_of_get? found, List.mem_filterMap]
  constructor
  · intro leads
    rcases leads with ⟨v, child, isDefined⟩
    rcases defined?_eq_some isDefined with ⟨same, _⟩
    subst same
    exact ⟨entries, found, plain, mem_children_iff_position.1 child, isDefined⟩
  · intro edge
    rcases edge with ⟨others, foundToo, _, position, isDefined⟩
    rw [found] at foundToo
    cases foundToo
    exact ⟨.node b, mem_children_iff_position.2 position, isDefined⟩

theorem Edge.defined {g : Graph} {a b : Nat} (edge : Edge g a b) :
    defined? g (.node a) = some a ∧ defined? g (.node b) = some b := by
  rcases edge with ⟨entries, found, plain, _, isDefined⟩
  exact ⟨defined?_of_get? found plain, isDefined⟩

/-- Only mappings without a reference have structural dependencies: themselves, and whatever a path
of edges leads to. -/
theorem mem_dependencies_iff_path {g : Graph} {s t : Nat} :
    t ∈ dependencies g (.node s) ↔
      (t = s ∧ defined? g (.node s) = some s) ∨ Relation.TransGen (Edge g) s t := by
  by_cases defined : defined? g (.node s) = some s
  · rw [mem_dependencies_iff defined, Relation.reflTransGen_iff_eq_or_transGen]
    -- every schema on a path is a mapping without a reference, because the search visits no other
    have paths : ∀ u, Relation.TransGen (Search.Leads (definedChildren g)) s u ↔
        Relation.TransGen (Edge g) s u := by
      intro u
      constructor
      · intro path
        have both : Relation.TransGen (Edge g) s u ∧ defined? g (.node u) = some u := by
          induction path with
          | single leads =>
            have edge := (leads_iff_edge defined).1 leads
            exact ⟨.single edge, edge.defined.2⟩
          | tail _ leads ih =>
            have edge := (leads_iff_edge ih.2).1 leads
            exact ⟨ih.1.tail edge, edge.defined.2⟩
        exact both.1
      · intro path
        exact Relation.TransGen.mono (fun a b edge => (leads_iff_edge edge.defined.1).2 edge) _ _ path
    rw [paths]
    simp [defined]
  · have none : defined? g (.node s) = none := by
      cases found : defined? g (.node s) with
      | none => rfl
      | some id =>
        rcases defined?_eq_some found with ⟨same, _⟩
        cases same
        exact absurd found defined
    have noPath : ¬ Relation.TransGen (Edge g) s t := by
      intro path
      rcases Relation.TransGen.head'_iff.1 path with ⟨_, edge, _⟩
      exact defined edge.defined.1
    simp [dependencies, none, noPath]

end Schema

/-! ## Ids of dependencies -/

namespace Model

open Schema

variable {g : Graph} {words : List String} {naming : Naming}

/-- The dependencies of a schema by their ids: those of the named schemas that the search visits, but
for its own. -/
theorem mem_dependenciesOf (consistent : Naming.Consistent words naming) {s : Nat} {i j : String} :
    j ∈ dependenciesOf g naming s i ↔
      j ≠ i ∧ ∃ t, naming.idOf? t = some j ∧ t ∈ Schema.dependencies g (.node s) := by
  rw [dependenciesOf, List.mem_eraseDups, List.mem_filter, List.mem_filterMap]
  constructor
  · intro listed
    rcases listed with ⟨⟨t, visited, isOther⟩, kept⟩
    refine ⟨fun same => ?_, t, isOther, visited⟩
    simp [same] at kept
  · intro listed
    rcases listed with ⟨different, t, isOther, visited⟩
    have inhabited : j ≠ "" := by
      rcases Option.map_eq_some_iff.1 isOther with ⟨name, found, same⟩
      rw [← same]
      exact (consistent.isName _ (Naming.mem_names_of_nameOf? found)).lower_ne_empty
    exact ⟨⟨t, visited, isOther⟩, by simp [different, inhabited]⟩

/-- Those are the other schemas that paths lead to. -/
theorem mem_dependenciesOf_iff (consistent : Naming.Consistent words naming) {s : Nat} {i j : String}
    (isId : naming.idOf? s = some i) :
    j ∈ dependenciesOf g naming s i ↔
      ∃ t, naming.idOf? t = some j ∧ t ≠ s ∧ Relation.TransGen (Edge g) s t := by
  rw [mem_dependenciesOf consistent]
  constructor
  · intro listed
    rcases listed with ⟨different, t, isOther, visited⟩
    have apart : t ≠ s := by
      intro same
      rw [same, isId] at isOther
      exact different (Option.some.inj isOther).symm
    rcases mem_dependencies_iff_path.1 visited with ⟨own, _⟩ | path
    · exact absurd own apart
    · exact ⟨t, isOther, apart, path⟩
  · intro reached
    rcases reached with ⟨t, isOther, apart, path⟩
    refine ⟨fun same => ?_, t, isOther, mem_dependencies_iff_path.2 (Or.inr path)⟩
    rw [same] at isOther
    exact apart (consistent.idOf?_injective isOther isId)

/-- The dependencies of a schema under its id are exact: the search for them ends, they are the ids of
the other named schemas at the ends of paths of edges, each once, and they are closed. -/
structure Exact (g : Graph) (naming : Naming) (s : Nat) (i : String) : Prop where
  /-- The search stops by itself: no larger bound on its steps changes what it visits. -/
  ends : defined? g (.node s) = some s → ∀ fuel, g.size < fuel →
    Search.visit (definedChildren g) fuel [s] [s] = Schema.dependencies g (.node s)
  once : (dependenciesOf g naming s i).Nodup
  notOwn : i ∉ dependenciesOf g naming s i
  mem_iff : ∀ j, j ∈ dependenciesOf g naming s i ↔
    ∃ t, naming.idOf? t = some j ∧ t ≠ s ∧ Relation.TransGen (Edge g) s t
  closed : ∀ t j k, naming.idOf? t = some j → j ∈ dependenciesOf g naming s i →
    k ∈ dependenciesOf g naming t j → k ≠ i → k ∈ dependenciesOf g naming s i

theorem exact_of_consistent (consistent : Naming.Consistent words naming) {s : Nat} {i : String}
    (isId : naming.idOf? s = some i) : Exact g naming s i where
  ends := by
    intro defined fuel enough
    have bounded := bounded_definedChildren g s
    rw [Schema.dependencies, defined]
    dsimp only
    rw [← Search.order_of_le bounded (Nat.le_sub_one_of_lt enough), Search.order,
      Nat.sub_add_cancel (by omega)]
  once := Search.nodup_eraseDups _
  notOwn := by
    intro own
    rcases (mem_dependenciesOf_iff consistent isId).1 own with ⟨t, isOther, apart, _⟩
    exact apart (consistent.idOf?_injective isOther isId)
  mem_iff := fun _ => mem_dependenciesOf_iff consistent isId
  closed := by
    intro t j k isMiddle first second different
    rcases (mem_dependenciesOf_iff consistent isId).1 first with ⟨u, isMiddleToo, _, path⟩
    have same := consistent.idOf?_injective isMiddleToo isMiddle
    subst same
    rcases (mem_dependenciesOf_iff consistent isMiddle).1 second with ⟨w, isLast, _, further⟩
    have apart : w ≠ s := by
      intro same
      rw [same, isId] at isLast
      exact different (Option.some.inj isLast).symm
    exact (mem_dependenciesOf_iff consistent isId).2 ⟨w, isLast, apart, path.trans further⟩

/-- In every graph, with sharing and cycles, the dependencies of every schema that has an id after
any requests to a registry are exact. -/
theorem dependencies_exact (g : Graph) (words : List String) (requests : List Naming.Request)
    {s : Nat} {i : String} (isId : (Naming.after words requests).idOf? s = some i) :
    Exact g (Naming.after words requests) s i :=
  exact_of_consistent (Naming.consistent_after words requests) isId

/-- A named schema whose items lead back to it, past a schema without a name and another named one
that is also held by itself. -/
def ring : Graph := ⟨#[
  .mapping [(.str "items", .node 1)],
  .mapping [(.str "anyOf", .node 2)],
  .sequence [.node 3, .node 0],
  .mapping [(.str "additionalProperties", .node 3), (.str "items", .node 0)]]⟩

/-- The requests that name the first and the last schema of the ring. -/
def ringNames : List Naming.Request :=
  [.propose { schema := 0, title := "a" }, .propose { schema := 3, title := "b" }, .finalize]

theorem dependencies_exact_ring :
    (Naming.after [] ringNames).idOf? 0 = some "a" ∧ Exact ring (Naming.after [] ringNames) 0 "a" :=
  have isId : (Naming.after [] ringNames).idOf? 0 = some "a" := by decide +kernel
  ⟨isId, dependencies_exact ring [] ringNames isId⟩

/-- The ring is passed once, and the schema itself is left out. -/
example : dependenciesOf ring (Naming.after [] ringNames) 0 "a" = ["b"] := by decide +kernel

end Model

end Typewright
