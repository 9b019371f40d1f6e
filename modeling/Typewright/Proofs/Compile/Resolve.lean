import Typewright.Compile.Whole
import Typewright.Proofs.Document.Entries
import Typewright.Proofs.Schema.FirstFree
import Typewright.Proofs.Text.Search

/-!
# Resolving references to definitions

A reference to what is no reference is followed once (`Compile.follow_of_reference`). A reference
`#/definitions/<id>` in the schema that refers to all definitions resolves to the definition of that
id (`Compile.resolve_definition`). Identifiers hold neither slashes nor tildes, so that they stand
in the reference as they are.
-/

namespace Typewright

open Text

theorem Pointer.decodeSegment_of_not_mem {text : List Char} (absent : '~' ∉ text) :
    Pointer.decodeSegment text = String.ofList text := by
  rw [decodeSegment, replacePair_of_not_mem _ _ absent, replacePair_of_not_mem _ _ absent]

/-! ## Identifiers -/

theorem Identifier.isPart_toLower {c : Char} (part : isPart c = true) :
    isPart c.toLower = true := by
  rcases Char.toLower_cases c with same | ⟨low, high, code⟩
  · rwa [same]
  · rw [isPart_iff_toNat]
    omega

/-- The characters of a name in lower case are characters of a name. -/
theorem Naming.IsName.isPart_of_mem_lower {name : String} (isName : IsName name) {c : Char}
    (member : c ∈ (lower name).toList) : Identifier.isPart c = true := by
  rw [toList_lower isName.isAscii] at member
  obtain ⟨d, present, rfl⟩ := List.mem_map.1 member
  exact Identifier.isPart_toLower (isName.settled.part d present)

theorem not_mem_of_isPart {t : List Char} (part : ∀ c ∈ t, Identifier.isPart c = true) {c : Char}
    (other : Identifier.isPart c = false) : c ∉ t := by
  intro member
  rw [part c member] at other
  cases other

namespace Compile

/-! ## Following references -/

section

variable {g : Graph} {root v target : Value}

theorem follow_of_no_reference (none : g.field? v Schema.refKey = none) :
    follow g root v = .ok (v, false) := by
  rw [follow, followFrom, none]

/-- A reference to what is no reference is followed once. -/
theorem follow_of_reference {ref : String}
    (held : g.field? v Schema.refKey = some (.str ref)) (resolved : resolve g root ref = .ok target)
    (ends : g.field? target Schema.refKey = none) : follow g root v = .ok (target, true) := by
  have inhabited : 0 < g.size := by
    cases v with
    | scalar s => cases held
    | node id =>
      obtain ⟨_, read, _⟩ := Option.bind_eq_some_iff.1 held
      exact Nat.zero_lt_of_lt (Graph.lt_size_of_get? (Graph.get?_of_entries? read))
  obtain ⟨size, more⟩ := Nat.exists_eq_add_of_lt inhabited
  rw [follow, more, followFrom, held]
  change (resolve g root ref >>= fun target => followFrom g root _ true target) = _
  rw [resolved]
  change followFrom g root _ true target = _
  rw [followFrom, ends]

end

/-! ## The root of all definitions -/

theorem get?_definitionEntries {definitions : List (String × Value)} {id : String} {v : Value}
    (once : (definitions.map (·.1)).Nodup) (member : (id, v) ∈ definitions) :
    (definitionEntries definitions).get? id = some v := by
  induction definitions with
  | nil => cases member
  | cons definition definitions ih =>
    rw [List.map_cons, List.nodup_cons] at once
    rw [definitionEntries, List.map_cons, Entries.get?_cons]
    rcases List.mem_cons.1 member with here | later
    · rw [← here, if_pos rfl]
    · have other : ¬ (Scalar.str definition.1 = .str id) := by
        intro same
        cases same
        exact once.1 (List.mem_map.2 ⟨_, later, rfl⟩)
      rw [if_neg other]
      exact ih once.2 later

/-- The entries of the schema that refers to all definitions. -/
def rootEntries (g : Graph) : Entries :=
  [(.str "title", .str Api.topLevelTitle), (.str "type", .str "object"),
    (.str "definitions", .node g.size), (.str "properties", .node (g.size + 1)),
    (.str "additionalProperties", .bool false)]

/-- Three containers are added: the definitions twice, and the root that holds them. -/
theorem addRoot_eq (g : Graph) (definitions : List (String × Value)) : addRoot g definitions =
    ((((g.add (.mapping (definitionEntries definitions))).1.add
      (.mapping (definitionEntries definitions))).1.add (.mapping (rootEntries g))).1,
      .node (g.size + 2)) := by
  simp [addRoot, Graph.add, Graph.size, rootEntries]

/-- The root comes after two mappings with the definitions, and these after the graph. -/
theorem addRoot_spec (g : Graph) (definitions : List (String × Value)) :
    (addRoot g definitions).2 = .node (g.size + 2) ∧ g.Extends (addRoot g definitions).1 ∧
      (addRoot g definitions).1.get? g.size =
        some (.mapping (definitionEntries definitions)) ∧
      (addRoot g definitions).1.get? (g.size + 1) =
        some (.mapping (definitionEntries definitions)) ∧
      (addRoot g definitions).1.get? (g.size + 2) = some (.mapping (rootEntries g)) := by
  have first := Graph.get?_add g (.mapping (definitionEntries definitions))
  have keepsFirst := Graph.extends_add g (.mapping (definitionEntries definitions))
  have size := Graph.size_add g (.mapping (definitionEntries definitions))
  obtain ⟨once, made⟩ : ∃ once, once = (g.add (.mapping (definitionEntries definitions))).1 :=
    ⟨_, rfl⟩
  rw [← made] at first keepsFirst size
  have second := Graph.get?_add once (.mapping (definitionEntries definitions))
  have keepsSecond := Graph.extends_add once (.mapping (definitionEntries definitions))
  have sizeTwice := Graph.size_add once (.mapping (definitionEntries definitions))
  rw [size] at second sizeTwice
  obtain ⟨twice, madeTwice⟩ : ∃ twice,
      twice = (once.add (.mapping (definitionEntries definitions))).1 := ⟨_, rfl⟩
  rw [← madeTwice] at second keepsSecond sizeTwice
  have third := Graph.get?_add twice (.mapping (rootEntries g))
  have keepsThird := Graph.extends_add twice (.mapping (rootEntries g))
  rw [sizeTwice] at third
  rw [addRoot_eq, ← made, ← madeTwice]
  exact ⟨rfl, (keepsFirst.trans keepsSecond).trans keepsThird,
    keepsThird.found (keepsSecond.found first), keepsThird.found second, third⟩

theorem get?_rootEntries (g : Graph) :
    (rootEntries g).get? "definitions" = some (.node g.size) := by
  simp [rootEntries, Entries.get?_cons]

theorem stepTo_mapping {g : Graph} {id : Nat} {entries : Entries} {ref segment : String} {v : Value}
    (found : g.get? id = some (.mapping entries)) (held : entries.get? segment = some v) :
    stepTo g ref (.node id) segment = .ok v := by
  rw [stepTo, Graph.node?, found]
  simp only [held]

/-- A reference to a definition resolves to it. -/
theorem resolve_definition {g : Graph} {definitions : List (String × Value)} {id : String}
    {v : Value} (once : (definitions.map (·.1)).Nodup) (member : (id, v) ∈ definitions)
    (inhabited : id ≠ "") (part : ∀ c ∈ id.toList, Identifier.isPart c = true) :
    resolve (addRoot g definitions).1 (addRoot g definitions).2
      (Standalone.definitionsPointer ++ id) = .ok v := by
  obtain ⟨isNode, _, held, _, root⟩ := addRoot_spec g definitions
  have letters : (Standalone.definitionsPointer ++ id).toList =
      '#' :: '/' :: ("definitions".toList ++ '/' :: id.toList) := by
    rw [String.toList_append]
    rfl
  have pieces : (Pointer.segments ('/' :: ("definitions".toList ++ '/' :: id.toList))).filter
      (!·.isEmpty) = ["definitions".toList, id.toList] := by
    have proper : id.toList ≠ [] := fun empty => inhabited (String.toList_inj.1 empty)
    rw [Pointer.segments, splitAtChar, if_pos rfl, splitAtChar_append _ (by decide),
      splitAtChar_of_not_mem (not_mem_of_isPart part (by decide))]
    simp [proper]
  rw [resolve, letters]
  simp only
  simp only [pieces, List.foldlM_cons, List.foldlM_nil]
  rw [isNode, Pointer.decodeSegment_of_not_mem (by decide), String.ofList_toList,
    stepTo_mapping root (get?_rootEntries g)]
  change (stepTo _ _ (.node g.size) _ >>= fun v => pure v) = _
  rw [Pointer.decodeSegment_of_not_mem (not_mem_of_isPart part (by decide)),
    String.ofList_toList, stepTo_mapping held (get?_definitionEntries once member)]
  rfl

end Compile

end Typewright
