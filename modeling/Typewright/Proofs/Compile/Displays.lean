import Typewright.Proofs.Compile.Terminates
import Typewright.Proofs.Document.Renumbering

/-!
# Displayed values

A value is displayed by going into the containers inside it, but not again into one that is around.
So the fuel suffices (`Display.Fold.within_of_le`), and the numbers of the containers make no
difference (`Display.Fold.value_renumber`). Leaving out what is around loses nothing: an integer with
too many digits is met exactly if one shows anywhere inside (`Display.hasLongInteger_iff`).
-/

namespace Typewright.Display

namespace Fold

variable {α : Type} (fold : Fold α) {g : Graph}

theorem within_succ (fuel : Nat) {around : List Nat} (distinct : Compile.Distinct g.size around)
    (enough : g.size < fuel + around.length) (v : Value) :
    fold.within g (fuel + 1) around v = fold.within g fuel around v := by
  induction fuel generalizing around v with
  | zero =>
    have fits := distinct.length_le
    omega
  | succ fuel ih =>
    cases v with
    | scalar s => rw [within, within]
    | node id =>
      have inside : ∀ node, g.get? id = some node → around.contains id = false → ∀ v,
          fold.within g (fuel + 1) (id :: around) v = fold.within g fuel (id :: around) v := by
        intro node found outside v
        have fresh : id ∉ around := by simpa using outside
        exact ih (distinct.cons fresh (Graph.lt_size_of_get? found))
          (by rw [List.length_cons]; omega) v
      rw [within, within]
      rcases found : g.get? id with _ | entries | items
      · rfl
      · dsimp only
        split
        · rfl
        · next outside =>
          simp only [inside _ found (by simpa using outside)]
      · dsimp only
        split
        · rfl
        · next outside =>
          have same : fold.within g (fuel + 1) (id :: around) = fold.within g fuel (id :: around) :=
            funext (inside _ found (by simpa using outside))
          rw [same]

theorem within_of_le {fuel : Nat} (le : g.size + 1 ≤ fuel) (v : Value) :
    fold.within g fuel [] v = fold.value g v := by
  induction le with
  | refl => rfl
  | @step more le ih =>
    rw [← ih]
    exact fold.within_succ more ⟨List.nodup_nil, by simp⟩ (Nat.lt_of_succ_le le) v

variable {h : Graph} {f : Nat → Nat} (renumbers : g.Renumbers h f)
include renumbers

theorem within_renumber (fuel : Nat) (around : List Nat) (v : Value) :
    fold.within h fuel (around.map f) (v.renumber f) = fold.within g fuel around v := by
  induction fuel generalizing around v with
  | zero => cases v <;> rfl
  | succ fuel ih =>
    cases v with
    | scalar s => rfl
    | node id =>
      have inside : ∀ v, fold.within h fuel (f id :: around.map f) (v.renumber f) =
          fold.within g fuel (id :: around) v := fun v => ih (id :: around) v
      rw [Value.renumber_node, within, within, renumbers.found, renumbers.contains_map]
      rcases g.get? id with _ | entries | items
      · rfl
      · simp only [Option.map_some, Node.renumber, Entries.renumber, List.map_map,
          Function.comp_def, inside]
      · simp only [Option.map_some, Node.renumber, List.map_map, Function.comp_def, inside]

theorem value_renumber (v : Value) : fold.value h (v.renumber f) = fold.value g v := by
  have le : g.size + 1 ≤ h.size + 1 := Nat.succ_le_succ renumbers.size_le
  rw [← fold.within_of_le le]
  exact fold.within_renumber renumbers (h.size + 1) [] v

end Fold

theorem value_renumber {g h : Graph} {f : Nat → Nat} (renumbers : g.Renumbers h f) (v : Value) :
    value h (v.renumber f) = value g v := by
  cases v with
  | scalar s => rfl
  | node id => exact texts.value_renumber renumbers (.node id)

/-! ## Integers with too many digits -/

theorem longIntegers_mapping (made : List (Scalar × Bool)) :
    longIntegers.mapping made = made.any fun entry => entry.1.isLongInteger || entry.2 := rfl

theorem longIntegers_sequence (made : List Bool) : longIntegers.sequence made = made.any id := rfl

/-- The keys of a container. -/
def keys : Node → List Scalar
  | .mapping entries => entries.map (·.1)
  | .sequence _ => []

/-- A scalar shows in a value: it is the value, or a key or in a value of a container inside. The
containers around are not gone into. -/
inductive Shows (g : Graph) (around : List Nat) : Value → Scalar → Prop
  | self (s : Scalar) : Shows g around (.scalar s) s
  | key {id : Nat} {node : Node} {s : Scalar} (outside : id ∉ around) (found : g.get? id = some node)
      (member : s ∈ keys node) : Shows g around (.node id) s
  | inside {id : Nat} {node : Node} {v : Value} {s : Scalar} (outside : id ∉ around)
      (found : g.get? id = some node) (member : v ∈ node.values) (shows : Shows g around v s) :
      Shows g around (.node id) s

namespace Shows

variable {g : Graph} {around : List Nat} {v : Value} {s : Scalar} {id : Nat} {node : Node}

theorem of_cons (shows : Shows g (id :: around) v s) : Shows g around v s := by
  induction shows with
  | self s => exact .self s
  | key outside found member => exact .key (List.not_mem_of_not_mem_cons outside) found member
  | inside outside found member _ ih =>
    exact .inside (List.not_mem_of_not_mem_cons outside) found member ih

/-- What shows in a value does so without a container, or in that container behind the last time that
it is come to. -/
theorem without (shows : Shows g around v s) (found : g.get? id = some node) :
    Shows g (id :: around) v s ∨ s ∈ keys node ∨
      ∃ w ∈ node.values, Shows g (id :: around) w s := by
  induction shows with
  | self s => exact .inl (.self s)
  | @key other there s outside foundToo member =>
    by_cases same : other = id
    · subst same
      cases found.symm.trans foundToo
      exact .inr (.inl member)
    · exact .inl (.key (List.not_mem_cons_of_ne_of_not_mem same outside) foundToo member)
  | @inside other there w s outside foundToo member _ ih =>
    rcases ih with apart | behind
    · by_cases same : other = id
      · subst same
        cases found.symm.trans foundToo
        exact .inr (.inr ⟨w, member, apart⟩)
      · exact .inl (.inside (List.not_mem_cons_of_ne_of_not_mem same outside) foundToo member apart)
    · exact .inr behind

/-- What shows in a container is a key or shows in a value without it. -/
theorem node_iff (found : g.get? id = some node) (outside : id ∉ around) :
    Shows g around (.node id) s ↔
      s ∈ keys node ∨ ∃ v ∈ node.values, Shows g (id :: around) v s := by
  constructor
  · intro shows
    rcases shows.without found with apart | behind
    · cases apart with
      | key absent => exact absurd List.mem_cons_self absent
      | inside absent => exact absurd List.mem_cons_self absent
    · exact behind
  · rintro (key | ⟨v, member, shows⟩)
    · exact .key outside found key
    · exact .inside outside found member shows.of_cons

end Shows

variable {g : Graph}

/-- A container around is not gone into again. -/
theorem longIntegers_around {fuel : Nat} {around : List Nat} {id : Nat} {node : Node}
    (found : g.get? id = some node) (inAround : id ∈ around) :
    longIntegers.within g (fuel + 1) around (.node id) = false := by
  rw [Fold.within, found]
  cases node <;> simp [inAround, longIntegers]

/-- A container has an integer with too many digits if a key is one, or a value inside has one. -/
theorem longIntegers_node_iff {fuel : Nat} {around : List Nat} {id : Nat} {node : Node}
    (found : g.get? id = some node) (outside : id ∉ around) :
    longIntegers.within g (fuel + 1) around (.node id) = true ↔
      (∃ s ∈ keys node, s.isLongInteger = true) ∨
        ∃ v ∈ node.values, longIntegers.within g fuel (id :: around) v = true := by
  rw [Fold.within, found]
  cases node with
  | mapping entries =>
    dsimp only
    rw [if_neg (by simpa using outside), longIntegers_mapping]
    simp only [List.any_map, List.any_eq_true, Function.comp_apply, Bool.or_eq_true, and_or_left,
      exists_or, keys, Node.values, List.mem_map, exists_exists_and_eq_and]
  | sequence items =>
    dsimp only
    rw [if_neg (by simpa using outside), longIntegers_sequence]
    simp [keys, Node.values]

theorem longIntegers_within_iff {fuel : Nat} {around : List Nat}
    (distinct : Compile.Distinct g.size around) (enough : g.size < fuel + around.length) {v : Value} :
    longIntegers.within g fuel around v = true ↔
      ∃ s, Shows g around v s ∧ s.isLongInteger = true := by
  induction fuel generalizing around v with
  | zero =>
    have fits := distinct.length_le
    omega
  | succ fuel ih =>
    cases v with
    | scalar s =>
      rw [Fold.within]
      refine ⟨fun long => ⟨s, .self s, long⟩, fun ⟨other, shows, long⟩ => ?_⟩
      cases shows
      exact long
    | node id =>
      cases found : g.get? id with
      | none =>
        rw [Fold.within, found]
        refine iff_of_false Bool.false_ne_true fun ⟨s, shows, _⟩ => ?_
        cases shows with
        | key _ there => cases found.symm.trans there
        | inside _ there => cases found.symm.trans there
      | some node =>
        by_cases inAround : id ∈ around
        · rw [longIntegers_around found inAround]
          refine iff_of_false Bool.false_ne_true fun ⟨s, shows, _⟩ => ?_
          cases shows with
          | key outside => exact outside inAround
          | inside outside => exact outside inAround
        · have inside : ∀ v, longIntegers.within g fuel (id :: around) v = true ↔
              ∃ s, Shows g (id :: around) v s ∧ s.isLongInteger = true := fun v =>
            ih (distinct.cons inAround (Graph.lt_size_of_get? found))
              (by rw [List.length_cons]; omega)
          rw [longIntegers_node_iff found inAround]
          simp only [Shows.node_iff found inAround, inside, or_and_right, exists_or]
          refine or_congr Iff.rfl ⟨fun ⟨v, member, s, shows, long⟩ => ?_, fun ⟨s, both, long⟩ => ?_⟩
          · exact ⟨s, ⟨v, member, shows⟩, long⟩
          · obtain ⟨v, member, shows⟩ := both
            exact ⟨v, member, s, shows, long⟩

/-- A value has an integer with too many digits exactly if one shows anywhere in it. -/
theorem hasLongInteger_iff {v : Value} :
    hasLongInteger g v = true ↔ ∃ s, Shows g [] v s ∧ s.isLongInteger = true :=
  longIntegers_within_iff ⟨List.nodup_nil, by simp⟩ (Nat.lt_succ_self _)

end Typewright.Display
