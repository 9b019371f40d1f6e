import Typewright.Proofs.Document.EarlyMarks
import Typewright.Proofs.Schema.Dependencies

/-!
# The order of structural dependencies

Structural dependencies are listed in the order of a traversal that marks the structural children of a
schema before it visits the first of them. They are listed in the order of the depth-first traversal,
which marks a schema when it is visited, exactly if that order keeps the depth; in an untangled graph
it always does (`Schema.dependencies_preorder_iff`). A schema that is shared between a parent and an
earlier child of it comes later than the traversal has it (`Schema.dependencies_sharing`).
-/

namespace Typewright.Schema

/-- From a schema there is exactly one depth-first traversal in the order of declaration. It visits
the structural dependencies. They are listed as a traversal visits them that marks all unseen children
of a schema before it goes on to the first of them, and that is the order of the depth-first traversal
if and only if, whenever a schema has a child that is listed later, what is listed in between is a
child of another schema from in between, or a child of the schema itself that is declared before. It
is so if of two children of a schema the earlier leads to the later through the schema only, unless
the later one lies on every path to the schema. -/
theorem dependencies_preorder_iff {g : Graph} {root : Nat}
    (defined : defined? g (.node root) = some root) :
    ∃ visits,
      (∀ others, Search.DepthFirst (definedChildren g) [] [root] others ↔ others = visits) ∧
      (dependencies g (.node root)).Perm visits ∧
      (∀ others, (∃ seen, Search.Discovers (definedChildren g) [root] [root] others seen) ↔
        others = dependencies g (.node root)) ∧
      (dependencies g (.node root) = visits ↔
        Search.KeepsDepth (definedChildren g) (dependencies g (.node root))) ∧
      (Search.Untangled (definedChildren g) root → dependencies g (.node root) = visits) := by
  have bounded := bounded_definedChildren g root
  obtain ⟨visits, traversal⟩ := Search.exists_depthFirst _ [] [root] bounded.mem_space
  have same := Search.order_perm bounded traversal
  rw [dependencies, defined]
  refine ⟨visits, fun others => ⟨fun other => other.unique traversal, fun equal => ?_⟩, same,
    fun others => Search.discovers_iff bounded, traversal.eq_iff_keepsDepth rfl same,
    fun untangled => Search.order_eq_of_untangled untangled bounded traversal⟩
  rw [equal]
  exact traversal

/-- A schema with two children, the later of which is a child of the earlier one, too, before another
one. -/
def sharing : Graph := ⟨#[
  .mapping [(.str "properties", .node 1)],
  .mapping [(.str "b", .node 2), (.str "c", .node 4)],
  .mapping [(.str "properties", .node 3)],
  .mapping [(.str "c", .node 4), (.str "d", .node 5)],
  .mapping [(.str "type", .scalar (.str "string"))],
  .mapping [(.str "type", .scalar (.str "string"))]]⟩

theorem mem_definedChildren_sharing {a b : Nat} (leads : b ∈ definedChildren sharing a) :
    (a = 0 ∧ (b = 2 ∨ b = 4)) ∨ (a = 2 ∧ (b = 4 ∨ b = 5)) := by
  match a with
  | 0 =>
    have children : definedChildren sharing 0 = [2, 4] := by decide
    rw [children] at leads
    exact .inl ⟨rfl, by simpa using leads⟩
  | 2 =>
    have children : definedChildren sharing 2 = [4, 5] := by decide
    rw [children] at leads
    exact .inr ⟨rfl, by simpa using leads⟩
  | 1 | 3 | 4 | 5 => cases leads
  | a + 6 => cases leads

/-- Below the shared schema and its sibling there is nothing. -/
theorem untangled_sharing : Search.Untangled (definedChildren sharing) 2 := by
  intro a b c path first leads apart around
  obtain ⟨earlier, later, shape, _⟩ := first
  have leadsFirst : b ∈ definedChildren sharing a := by simp [shape]
  rcases mem_definedChildren_sharing leadsFirst with ⟨rfl, _⟩ | ⟨rfl, last⟩
  · rcases path.2.cases_tail with same | ⟨before, _, leadsTo⟩
    · cases same
    · have nowhere := mem_definedChildren_sharing leadsTo.1
      omega
  · rcases around.2.cases_head with same | ⟨behind, leadsOn, _⟩
    · exact apart same
    · have nowhere := mem_definedChildren_sharing leadsOn.1
      omega

theorem dependencies_preorder_sharing :
    defined? sharing (.node 2) = some 2 ∧
      Search.DepthFirst (definedChildren sharing) [] [2] (dependencies sharing (.node 2)) := by
  have defined : defined? sharing (.node 2) = some 2 := by decide
  obtain ⟨visits, traverses, _, _, _, equal⟩ := dependencies_preorder_iff defined
  refine ⟨defined, ?_⟩
  rw [equal untangled_sharing]
  exact (traverses visits).2 rfl

/-- The shared schema waits until what its parent's earlier child alone leads to has been visited. -/
theorem dependencies_sharing :
    Search.DepthFirst (definedChildren sharing) [] [0] [0, 2, 4, 5] ∧
      dependencies sharing (.node 0) = [0, 2, 5, 4] := by
  have leaf : ∀ {visited nodes visits : List Nat} {id : Nat}, definedChildren sharing id = [] →
      id ∉ visited → Search.DepthFirst (definedChildren sharing) (visited ++ [id]) nodes visits →
      Search.DepthFirst (definedChildren sharing) visited (id :: nodes) (id :: visits) := by
    intro visited nodes visits id none unvisited rest
    exact .visit unvisited (by rw [none]; exact .done _) rest
  refine ⟨?_, by decide⟩
  have second : Search.DepthFirst (definedChildren sharing) [0, 2] [4, 5] [4, 5] :=
    leaf (by decide) (by decide) (leaf (by decide) (by decide) (.done _))
  have first : Search.DepthFirst (definedChildren sharing) [0] [2, 4] (2 :: ([4, 5] ++ [])) :=
    .visit (by decide) second (.skip (by decide) (.done _))
  have whole : Search.DepthFirst (definedChildren sharing) [] [0] (0 :: ([2, 4, 5] ++ [])) :=
    .visit (by simp) first (.done _)
  exact whole

end Typewright.Schema
