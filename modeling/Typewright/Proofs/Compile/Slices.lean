import Typewright.Proofs.Compile.Splitting
import Typewright.Proofs.TypeScript.Steps

/-!
# What splitting takes of a source

The source of a description is split without failure, as long as no schema gives raw text for its
type: names may hold other characters than those of words, comments may open others, and there may be
constant enumerations, which the splitter does not know. So each step makes progress, and the slices
that the steps take do not overlap (`Compile.slices_apart`).
-/

namespace Typewright.Compile

variable {g : Graph} {definitions : List (String × Value)} {source : Source}

/-- Splitting a source does not fail. -/
theorem fine_of_made (made : wholeSource g definitions = .ok source)
    (plain : NoTypeTexts (wholeJob g definitions)) :
    (Source.split source.text.toList).failure = none := by
  have text := toList_text made
  obtain ⟨draft, ran, rfl⟩ := exists_draft made
  rw [text]
  exact (Declaration.isSplit_declarations fun d member =>
    (run_prints plain () draft ran).isTame member).1

/-- Splitting a source does not fail, whatever the names, titles, comments and enumerations in it. Each
step leaves a shorter end of what it was given. In the source, the steps take slices that are not
empty, and each begins where the one before it ends or later. -/
theorem slices_apart (made : wholeSource g definitions = .ok source)
    (plain : NoTypeTexts (wholeJob g definitions)) :
    (Source.split source.text.toList).failure = none ∧
    List.IsChain (fun before after => after <:+ before ∧ after.length < before.length)
      (source.text.toList :: (Source.split source.text.toList).definitions.map (·.2)) ∧
    ∃ slices, Source.Taken source.text.toList 0
        (Source.split source.text.toList).definitions slices ∧
      (∀ slice ∈ slices, slice.1 < slice.2 ∧ slice.2 ≤ source.text.toList.length) ∧
      slices.Pairwise fun one other => one.2 ≤ other.1 := by
  have fine := fine_of_made made plain
  obtain ⟨slices, taken, bounds, sorted⟩ := Source.exists_taken 0 fine
  exact ⟨fine, Source.isChain_rests fine, slices, taken,
    fun slice member => (bounds slice member).2, sorted⟩

/-- Definitions of an alias, whose comment opens another one, of a constant enumeration and of an alias
with a name that does not end in a word character. -/
def sliced : Graph := ⟨#[
  .mapping [(.str "type", .str "string"), (.str "title", .str "Kind")],
  .mapping [(.str "type", .str "string"), (.str "title", .str "Media"),
    (.str "description", .str "any image/* type")],
  .mapping [(.str "enum", .node 3), (.str "tsEnumNames", .node 4), (.str "title", .str "State")],
  .sequence [.str "on", .str "off"],
  .sequence [.str "On", .str "Off"],
  .mapping [(.str "type", .str "string"), (.str "title", .str "A$")]]⟩

def slicedDefinitions : List (String × Value) :=
  [("kind", .node 0), ("media", .node 1), ("state", .node 2), ("a", .node 5)]

theorem slices_apart_sliced : NoTypeTexts (wholeJob sliced slicedDefinitions) ∧
    ∃ source, wholeSource sliced slicedDefinitions = .ok source ∧
      (source.declarations.map fun d => d.name) = ["_Toplevelobject_", "Kind", "Media", "State", "A$"] ∧
      (Source.split source.text.toList).failure = none ∧
      ∃ slices, Source.Taken source.text.toList 0
          (Source.split source.text.toList).definitions slices ∧
        (∀ slice ∈ slices, slice.1 < slice.2 ∧ slice.2 ≤ source.text.toList.length) ∧
        slices.Pairwise fun one other => one.2 ≤ other.1 := by
  have plain : NoTypeTexts (wholeJob sliced slicedDefinitions) :=
    noTypeTexts_of_hasNoTypeTexts (by decide +kernel)
  have computed : (wholeSource sliced slicedDefinitions).toOption.map
      (fun source => source.declarations.map fun d => d.name) =
        some ["_Toplevelobject_", "Kind", "Media", "State", "A$"] := by
    decide +kernel
  obtain ⟨source, made, names⟩ := exists_of_toOption_map computed
  obtain ⟨fine, _, taken⟩ := slices_apart made plain
  exact ⟨plain, source, made, names, fine, taken⟩

end Typewright.Compile
