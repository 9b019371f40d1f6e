import Typewright.Proofs.Compile.Operands
import Typewright.Proofs.TypeScript.Elements

/-!
# The lengths that bounded arrays admit

An array with bounds on its size is printed as the tuples of all sizes in the range; without a
greatest size, as a tuple that goes on, or as a plain type of arrays if the least size is not
positive. The type admits exactly the lengths that satisfy both bounds as soon as some length does
(`Compile.admitsExactly_array_iff`). If none does, nothing at all is printed for bounds that exclude
each other, and the empty tuple for a range of negative sizes.

Nothing is asked of the type of the items but that its text is an item and, before `[]`, stands
alone. Without raw texts it is an item if it shows anything, and stands alone if the texts of the
user in it have their brackets paired (`Compile.itemOf_spec`), so that the lengths of a compiled
array are known (`Compile.admitsExactly_considered_iff`).
-/

namespace Typewright

open Source

namespace Compile

open TypeExpr

/-- The lengths that satisfy both bounds, each of which may be absent. -/
def Allowed (least most : Option Int) (n : Nat) : Prop :=
  (∀ bound ∈ least, bound ≤ (n : Int)) ∧ ∀ bound ∈ most, (n : Int) ≤ bound

/-! ## Sizes -/

theorem mem_sizes_iff {least most : Int} {n : Nat} :
    n ∈ sizes least most ↔ ∃ size, least ≤ size ∧ size ≤ most ∧ n = size.toNat := by
  simp only [sizes, List.mem_map, List.mem_range]
  constructor
  · rintro ⟨offset, inside, rfl⟩
    exact ⟨least + offset, by omega, by omega, rfl⟩
  · rintro ⟨size, above, below, rfl⟩
    exact ⟨(size - least).toNat, by omega, by congr 1; omega⟩

/-- In a range that does not end below zero, the sizes are the allowed lengths: a size below zero
comes to the length zero, which is then in the range too. -/
theorem mem_sizes_iff_allowed {least : Option Int} {most : Int} (feasible : 0 ≤ most) {n : Nat} :
    n ∈ sizes (least.getD 0) most ↔ Allowed least (some most) n := by
  rw [mem_sizes_iff]
  constructor
  · rintro ⟨size, high, low, rfl⟩
    refine ⟨fun bound given => ?_, fun bound given => ?_⟩
    · rw [Option.mem_def] at given
      rw [given, Option.getD_some] at high
      omega
    · cases given
      omega
  · rintro ⟨high, low⟩
    refine ⟨n, ?_, low most rfl, rfl⟩
    cases least with
    | none => exact Int.natCast_nonneg n
    | some bound => exact high bound rfl

section

variable {item : TypeExpr} {level : Nat} (element : IsItem (item.text level).toList)
include element

/-- The tuples of all sizes in a range admit these sizes. -/
theorem readLengths_sized {least most : Int} (inhabited : sizes least most ≠ []) :
    readLengths ((sized item least most).text level) =
      some ((sizes least most).map .exactly) := by
  have union := @readLengths_union ((sizes least most).map fun size =>
    (tupleText (List.replicate size (item.text level)) [], .exactly size))
    (by simpa using inhabited) (List.forall_mem_map.2 fun size _ => by
      have reads := @readsAs_tuple (List.replicate size (item.text level)) fun t copy => by
        rw [List.eq_of_mem_replicate copy]
        exact element
      rwa [List.length_replicate] at reads)
  rw [List.map_map, List.map_map] at union
  rw [text]
  exact union

/-- A range of sizes admits the allowed lengths if there are any; else it is no type, or admits
what is not allowed. -/
theorem admitsExactly_sized_iff {least : Option Int} {most : Int} :
    AdmitsExactly ((sized item (least.getD 0) most).text level) (Allowed least (some most)) ↔
      ∃ n, Allowed least (some most) n := by
  have admits : ∀ n, (∃ extent ∈ (sizes (least.getD 0) most).map Extent.exactly,
      extent.Admits n) ↔ n ∈ sizes (least.getD 0) most := by
    intro n
    simp [Extent.Admits]
  constructor
  · rintro ⟨extents, read, exact⟩
    -- some size is read, so it is admitted
    have inhabited : sizes (least.getD 0) most ≠ [] := by
      intro empty
      rw [text, empty, List.map_nil] at read
      have nothing : readLengths "" = none := by decide
      exact absurd (nothing.symm.trans read) (by simp)
    rw [readLengths_sized element inhabited] at read
    cases read
    obtain ⟨n, isSize⟩ := List.exists_mem_of_ne_nil _ inhabited
    exact ⟨n, (exact n).1 ((admits n).2 isSize)⟩
  · rintro ⟨n, allowed⟩
    have feasible : 0 ≤ most := (Int.natCast_nonneg n).trans (allowed.2 most rfl)
    have isSize := (mem_sizes_iff_allowed feasible).2 allowed
    exact ⟨_, readLengths_sized element (List.ne_nil_of_mem isSize),
      fun k => (admits k).trans (mem_sizes_iff_allowed feasible)⟩

/-- Without a greatest size, every length from the least on is allowed, and admitted. -/
theorem admitsExactly_unlimited {least : Option Int} (alone : StandsAlone (item.text level)) :
    AdmitsExactly ((boundedArray item least none).text level) (Allowed least none) := by
  have reads : ReadsAs ((boundedArray item least none).text level)
      (.atLeast (least.getD 0).toNat) := by
    rw [boundedArray]
    split
    · next low =>
      rw [Int.toNat_of_nonpos low, text]
      exact readsAs_array element.parenthesised alone
    · have shown : (tuple (List.replicate (least.getD 0).toNat item) [item]).text level =
          tupleText (List.replicate (least.getD 0).toNat (item.text level)) [item.text level] := by
        rw [text, texts_eq_map, texts_eq_map, List.map_replicate, List.map_singleton]
      have rest := @readsAs_rest (List.replicate (least.getD 0).toNat (item.text level))
        (item.text level) (fun t copy => by
          rw [List.eq_of_mem_replicate copy]
          exact element) element alone
      rwa [List.length_replicate, ← shown] at rest
  refine ⟨_, reads.readLengths, fun n => ?_⟩
  simp only [List.mem_singleton, exists_eq_left, Extent.Admits, Allowed]
  cases least with
  | none => simp
  | some bound => simp [Int.toNat_le]

/-- What an array with bounds prints admits exactly the allowed lengths as soon as there are any. -/
theorem admitsExactly_boundedArray_iff {least most : Option Int}
    (alone : most = none → StandsAlone (item.text level)) :
    AdmitsExactly ((boundedArray item least most).text level) (Allowed least most) ↔
      ∃ n, Allowed least most n := by
  cases most with
  | some most => exact admitsExactly_sized_iff element
  | none =>
    refine iff_of_true (admitsExactly_unlimited element (alone rfl)) ⟨(least.getD 0).toNat, ?_⟩
    refine ⟨fun bound given => ?_, by simp⟩
    rw [Option.mem_def] at given
    rw [given, Option.getD_some]
    omega

end

/-! ## Arrays -/

/-- The type of the items of an array, anything if nothing is said about them. -/
def itemOf (inner : Inner) (around : List Nat) (entries : Entries) : Compiling TypeExpr :=
  if (entries.get? "items").getD .null = .null then pure .unknown
  else inner around true ((entries.get? "items").getD .null)

section

variable {job : Job} {around : List Nat} {entries : Entries}

/-- Unless the items are listed or bounds are ignored, an array is compiled to the bounded array of
its items. -/
theorem array_eq_boundedArray {inner : Inner}
    (single : job.graph.items? ((entries.get? "items").getD .null) = none)
    (bounded : job.options.ignoreBounds = false) :
    job.array inner around entries = (fun item => boundedArray item
      (bound? (entries.get? "minItems")) (bound? (entries.get? "maxItems"))) <$>
        itemOf inner around entries := by
  unfold Job.array itemOf
  dsimp only
  rw [single, bounded]
  by_cases missing : (entries.get? "items").getD .null = .null
  · simp [missing]
  · simp [missing]

/-- Such an array is printed if its items have a type. -/
theorem run_array {inner : Inner}
    (single : job.graph.items? ((entries.get? "items").getD .null) = none)
    (bounded : job.options.ignoreBounds = false) {before after : Draft} {item : TypeExpr}
    (given : (itemOf inner around entries).run before = .ok (item, after)) :
    (job.array inner around entries).run before = .ok (boundedArray item
      (bound? (entries.get? "minItems")) (bound? (entries.get? "maxItems")), after) := by
  rw [array_eq_boundedArray single bounded, StateT.run_map, given]
  rfl

/-- An array whose items have a type is printed, and its type admits exactly the lengths that
satisfy both bounds, as soon as there is such a length at all. -/
theorem admitsExactly_array_iff {inner : Inner}
    (single : job.graph.items? ((entries.get? "items").getD .null) = none)
    (bounded : job.options.ignoreBounds = false) {before after : Draft} {item : TypeExpr}
    (given : (itemOf inner around entries).run before = .ok (item, after)) {level : Nat}
    (element : IsItem (item.text level).toList)
    (alone : bound? (entries.get? "maxItems") = none → StandsAlone (item.text level)) :
    ∃ type, (job.array inner around entries).run before = .ok (type, after) ∧
      (AdmitsExactly (type.text level)
          (Allowed (bound? (entries.get? "minItems")) (bound? (entries.get? "maxItems"))) ↔
        ∃ n, Allowed (bound? (entries.get? "minItems")) (bound? (entries.get? "maxItems")) n) :=
  ⟨_, run_array single bounded given, admitsExactly_boundedArray_iff element alone⟩

/-- Without raw texts, the type of the items is an item wherever its text shows anything, and stands
alone if its texts of the user are even. -/
theorem itemOf_spec (plain : NoTypeTexts job) {schema depth : Nat}
    (considered : Considered job (.node schema))
    (found : job.graph.get? schema = some (.mapping entries))
    (single : job.graph.items? ((entries.get? "items").getD .null) = none)
    {before after : Draft} (printable : IsPrintable before) {item : TypeExpr}
    (given : (itemOf (job.expression depth) around entries).run before = .ok (item, after))
    (level : Nat) :
    (firstVisible? (codeFrom .code (item.text level).toList) ≠ none →
        IsItem (item.text level).toList) ∧
      (item.IsEven → StandsAlone (item.text level)) := by
  have built : item.Built (fun _ => False) Naming.IsName := by
    unfold itemOf at given
    split at given
    · cases given
      exact .unknown
    · have asked := considered.asked found (asked_of_item single)
      obtain ⟨⟨_, keeps⟩, composed⟩ :=
        (expression_prints plain depth around true _ before asked).runs item after given
      exact (keeps printable).built composed
  have words : ∀ text, Naming.IsName text → ∀ c ∈ text.toList, Identifier.isPart c = true :=
    fun _ isName => isName.settled.part
  exact ⟨fun visible => isItem_text (fun _ => id) words built visible,
    fun even => standsAlone_text (fun _ => id) words built even level⟩

/-- Without raw texts, the type of an array admits exactly the allowed lengths, as soon as there are
any, if the type of its items shows anything and, before `[]`, has even texts of the user. -/
theorem admitsExactly_considered_iff (plain : NoTypeTexts job) {schema depth : Nat}
    (considered : Considered job (.node schema))
    (found : job.graph.get? schema = some (.mapping entries))
    (single : job.graph.items? ((entries.get? "items").getD .null) = none)
    (bounded : job.options.ignoreBounds = false) {before after : Draft}
    (printable : IsPrintable before) {item : TypeExpr}
    (given : (itemOf (job.expression depth) around entries).run before = .ok (item, after))
    {level : Nat} (visible : firstVisible? (codeFrom .code (item.text level).toList) ≠ none)
    (even : bound? (entries.get? "maxItems") = none → item.IsEven) :
    ∃ type, (job.array (job.expression depth) around entries).run before = .ok (type, after) ∧
      (AdmitsExactly (type.text level)
          (Allowed (bound? (entries.get? "minItems")) (bound? (entries.get? "maxItems"))) ↔
        ∃ n, Allowed (bound? (entries.get? "minItems")) (bound? (entries.get? "maxItems")) n) := by
  obtain ⟨element, alone⟩ := itemOf_spec plain considered found single printable given level
  exact ⟨_, run_array single bounded given,
    admitsExactly_boundedArray_iff (element visible) fun unlimited => alone (even unlimited)⟩

end

/-- The entry of a bound, if there is one. -/
def boundEntries (key : String) : Option Int → Entries
  | some bound => [(.str key, .scalar (.int bound))]
  | none => []

/-- The entries of a schema of arrays of strings. -/
def stringsEntries (least most : Option Int) : Entries :=
  (.str "title", .str "A") :: (.str "type", .str "array") :: (.str "items", .node 1) ::
    (boundEntries "minItems" least ++ boundEntries "maxItems" most)

/-- Such a schema. -/
def stringsGraph (least most : Option Int) : Graph :=
  ⟨#[.mapping (stringsEntries least most), .mapping [(.str "type", .str "string")]]⟩

/-- Its compilation. -/
def stringsJob (least most : Option Int) : Job :=
  ⟨stringsGraph least most, 0, {}⟩

theorem admitsExactly_array_twoOrMore : ∃ type after,
    ((stringsJob (some 2) none).array ((stringsJob (some 2) none).expression 1) [0]
      (stringsEntries (some 2) none)).run {} = .ok (type, after) ∧
      AdmitsExactly (type.text 0) (Allowed (some 2) none) := by
  obtain ⟨⟨item, after⟩, given, shown⟩ : ∃ result,
      (itemOf ((stringsJob (some 2) none).expression 1) [0]
        (stringsEntries (some 2) none)).run {} = .ok result ∧
        (result.1.text 0, result.1.userTexts) = ("string", []) :=
    exists_of_toOption_map (by decide +kernel)
  obtain ⟨isString, noTexts⟩ := Prod.mk.inj shown
  have single : (stringsJob (some 2) none).graph.items?
      (((stringsEntries (some 2) none).get? "items").getD .null) = none := by
    decide +kernel
  obtain ⟨element, alone⟩ := itemOf_spec (noTypeTexts_of_hasNoTypeTexts (by decide +kernel)) .root
    rfl single ⟨by simp, by simp, by simp⟩ given 0
  have visible : firstVisible? (codeFrom .code (item.text 0).toList) ≠ none := by
    rw [isString]
    decide +kernel
  have even : item.IsEven := by
    intro text member
    rw [noTexts] at member
    cases member
  have two : Allowed (some 2) none 2 := ⟨by simp, by simp⟩
  obtain ⟨type, ran, admits⟩ :=
    admitsExactly_array_iff single rfl given (element visible) fun _ => alone even
  exact ⟨type, after, ran, admits.2 ⟨2, two⟩⟩

/-- Bounds that exclude each other leave nothing to print. -/
theorem not_admitsExactly_array_excluded : ∃ source,
    Compile.source (stringsGraph (some 2) (some 1)) (.node 0) {} = .ok source ∧
      source.declarations.map (fun d => (d.text, d.body.types.map (·.text 0))) =
        [("export type A = ;", [""])] ∧
      ¬ AdmitsExactly "" (Allowed (some 2) (some 1)) := by
  obtain ⟨source, made, texts⟩ : ∃ source,
      Compile.source (stringsGraph (some 2) (some 1)) (.node 0) {} = .ok source ∧
        source.declarations.map (fun d => (d.text, d.body.types.map (·.text 0))) =
          [("export type A = ;", [""])] :=
    exists_of_toOption_map (by decide +kernel)
  refine ⟨source, made, texts, fun ⟨extents, read, _⟩ => ?_⟩
  have nothing : readLengths "" = none := by decide
  exact absurd (nothing.symm.trans read) (by simp)

end Compile

end Typewright
