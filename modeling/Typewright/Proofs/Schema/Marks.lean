import Typewright.Proofs.Compile.Whole
import Typewright.Proofs.Identifier.Spelling
import Typewright.Proofs.Schema.FirstFit
import Typewright.Proofs.TypeScript.Exports

/-!
# Names and marks

Every name of a registry is a suffixed form of a cleaned title (`Naming.exists_withSuffix`).
Cleaning drops underscores in front of a letter or a dollar sign, and a suffix of digits brings none
back, so that names are not marked (`Naming.IsMarked`). They are identifiers that neither the
conversion nor the compiler changes any more (`Naming.stable_after`).

The model of a generated schema is exported under its name with an underscore in front. Names that
begin with a letter leave room for that. A name that consists of underscores, or in which a digit
follows them, keeps its underscores, though, and can be what marking makes of another one. This is
the only way in which two schemas are exported under one name (`Naming.exportedApart_iff`).
-/

namespace Typewright.Naming

open Text

/-- A letter or a dollar sign. -/
def isLetter (c : Char) : Bool :=
  c.isAlpha || c == '$'

/-- Underscores and then a letter or a dollar sign. -/
def IsMarked (t : List Char) : Prop :=
  ∃ more c rest, t = List.replicate (more + 1) '_' ++ c :: rest ∧ isLetter c = true

/-! ## Marks -/

theorem dropWhile_replicate {c : Char} (letter : isLetter c = true) (count : Nat)
    (rest : List Char) :
    (List.replicate count '_' ++ c :: rest).dropWhile (· == '_') = c :: rest := by
  have other : ¬ (c == '_') = true := by
    intro mark
    rw [beq_iff_eq.1 mark] at letter
    exact absurd letter (by decide)
  induction count with
  | zero =>
    rw [List.replicate_zero, List.nil_append]
    exact List.dropWhile_cons_of_neg other
  | succ count ih =>
    rw [List.replicate_succ, List.cons_append, List.dropWhile_cons_of_pos (by decide), ih]

/-- What is left without a mark is not marked. -/
theorem not_isMarked_dropMarker (t : List Char) : ¬ IsMarked (dropMarker t) := by
  unfold dropMarker
  split
  · next c rest shape =>
    split
    · next letter =>
      rintro ⟨more, d, tail, same, _⟩
      rw [List.replicate_succ, List.cons_append] at same
      rw [(List.cons_eq_cons.1 same).1] at letter
      exact absurd letter (by decide)
    · next noLetter =>
      rintro ⟨more, d, tail, rfl, letter⟩
      rw [dropWhile_replicate letter] at shape
      rw [← (List.cons_eq_cons.1 shape).1] at noLetter
      exact noLetter letter
  · next shape =>
    rintro ⟨more, d, tail, rfl, letter⟩
    rw [dropWhile_replicate letter] at shape
    cases shape

theorem not_isMarked_cleanName (title : String) : ¬ IsMarked (cleanName title).toList := by
  rw [cleanName]
  split
  · rintro ⟨more, c, rest, same, _⟩
    have head := congrArg List.head? same
    rw [List.replicate_succ, List.cons_append, List.head?_cons] at head
    exact absurd head (by decide)
  · rw [String.toList_ofList]
    exact not_isMarked_dropMarker _

theorem isLetter_eq_false_of_isDigit {c : Char} (digit : c.isDigit = true) :
    isLetter c = false := by
  have range := Char.isDigit_iff_toNat.1 digit
  rw [Bool.eq_false_iff]
  intro letter
  rw [isLetter, Bool.or_eq_true, Char.isAlpha_iff_toNat, beq_iff_eq, ← Char.toNat_inj] at letter
  simp at range letter
  omega

/-- Digits behind a text bring no mark back. -/
theorem not_isMarked_append {t digits : List Char} (unmarked : ¬ IsMarked t)
    (allDigits : ∀ c ∈ digits, c.isDigit = true) : ¬ IsMarked (t ++ digits) := by
  rintro ⟨more, c, rest, same, letter⟩
  have noDigit : c ∉ digits := by
    intro member
    rw [isLetter_eq_false_of_isDigit (allDigits c member)] at letter
    cases letter
  -- the letter stands in the text or among the digits
  rcases List.append_eq_append_iff.1 same with ⟨marks, _, behind⟩ | ⟨between, whole, behind⟩
  · exact noDigit (by rw [behind]; simp)
  · cases between with
    | nil => exact noDigit (by rw [List.nil_append] at behind; rw [← behind]; simp)
    | cons first between =>
      rw [List.cons_append] at behind
      obtain ⟨rfl, _⟩ := List.cons_eq_cons.1 behind
      exact unmarked ⟨more, c, between, whole, letter⟩

theorem not_isMarked_withSuffix {name : String} (unmarked : ¬ IsMarked name.toList)
    (suffix : Nat) : ¬ IsMarked (withSuffix name suffix).toList := by
  rw [toList_withSuffix]
  refine not_isMarked_append unmarked fun c member => ?_
  split at member
  · cases member
  · exact isDigit_of_mem_decimal member

/-! ## The names of a registry -/

theorem exists_withSuffix_of_mem_firstFit {words : List String} {proposals : List Proposal}
    {entry : Nat × String} (member : entry ∈ firstFit words proposals) :
    ∃ title suffix, entry.2 = withSuffix (cleanName title) suffix := by
  induction proposals using List.reverseRecOn with
  | nil => cases member
  | append_singleton proposals last ih =>
    rw [firstFit_concat, List.mem_append, List.mem_singleton] at member
    rcases member with earlier | rfl
    · exact ih earlier
    · exact ⟨last.title, _, rfl⟩

/-- Every name is a suffixed form of a cleaned title. -/
theorem exists_withSuffix {words : List String} {requests : List Request} {entry : Nat × String}
    (member : entry ∈ (after words requests).names) :
    ∃ title suffix, entry.2 = withSuffix (cleanName title) suffix := by
  obtain ⟨done, _, _, names⟩ := (fitted_after words requests).names
  rw [names] at member
  exact exists_withSuffix_of_mem_firstFit member

theorem not_isMarked_of_mem_names {words : List String} {requests : List Request}
    {entry : Nat × String} (member : entry ∈ (after words requests).names) :
    ¬ IsMarked entry.2.toList := by
  obtain ⟨title, suffix, form⟩ := exists_withSuffix member
  rw [form]
  exact not_isMarked_withSuffix (not_isMarked_cleanName title) suffix

/-! ## Ignoring case -/

theorem eq_underscore_of_toLower {c : Char} (mark : c.toLower = '_') : c = '_' := by
  rcases Char.toLower_cases c with same | ⟨least, most, code⟩
  · rw [← same, mark]
  · rw [mark] at code
    simp at code
    omega

theorem isLetter_toLower (c : Char) : isLetter c.toLower = isLetter c := by
  rcases Char.toLower_cases c with same | ⟨least, most, code⟩
  · rw [same]
  · have letter : c.isAlpha = true := Char.isAlpha_iff_toNat.2 (by omega)
    rw [isLetter, isLetter, Identifier.isAlpha_toLower, letter, Bool.true_or, Bool.true_or]

/-- A text is marked if it begins, ignoring case, with an underscore and a letter. -/
theorem isMarked_of_map_toLower {t rest : List Char} {c : Char}
    (same : t.map Char.toLower = '_' :: c :: rest) (letter : isLetter c = true) : IsMarked t := by
  obtain ⟨mark, tail, rfl, isMark, later⟩ := List.map_eq_cons_iff.1 same
  obtain ⟨d, tail, rfl, isLater, _⟩ := List.map_eq_cons_iff.1 later
  rw [eq_underscore_of_toLower isMark]
  refine ⟨0, d, tail, rfl, ?_⟩
  rwa [← isLetter_toLower, isLater]

/-! ## Stable names -/

/-- An identifier that the conversion leaves as it is, which the compiler takes from a title as it
is, which is not marked, and which is not the name of the root. -/
structure IsStable (name : String) : Prop where
  spelled : Identifier.IsIdentifier name.toList
  settled : Identifier.ofText name = name
  asked : ∀ (job : Compile.Job) (entries : Entries) (standIn : String),
    entries.get? "title" = some (.str name) → job.titleName entries standIn = .ok name
  unmarked : ¬ IsMarked name.toList
  apart : lower name ≠ lower (Identifier.ofText Api.topLevelTitle)

theorem lower_ofText_topLevelTitle :
    lower (Identifier.ofText Api.topLevelTitle) = "_toplevelobject_" := by
  decide +kernel

/-- Whatever is reserved, proposed and finalized, the names that schemas get are stable. -/
theorem stable_after (words : List String) (requests : List Request) :
    ∀ entry ∈ (after words requests).names, IsStable entry.2 := by
  intro entry member
  have isName := (consistent_after words requests).isName entry member
  have unmarked := not_isMarked_of_mem_names member
  refine ⟨Identifier.isIdentifier_of_settled isName.settled isName.toList_ne_nil,
    Identifier.ofText_eq_self isName.settled, fun job entries standIn titled =>
      Compile.titleName_eq_of_isName titled isName job standIn, unmarked, fun same => unmarked ?_⟩
  have spelled := congrArg String.toList same
  rw [lower_ofText_topLevelTitle, toList_lower isName.isAscii] at spelled
  exact isMarked_of_map_toLower spelled (by decide)

/-- The underscores go in front of a title that would be the name of the root. -/
theorem stable_after_markedTitle :
    (0, "Toplevelobject_") ∈ (after [Api.topLevelTitle]
      [.propose { schema := 0, title := "__toplevelobject_" }, .finalize]).names ∧
    IsStable "Toplevelobject_" := by
  have named : (0, "Toplevelobject_") ∈ (after [Api.topLevelTitle]
      [.propose { schema := 0, title := "__toplevelobject_" }, .finalize]).names := by
    decide +kernel
  exact ⟨named, stable_after _ _ (0, "Toplevelobject_") named⟩

/-! ## Exported names -/

/-- The name under which the model of a schema is exported. -/
def exportedNameOf? (naming : Naming) (schema : Nat) : Option String :=
  (naming.nameOf? schema).map (Declaration.exportedName (naming.isGenerated schema))

/-- Different schemas are exported under different names, ignoring case. -/
def ExportedApart (naming : Naming) : Prop :=
  ∀ a b m n, a ≠ b → naming.exportedNameOf? a = some m → naming.exportedNameOf? b = some n →
    lower m ≠ lower n

/-- No schema that is not generated has, ignoring case, the name of a generated one with an
underscore in front. -/
def MarksFree (naming : Naming) : Prop :=
  ∀ a b m n, naming.nameOf? a = some m → naming.isGenerated a = true →
    naming.nameOf? b = some n → naming.isGenerated b = false → lower n ≠ lower ("_" ++ m)

theorem toList_lower_mark {name : String} (isName : IsName name) :
    (lower ("_" ++ name)).toList = '_' :: name.toList.map Char.toLower := by
  have mark : "_".toList = ['_'] := rfl
  have ascii : IsAscii ("_" ++ name).toList := by
    rw [String.toList_append, mark]
    exact List.forall_mem_cons.2 ⟨by decide, isName.isAscii⟩
  rw [toList_lower ascii, String.toList_append, mark]
  rfl

theorem lower_mark_inj {m n : String} (first : IsName m) (second : IsName n) :
    lower ("_" ++ m) = lower ("_" ++ n) ↔ lower m = lower n := by
  rw [← String.toList_inj, toList_lower_mark first, toList_lower_mark second, List.cons_inj_right,
    ← toList_lower first.isAscii, ← toList_lower second.isAscii, String.toList_inj]

/-- A name that is another one with a mark in front, ignoring case, leaves the other no letter to
begin with. -/
theorem head?_eq_of_lower_eq_mark {m n : String} (first : IsName m) (second : IsName n)
    (unmarked : ¬ IsMarked n.toList) (same : lower n = lower ("_" ++ m)) :
    m.toList.head? = some '_' := by
  have spelled := congrArg String.toList same
  rw [toList_lower second.isAscii, toList_lower_mark first] at spelled
  obtain ⟨c, rest, shape, start, _⟩ :=
    Identifier.isIdentifier_of_settled first.settled first.toList_ne_nil
  rw [shape, List.map_cons] at spelled
  have noLetter : isLetter c = false := by
    rw [Bool.eq_false_iff, ← isLetter_toLower]
    exact fun letter => unmarked (isMarked_of_map_toLower spelled letter)
  rw [isLetter, Bool.or_eq_false_iff, beq_eq_false_iff_ne] at noLetter
  simp only [Identifier.isStart, noLetter.1, Bool.false_or, Bool.or_eq_true, beq_iff_eq] at start
  rcases start with mark | dollar
  · rw [shape, List.head?_cons, mark]
  · exact absurd dollar noLetter.2

/-- Names are apart, so only a mark can make two of them one. -/
theorem Consistent.exportedApart_iff_marksFree {words : List String} {naming : Naming}
    (consistent : Consistent words naming) : naming.ExportedApart ↔ naming.MarksFree := by
  have isName : ∀ {schema name}, naming.nameOf? schema = some name → IsName name :=
    fun found => consistent.isName _ (mem_names_of_nameOf? found)
  constructor
  · intro apart a b m n first generated second ordinary same
    have different : a ≠ b := by
      rintro rfl
      rw [generated] at ordinary
      cases ordinary
    refine apart a b ("_" ++ m) n different ?_ ?_ same.symm
    · rw [exportedNameOf?, first, generated]
      rfl
    · rw [exportedNameOf?, second, ordinary]
      rfl
  · intro free a b x y different first second same
    obtain ⟨m, foundFirst, rfl⟩ := Option.map_eq_some_iff.1 first
    obtain ⟨n, foundSecond, rfl⟩ := Option.map_eq_some_iff.1 second
    cases markedFirst : naming.isGenerated a <;> cases markedSecond : naming.isGenerated b <;>
      simp only [markedFirst, markedSecond, Declaration.exportedName, Bool.false_eq_true, if_true,
        if_false] at same
    · exact different (consistent.schema_unique foundFirst foundSecond same)
    · exact free b a n m foundSecond markedSecond foundFirst markedFirst same
    · exact free a b m n foundFirst markedFirst foundSecond markedSecond same.symm
    · rw [lower_mark_inj (isName foundFirst) (isName foundSecond)] at same
      exact different (consistent.schema_unique foundFirst foundSecond same)

/-- Two schemas are exported under one name exactly if one is generated, the other is not, and the
name of the other is the first one's with an underscore in front, ignoring case. This does not
happen if no name of a generated schema begins with an underscore. -/
theorem exportedApart_iff (words : List String) (requests : List Request) :
    ((after words requests).ExportedApart ↔ (after words requests).MarksFree) ∧
    ((∀ schema name, (after words requests).nameOf? schema = some name →
        (after words requests).isGenerated schema = true → name.toList.head? ≠ some '_') →
      (after words requests).ExportedApart) := by
  have consistent := consistent_after words requests
  have isName : ∀ {schema name}, (after words requests).nameOf? schema = some name → IsName name :=
    fun found => consistent.isName _ (mem_names_of_nameOf? found)
  refine ⟨consistent.exportedApart_iff_marksFree,
    fun lettered => consistent.exportedApart_iff_marksFree.2 ?_⟩
  intro a b m n first generated second _ same
  exact lettered a m first generated (head?_eq_of_lower_eq_mark (isName first) (isName second)
    (not_isMarked_of_mem_names (mem_names_of_nameOf? second)) same)

/-- A title that asks for a marked name, and a path that asks for a name without a mark. -/
def markedTitle : List Request :=
  [.propose { schema := 0, title := "__Pet" },
    .propose { schema := 1, title := "/_Pets", generated := true }, .finalize]

/-- The title and the path lose their marks, and the model of the path gets one. -/
theorem exportedApart_markedTitle :
    (∀ schema name, (after [] markedTitle).nameOf? schema = some name →
      (after [] markedTitle).isGenerated schema = true → name.toList.head? ≠ some '_') ∧
    (after [] markedTitle).exportedNameOf? 0 = some "Pet" ∧
    (after [] markedTitle).exportedNameOf? 1 = some "_Pets" ∧
    (after [] markedTitle).ExportedApart := by
  have lettered : ∀ entry ∈ (after [] markedTitle).names, entry.2.toList.head? ≠ some '_' := by
    decide +kernel
  have named : ∀ schema name, (after [] markedTitle).nameOf? schema = some name →
      (after [] markedTitle).isGenerated schema = true → name.toList.head? ≠ some '_' :=
    fun _ _ found _ => lettered _ (mem_names_of_nameOf? found)
  exact ⟨named, by decide +kernel, by decide +kernel, (exportedApart_iff [] markedTitle).2 named⟩

/-- A title in which a digit follows two underscores, and a path in which it follows one. -/
def markedDigit : List Request :=
  [.propose { schema := 0, title := "__1_RequestBody" },
    .propose { schema := 1, title := "/_1_RequestBody", generated := true }, .finalize]

/-- In front of a digit underscores are kept, and the mark makes the two names one. -/
theorem not_exportedApart_markedDigit : ¬ (after [] markedDigit).ExportedApart := by
  intro apart
  have first : (after [] markedDigit).exportedNameOf? 0 = some "__1_RequestBody" := by
    decide +kernel
  have second : (after [] markedDigit).exportedNameOf? 1 = some "__1_RequestBody" := by
    decide +kernel
  exact apart 0 1 _ _ (by decide) first second rfl

end Typewright.Naming
