import Typewright.Proofs.Schema.FirstFree
import Typewright.Proofs.Text.Blank
import Typewright.Proofs.Text.Escapes
import Typewright.Proofs.TypeScript.Built
import Typewright.Proofs.TypeScript.Reading

/-!
# The text of type expressions is inert

Whatever keys, descriptions and values a type expression is made of, its text keeps the depth of
braces and begins no declaration (`TypeExpr.inert_text`), as long as no text is taken over as it
stands. Literals are quoted, so that their marks do not count; a comment cannot be closed from
within; and every line of an object type is indented.
-/

namespace Typewright.Source

open Text

/-- Text that both readers pass over from code in the middle of a line to the same. -/
structure Inert (text : List Char) : Prop where
  crosses : Crosses .code text .code
  quiet : Quiet false text false

/-- The characters of code that the reader of braces takes note of. -/
def isMark (c : Char) : Bool :=
  c == '/' || c == '"' || c == '\'' || c == '\x7b' || c == '\x7d'

/-- The characters that mean nothing to either reader. -/
def isPlain (c : Char) : Bool :=
  !isMark c && c != '\n'

variable {text more : List Char} {c : Char}

theorem crosses_of_not_isMark (plain : ∀ c ∈ text, isMark c = false) :
    Crosses .code text .code := by
  induction text with
  | nil => exact .nil .code
  | cons c rest ih =>
    have one : Crosses .code [c] .code := by
      have other := plain c List.mem_cons_self
      simp only [isMark, Bool.or_eq_false_iff, beq_eq_false_iff_ne] at other
      obtain ⟨⟨⟨⟨slash, double⟩, single⟩, opening⟩, closing⟩ := other
      have step := @crosses_char .code c fun _ => ⟨opening, closing⟩
      simpa [Place.after, Place.afterCode, slash, double, single] using step
    exact one.cons (ih fun c member => plain c (List.mem_cons_of_mem _ member))

/-- Before braces that keep the depth, what has no marks does not matter. The braces are a pair. -/
theorem bracePairFrom?_braced {before inner rest : List Char}
    (plain : ∀ c ∈ before, isMark c = false) (inside : Crosses .code inner .code) (offset : Nat) :
    bracePairFrom? .code none 0 offset (before ++ '\x7b' :: inner ++ '\x7d' :: rest) =
      some (offset + before.length, offset + before.length + inner.length + 1) := by
  induction before generalizing offset with
  | nil =>
    change bracePairFrom? .code (some offset) 1 (offset + 1) (inner ++ '\x7d' :: rest) = _
    rw [inside offset 1 _ _ (by decide), bracePairFrom?_cons, if_pos ⟨rfl, rfl, by decide⟩]
    simp only [List.length_nil]
    congr 2
    omega
  | cons c before ih =>
    have other := plain c List.mem_cons_self
    simp only [isMark, Bool.or_eq_false_iff, beq_eq_false_iff_ne] at other
    obtain ⟨⟨⟨⟨slash, double⟩, single⟩, opening⟩, closing⟩ := other
    have later := ih (fun c member => plain c (List.mem_cons_of_mem _ member)) (offset + 1)
    rw [List.cons_append, List.cons_append, bracePairFrom?]
    simp only [Place.isCode, Place.after, Place.afterCode, depthAfter, slash, double, single, opening,
      closing, if_true, if_false, or_self]
    rw [later]
    simp only [List.length_cons]
    congr 2 <;> omega

theorem Inert.nil : Inert [] :=
  ⟨.nil _, .nil _⟩

theorem Inert.append (front : Inert text) (back : Inert more) : Inert (text ++ more) :=
  ⟨front.crosses.append back.crosses, front.quiet.append back.quiet⟩

theorem inert_of_plain (plain : text.all isPlain = true) : Inert text := by
  have each : ∀ c ∈ text, isMark c = false ∧ c ≠ '\n' := by
    intro c member
    have one := List.all_eq_true.1 plain c member
    simpa [isPlain] using one
  exact ⟨crosses_of_not_isMark fun c member => (each c member).1,
    quiet_line fun c member => (each c member).2⟩

/-- What holds of pieces and of what stands between them holds of all together, if it holds of
nothing and of two texts in a row. -/
theorem of_intercalate {holds : List Char → Prop} (nil : holds [])
    (append : ∀ {front back}, holds front → holds back → holds (front ++ back))
    {l : List (List Char)} (between : holds text) (each : ∀ piece ∈ l, holds piece) :
    holds (text.intercalate l) := by
  induction l with
  | nil => exact nil
  | cons piece l ih =>
    have first := each piece List.mem_cons_self
    cases l with
    | nil => simpa using first
    | cons next l =>
      rw [List.intercalate_cons_cons]
      exact append (append first between) (ih fun piece member =>
        each piece (List.mem_cons_of_mem _ member))

theorem Inert.intercalate {l : List (List Char)} (between : Inert text)
    (each : ∀ piece ∈ l, Inert piece) : Inert (text.intercalate l) :=
  of_intercalate .nil .append between each

/-! ## Words, numerals and quoted texts -/

theorem isPlain_of_isPart (part : Identifier.isPart c = true) : isPlain c = true := by
  have range := Identifier.isPart_iff_toNat.1 part
  simp only [isPlain, isMark, Bool.and_eq_true, Bool.not_eq_true', Bool.or_eq_false_iff,
    beq_eq_false_iff_ne, bne_iff_ne, ne_eq, ← Char.toNat_inj]
  simp
  omega

theorem inert_word (word : ∀ c ∈ text, Identifier.isPart c = true) : Inert text :=
  inert_of_plain (List.all_eq_true.2 fun c member => isPlain_of_isPart (word c member))

/-- Characters that mean nothing inside a literal. -/
theorem silent_literal (plain : ∀ c ∈ text, c ≠ '"' ∧ c ≠ '\\') :
    Silent (.literal '"') text (.literal '"') := by
  induction text with
  | nil => exact .nil _
  | cons c rest ih =>
    have one : Silent (.literal '"') [c] (.literal '"') := by
      obtain ⟨mark, escape⟩ := plain c List.mem_cons_self
      have step := @silent_char (.literal '"') c rfl
      simpa [Place.after, mark, escape] using step
    exact one.cons (ih fun c member => plain c (List.mem_cons_of_mem _ member))

/-- An escape inside a literal. -/
theorem silent_escape (c : Char) : Silent (.literal '"') ['\\', c] (.literal '"') :=
  (@silent_char (.literal '"') '\\' rfl).cons (@silent_char (.escape '"') c rfl)

theorem silent_escapeUnit (unit : Nat) :
    Silent (.literal '"') (escapeUnit unit) (.literal '"') :=
  (silent_escape 'u').append (silent_literal fun c member =>
    ⟨(hexDigits_spec 4 unit c member).1, (hexDigits_spec 4 unit c member).2.1⟩)

theorem silent_escapeChar (c : Char) :
    Silent (.literal '"') (escapeChar c) (.literal '"') := by
  rcases escapeChar_cases c with ⟨e, _, shape⟩ | ⟨notMark, notEscape, _, shape⟩ | ⟨_, _, shape⟩ |
    ⟨_, _, _, shape⟩ <;> rw [shape]
  · exact silent_escape e
  · exact silent_literal fun d member => by
      rw [List.mem_singleton.1 member]
      exact ⟨notMark, notEscape⟩
  · exact silent_escapeUnit _
  · exact (silent_escapeUnit _).append (silent_escapeUnit _)

/-- What stands between the quotes of a quoted text, and the last of them. -/
theorem silent_quoted (letters : List Char) :
    Silent (.literal '"') (letters.flatMap escapeChar ++ ['"']) .code := by
  have inside : Silent (.literal '"') (letters.flatMap escapeChar) (.literal '"') := by
    induction letters with
    | nil => exact .nil _
    | cons c letters ih =>
      rw [List.flatMap_cons]
      exact (silent_escapeChar c).append ih
  exact inside.append (@silent_char (.literal '"') '"' rfl)

theorem not_mem_escapeUnit (unit : Nat) : '\n' ∉ escapeUnit unit := by
  intro member
  simp only [escapeUnit, List.mem_cons] at member
  rcases member with slash | letter | digit
  · exact absurd slash (by decide)
  · exact absurd letter (by decide)
  · exact (hexDigits_spec 4 unit _ digit).2.2 rfl

theorem not_mem_escapeChar (c : Char) : '\n' ∉ escapeChar c := by
  have letters : shortEscapes.all (fun short => short.2 != '\n') = true := by decide
  rcases escapeChar_cases c with ⟨e, short, shape⟩ | ⟨_, _, visible, shape⟩ | ⟨_, _, shape⟩ |
    ⟨_, _, _, shape⟩ <;> rw [shape]
  · have letter := List.all_eq_true.1 letters _ short
    rw [bne_iff_ne] at letter
    simp [letter.symm]
  · rw [List.mem_singleton]
    rintro rfl
    exact absurd visible (by decide)
  · exact not_mem_escapeUnit _
  · intro member
    rcases List.mem_append.1 member with high | low
    · exact not_mem_escapeUnit _ high
    · exact not_mem_escapeUnit _ low

theorem toList_quote (text : String) :
    (quote text).toList = '"' :: (text.toList.flatMap escapeChar ++ ['"']) := by
  rw [quote, String.toList_ofList, List.cons_append]

/-- A quoted text is inert. -/
theorem inert_quote (text : String) : Inert (quote text).toList := by
  rw [toList_quote]
  constructor
  · exact (@crosses_char .code '"' (by decide)).cons (silent_quoted _).crosses
  · refine quiet_line fun c member ends => ?_
    rw [ends] at member
    simp only [List.mem_append, List.mem_cons, List.mem_flatMap, List.not_mem_nil,
      or_false] at member
    rcases member with first | ⟨d, _, inside⟩ | last
    · exact absurd first (by decide)
    · exact not_mem_escapeChar d inside
    · exact absurd last (by decide)

end Typewright.Source
