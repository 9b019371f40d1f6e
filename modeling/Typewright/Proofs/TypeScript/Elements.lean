import Typewright.Proofs.Text.Numerals
import Typewright.Proofs.TypeScript.Lengths

/-!
# Types as items of tuples

Whatever type a schema is compiled to, without raw texts its text can stand as an item of a tuple
(`TypeExpr.isItem_text`): commas occur in it only in brackets, in literals and in comments, and it
begins with no point. Only a text that shows nothing is no item. Before `[]` it stands alone if its
texts of the user are even (`TypeExpr.standsAlone_text`).
-/

namespace Typewright

open Text Source

namespace Source

/-- If neither of two texts begins with a point, nor do both together. -/
theorem begins_append {front back : List Char} (first : firstVisible? front ≠ some '.')
    (second : firstVisible? back ≠ some '.') : firstVisible? (front ++ back) ≠ some '.' := by
  rw [firstVisible?_append]
  cases shown : firstVisible? front with
  | none => exact second
  | some c => rwa [Option.some_or, ← shown]

/-- Text that holds together in a tuple, where it may show nothing. -/
structure Solid (text : List Char) : Prop where
  settles : Settles text
  noEquals : '=' ∉ codeFrom .code text
  begins : firstVisible? (codeFrom .code text) ≠ some '.'
  nested : IsNested (codeFrom .code text)
  single : IsPiece ',' 0 (codeFrom .code text)

namespace Solid

variable {text front back : List Char} {opening closing : Char}

theorem isItem (solid : Solid text) (visible : firstVisible? (codeFrom .code text) ≠ none) :
    IsItem text := by
  refine ⟨solid.settles, ?_⟩
  rw [outline, withoutArrows_of_not_mem solid.noEquals]
  exact ⟨visible, solid.begins, solid.nested, solid.single⟩

theorem append (first : Solid front) (second : Solid back) : Solid (front ++ back) := by
  have code : codeFrom .code (front ++ back) = codeFrom .code front ++ codeFrom .code back := by
    rw [codeFrom_append, first.settles]
  refine ⟨first.settles.append second.settles, ?_, ?_, ?_, ?_⟩
  · rw [code, List.mem_append, not_or]
    exact ⟨first.noEquals, second.noEquals⟩
  · rw [code]
    exact begins_append first.begins second.begins
  · rw [code]
    exact first.nested.append second.nested
  · rw [code]
    exact isPiece_append_iff.2 ⟨first.single, by rw [first.nested.closed]; exact second.single⟩

theorem intercalate {l : List (List Char)} (between : Solid text)
    (each : ∀ piece ∈ l, Solid piece) : Solid (text.intercalate l) :=
  of_intercalate ⟨rfl, by decide, by decide, by decide, rfl⟩ .append between each

theorem of_neutral (neutral : text.all isNeutral = true) (noComma : ',' ∉ text)
    (begins : firstVisible? text ≠ some '.') : Solid text := by
  have measured : Measured True text := measured_of_neutral neutral
  have plain : ∀ c ∈ text, isMark c = false := by
    intro c member
    have one := List.all_eq_true.1 neutral c member
    simp only [isNeutral, Bool.and_eq_true, Bool.not_eq_true'] at one
    exact one.1.1.1
  have code := (codeFrom_of_not_isMark plain).2
  refine ⟨measured.settles, measured.noEquals, ?_, measured.isNested, ?_⟩
  · rwa [code]
  · rw [code]
    exact isPiece_of_not_mem noComma

/-- What stands in brackets holds together. -/
theorem bracketed {isEven : Prop} (measured : Measured isEven text)
    (opens : isOpening opening = true) (closes : isClosing closing = true) :
    Solid (opening :: text ++ [closing]) := by
  have whole := measured.bracketed opens closes
  have code := measured.codeFrom_bracketed opens closing
  refine ⟨whole.settles, whole.noEquals, ?_, whole.isNested, ?_⟩
  · rw [code]
    rcases eq_of_isOpening opens with rfl | rfl | rfl | rfl <;> simp [firstVisible?, isBlank]
  · rw [code]
    refine measured.isNested.isPiece_bracketed opens ?_
    rcases eq_of_isOpening opens with rfl | rfl | rfl | rfl <;>
      rcases eq_of_isClosing closes with rfl | rfl | rfl | rfl <;> decide

theorem word (parts : ∀ c ∈ text, Identifier.isPart c = true) : Solid text := by
  refine of_neutral (List.all_eq_true.2 fun c member => isNeutral_of_isPart (parts c member))
    (fun comma => absurd (parts _ comma) (by decide)) fun point => ?_
  exact absurd (parts _ (List.mem_of_find?_eq_some point)) (by decide)

theorem figures (figures : text.all isFigure = true) (begins : firstVisible? text ≠ some '.') :
    Solid text := by
  have each := List.all_eq_true.1 figures
  exact of_neutral (List.all_eq_true.2 fun c member => isNeutral_of_isFigure (each c member))
    (fun comma => absurd (each _ comma) (by decide)) begins

theorem quote (text : String) : Solid (Text.quote text).toList := by
  have measured := measured_quote text
  have code : codeFrom .code (Text.quote text).toList = ['"'] := by
    obtain ⟨_, noCode⟩ := silent_quoted text.toList
    rw [toList_quote, codeFrom]
    exact congrArg (List.cons '"') noCode
  refine ⟨measured.settles, measured.noEquals, ?_, measured.isNested, ?_⟩
  · rw [code]
    decide
  · rw [code]
    rfl

end Solid

/-! ## Numerals -/

theorem firstVisible?_digits_append {digits : List Char} (each : ∀ c ∈ digits, c.isDigit = true)
    (inhabited : digits ≠ []) (more : List Char) : firstVisible? (digits ++ more) ≠ some '.' := by
  cases digits with
  | nil => exact absurd rfl inhabited
  | cons c digits =>
    have digit := each c List.mem_cons_self
    have other : c ≠ '.' := by
      rintro rfl
      cases digit
    simp [firstVisible?, Numeral.isBlank_of_isDigit digit, other]

theorem begins_ofInt (n : Int) : firstVisible? (Numeral.ofInt n).toList ≠ some '.' := by
  have decimal : ∀ n, firstVisible? (Numeral.decimal n).toList ≠ some '.' := fun n point => by
    have digit := Naming.isDigit_of_mem_decimal (List.mem_of_find?_eq_some point)
    cases digit
  cases n with
  | ofNat n => exact decimal n
  | negSucc n =>
    rw [Numeral.ofInt, String.toList_append]
    exact begins_append (by decide) (decimal _)

/-- A numeral does not begin with its point. -/
theorem begins_layout {digits : List Char} (each : ∀ c ∈ digits, c.isDigit = true) (point : Int) :
    firstVisible? (Binary64.layout digits point).toList ≠ some '.' := by
  unfold Binary64.layout
  split
  · split
    · have zero : "0.".toList = ['0', '.'] := rfl
      rw [String.toList_append, zero]
      simp [firstVisible?, isBlank]
    · rw [String.toList_append, String.toList_append, String.toList_ofList, List.append_assoc]
      refine firstVisible?_digits_append (fun c member => ?_) (fun empty => ?_) _
      · rcases List.mem_append.1 member with taken | zero
        · exact each c (List.mem_of_mem_take taken)
        · rw [List.eq_of_mem_replicate zero]
          rfl
      · have size := congrArg List.length empty
        simp only [List.length_append, List.length_take, List.length_replicate,
          List.length_nil] at size
        omega
  · rw [String.toList_append, String.toList_append, String.toList_ofList, List.append_assoc,
      List.append_assoc]
    cases digits with
    | nil =>
      rw [firstVisible?_append, firstVisible?_append, firstVisible?_append]
      have power : firstVisible? (if point - 1 < 0 then "e-" else "e+").toList = some 'e' := by
        split <;> rfl
      rw [power]
      simp [firstVisible?]
    | cons c digits =>
      exact firstVisible?_digits_append (fun d member => each d (List.mem_of_mem_take member))
        (by simp) _

theorem begins_floatText (x : Binary64) : firstVisible? (Json.floatText x).toList ≠ some '.' := by
  rcases floatText_cases x with nan | ⟨sign, body, whole, marked, shape⟩
  · rw [nan]
    decide
  · have mark : firstVisible? sign.toList ≠ some '.' := by rcases marked with rfl | rfl <;> decide
    rw [whole, String.toList_append]
    refine begins_append mark ?_
    rcases shape with rfl | rfl | ⟨digits, point, each, rfl⟩
    · decide
    · decide
    · exact begins_layout each point

end Source

/-! ## Types -/

namespace TypeExpr

theorem solid_literalText (s : Scalar) : Solid (literalText s).toList := by
  rcases literalText_cases s with word | ⟨n, given⟩ | ⟨x, given⟩ | ⟨text, -, given⟩
  · have plain : ∀ t ∈ ["null", "true", "false", "unknown"], t.toList.all isNeutral = true ∧
        ',' ∉ t.toList ∧ firstVisible? t.toList ≠ some '.' := by decide
    obtain ⟨neutral, noComma, begins⟩ := plain _ word
    exact .of_neutral neutral noComma begins
  · exact given ▸ .figures (figures_ofInt n) (begins_ofInt n)
  · exact given ▸ .figures (figures_floatText x) (begins_floatText x)
  · exact given ▸ .quote text

theorem solid_intercalate {between : String} (solid : Solid between.toList) {l : List String}
    (each : ∀ t ∈ l, Solid t.toList) : Solid (between.intercalate l).toList := by
  rw [String.toList_intercalate]
  refine solid.intercalate fun piece member => ?_
  obtain ⟨t, inside, rfl⟩ := List.mem_map.1 member
  exact each t inside

theorem solid_parenthesised {isEven : Prop} {t : String} (measured : Measured isEven t.toList)
    (solid : Solid t.toList) : Solid (parenthesised t).toList := by
  rw [parenthesised]
  split
  · rw [String.toList_append, String.toList_append]
    exact .bracketed measured rfl rfl
  · exact solid

theorem solid_tupleText {isEven : Prop} {items rest : List String}
    (eachItem : ∀ t ∈ items, Measured isEven t.toList)
    (eachRest : ∀ t ∈ rest, Measured isEven t.toList) : Solid (tupleText items rest).toList := by
  obtain ⟨inner, shape, measured⟩ := exists_bracketed_tupleText eachItem eachRest
  rw [shape]
  exact .bracketed measured rfl rfl

section

variable {isRaw isName : String → Prop} (noRaw : ∀ text, ¬ isRaw text)
variable (words : ∀ text, isName text → ∀ c ∈ text.toList, Identifier.isPart c = true)
include noRaw words

/-- The text of a type expression without raw texts holds together, at any level. -/
theorem solid_text {t : TypeExpr} (built : t.Built isRaw isName) (level : Nat) :
    Solid (t.text level).toList := by
  induction built with
  | unknown | never | undefined =>
    rw [text]
    exact .of_neutral (by decide) (by decide) (by decide)
  | primitive type =>
    rw [text]
    cases type <;> exact .of_neutral (by decide) (by decide) (by decide)
  | literal value =>
    rw [text]
    exact solid_literalText value
  | name given =>
    rw [text]
    exact .word (words _ given)
  | raw given => exact absurd given (noRaw _)
  | @union members _ ih =>
    rw [text, texts_eq_map, unionText]
    split
    · exact .of_neutral (by decide) (by decide) (by decide)
    · refine solid_intercalate (.of_neutral (by decide) (by decide) (by decide)) fun t member => ?_
      obtain ⟨type, inside, rfl⟩ := List.mem_map.1 (List.mem_eraseDups.1 member)
      exact ih type inside
  | @intersection parts own eachPart _ _ ihPart ihOwn =>
    rw [text, texts_eq_map, texts_eq_map]
    split
    · exact .of_neutral (by decide) (by decide) (by decide)
    · refine solid_intercalate (.of_neutral (by decide) (by decide) (by decide)) fun t member => ?_
      rcases List.mem_append.1 member with part | mine
      · obtain ⟨shown, isShown, rfl⟩ := List.mem_map.1 part
        obtain ⟨type, inside, rfl⟩ := List.mem_map.1 isShown
        exact solid_parenthesised (measured_text noRaw words (eachPart type inside) level)
          (ihPart type inside)
      · obtain ⟨type, inside, rfl⟩ := List.mem_map.1 mine
        exact ihOwn type inside
  | array item ih =>
    rw [text, String.toList_append]
    exact (solid_parenthesised (measured_text noRaw words item level) ih).append
      (.bracketed (.nil : Measured True []) rfl rfl)
  | @tuple items rest eachItem eachRest _ _ =>
    rw [text, texts_eq_map, texts_eq_map]
    refine @solid_tupleText False _ _ (fun t member => ?_) fun t member => ?_
    · obtain ⟨type, inside, rfl⟩ := List.mem_map.1 member
      exact (measured_text noRaw words (eachItem type inside) level).mono False.elim
    · obtain ⟨type, inside, rfl⟩ := List.mem_map.1 member
      exact (measured_text noRaw words (eachRest type inside) level).mono False.elim
  | @sized item least most inside _ =>
    rw [text]
    refine solid_intercalate (.of_neutral (by decide) (by decide) (by decide)) fun t member => ?_
    obtain ⟨size, _, rfl⟩ := List.mem_map.1 member
    refine solid_tupleText (fun u copy => ?_) (by simp : ∀ t ∈ [], Measured item.IsEven _)
    rw [List.eq_of_mem_replicate copy]
    exact measured_text noRaw words inside level
  | object described eachProperty eachIndex =>
    obtain ⟨inner, braced, measured⟩ := exists_braced_text described
      (fun property inside => measured_text noRaw words (eachProperty property inside) (level + 1))
      (fun t inside => measured_text noRaw words (eachIndex t inside) (level + 1))
    rw [braced]
    exact .bracketed measured rfl rfl

/-- A type expression without raw texts whose text shows anything can stand as an item of a
tuple. -/
theorem isItem_text {t : TypeExpr} (built : t.Built isRaw isName) {level : Nat}
    (visible : firstVisible? (codeFrom .code (t.text level).toList) ≠ none) :
    IsItem (t.text level).toList :=
  (solid_text noRaw words built level).isItem visible

/-- If its texts of the user are even, a type without raw texts is printed before `[]` without an
operator outside brackets. -/
theorem standsAlone_text {t : TypeExpr} (built : t.Built isRaw isName) (even : t.IsEven)
    (level : Nat) : StandsAlone (t.text level) := by
  have measured := measured_text noRaw words built level
  have printed := measured_parenthesised measured
  rw [StandsAlone, outline, withoutArrows_of_not_mem printed.noEquals]
  by_cases outer : hasOuterOperator 0 (t.text level).toList = true
  · rw [parenthesised, if_pos outer, String.toList_append, String.toList_append]
    exact measured.within_bracketed rfl rfl (by decide)
  · rw [parenthesised, if_neg outer, Bool.eq_false_iff]
    -- what the code has, the count of all brackets would have found
    exact fun inCode => outer (measured.follows even 0 inCode)

end

end TypeExpr

end Typewright
