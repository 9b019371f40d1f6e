import Typewright.Proofs.TypeScript.Comments

/-!
# The text of type expressions

The text of a type holds text of the user in its keys, its literals and its comments. Both readers
still pass over it: outside string literals its brackets are paired, and no line of it begins as a
declaration does (`TypeExpr.inert_text`). The text of an object is one pair of braces
(`TypeExpr.isBraced_text`).
-/

namespace Typewright

open Text Source

/-! ## Numerals -/

/-- The characters of numerals: letters and digits, signs and points. -/
def isFigure (c : Char) : Bool :=
  c.isAlphanum || c == '-' || c == '+' || c == '.'

theorem isPlain_of_isFigure {c : Char} (figure : isFigure c = true) : isPlain c = true := by
  simp only [isFigure, Bool.or_eq_true, beq_iff_eq] at figure
  rcases figure with ((letter | rfl) | rfl) | rfl
  · apply isPlain_of_isPart
    rw [Identifier.isPart_iff_toNat]
    have range := Char.isAlphanum_iff_toNat.1 letter
    omega
  all_goals rfl

theorem figures_decimal (n : Nat) : (Numeral.decimal n).toList.all isFigure = true := by
  rw [List.all_eq_true]
  intro c member
  have digit := Naming.isDigit_of_mem_decimal member
  simp [isFigure, Char.isAlphanum, digit]

theorem figures_ofInt (n : Int) : (Numeral.ofInt n).toList.all isFigure = true := by
  cases n with
  | ofNat n => exact figures_decimal n
  | negSucc n =>
    rw [Numeral.ofInt, String.toList_append, List.all_append, figures_decimal]
    decide

theorem figures_toDigits (n : Nat) : (Nat.toDigits 10 n).all isFigure = true := by
  have figures := figures_decimal n
  rwa [Numeral.decimal, String.toList_ofList] at figures

theorem figures_padded (width n : Nat) : (Numeral.padded width n).toList.all isFigure = true := by
  rw [Numeral.padded, String.toList_ofList, List.all_append, figures_toDigits, Bool.and_true,
    List.all_eq_true]
  intro c member
  rw [List.eq_of_mem_replicate member]
  decide

theorem figures_layout {digits : List Char} (figures : digits.all isFigure = true) (point : Int) :
    (Binary64.layout digits point).toList.all isFigure = true := by
  have part : ∀ {l : List Char}, l ⊆ digits → l.all isFigure = true := fun inside =>
    List.all_eq_true.2 fun c member => List.all_eq_true.1 figures c (inside member)
  have zeros : ∀ n, (List.replicate n '0').all isFigure = true := fun n =>
    List.all_eq_true.2 fun c member => by
      rw [List.eq_of_mem_replicate member]
      decide
  unfold Binary64.layout
  split
  · split
    · simp only [String.toList_append, String.toList_ofList, List.all_append, zeros, figures]
      decide
    · rw [String.toList_append, String.toList_append, List.all_append, List.all_append,
        String.toList_ofList, List.all_append, zeros, part (List.take_subset _ _)]
      split
      · decide
      · simp only [String.toList_ofList, part (List.drop_subset _ _)]
        decide
  · simp only [String.toList_append, String.toList_ofList, List.all_append, figures_padded,
      part (List.take_subset _ _)]
    split
    · split <;> decide
    · rw [List.all_cons, part (List.drop_subset _ _)]
      split <;> decide

/-- A number is written as a word or as digits that are laid out, after its sign. -/
theorem floatText_cases (x : Binary64) : Json.floatText x = "NaN" ∨
    ∃ sign body, Json.floatText x = sign ++ body ∧ (sign = "" ∨ sign = "-") ∧
      (body = "Infinity" ∨ body = "0.0" ∨ ∃ digits point,
        (∀ c ∈ digits, c.isDigit = true) ∧ body = Binary64.layout digits point) := by
  have sign : (if x.isNegative then "-" else "") = "" ∨
      (if x.isNegative then "-" else "") = "-" := by
    split <;> simp
  unfold Json.floatText Binary64.textWith
  split
  · exact Or.inl rfl
  right
  dsimp only
  split
  · exact ⟨_, _, rfl, sign, Or.inl rfl⟩
  split
  · exact ⟨_, _, rfl, sign, Or.inr (Or.inl rfl)⟩
  · refine ⟨_, _, rfl, sign, Or.inr (Or.inr ⟨_, _, fun c member => ?_, rfl⟩)⟩
    have inside := (List.dropWhile_suffix _).subset (List.mem_reverse.1 member)
    exact Nat.isDigit_of_mem_toDigits (by decide) (by decide) (List.mem_reverse.1 inside)

theorem figures_floatText (x : Binary64) : (Json.floatText x).toList.all isFigure = true := by
  rcases floatText_cases x with nan | ⟨sign, body, whole, marked, shape⟩
  · rw [nan]
    decide
  · have mark : sign.toList.all isFigure = true := by rcases marked with rfl | rfl <;> decide
    rw [whole, String.toList_append, List.all_append, mark, Bool.true_and]
    rcases shape with rfl | rfl | ⟨digits, point, each, rfl⟩
    · decide
    · decide
    · refine figures_layout (List.all_eq_true.2 fun c member => ?_) point
      simp [isFigure, Char.isAlphanum, each c member]

theorem inert_figures {text : List Char} (figures : text.all isFigure = true) : Inert text :=
  inert_of_plain (List.all_eq_true.2 fun c member =>
    isPlain_of_isFigure (List.all_eq_true.1 figures c member))

namespace TypeExpr

/-- A literal is a word, a numeral or a text in quotes. -/
theorem literalText_cases (s : Scalar) :
    literalText s ∈ ["null", "true", "false", "unknown"] ∨
      (∃ n, literalText s = Numeral.ofInt n) ∨ (∃ x, literalText s = Json.floatText x) ∨
      ∃ text, s = .str text ∧ literalText s = quote text := by
  cases s with
  | bool b => cases b <;> exact .inl (by decide)
  | int n =>
    rw [literalText, Json.scalarText, Json.intText]
    cases Numeral.isTooLong n
    · exact .inr (.inl ⟨n, rfl⟩)
    · exact .inl (by simp)
  | float x => exact .inr (.inr (.inl ⟨x, rfl⟩))
  | str text => exact .inr (.inr (.inr ⟨text, rfl, rfl⟩))
  | null => exact .inl (by decide)
  | date | datetime | bytes | foreign => exact .inl (by simp [literalText, Json.scalarText])

theorem inert_literalText (s : Scalar) : Inert (literalText s).toList := by
  rcases literalText_cases s with word | ⟨n, given⟩ | ⟨x, given⟩ | ⟨text, -, given⟩
  · have plain : ∀ t ∈ ["null", "true", "false", "unknown"], t.toList.all isPlain = true := by
      decide
    exact inert_of_plain (plain _ word)
  · exact given ▸ inert_figures (figures_ofInt n)
  · exact given ▸ inert_figures (figures_floatText x)
  · exact given ▸ inert_quote text

/-! ## Operators -/

theorem inert_parenthesised {t : String} (inert : Inert t.toList) :
    Inert (parenthesised t).toList := by
  rw [parenthesised]
  split
  · rw [String.toList_append, String.toList_append]
    exact ((inert_of_plain (by decide)).append inert).append (inert_of_plain (by decide))
  · exact inert

theorem inert_intercalate {between : String} (plain : between.toList.all isPlain = true)
    {l : List String} (each : ∀ t ∈ l, Inert t.toList) : Inert (between.intercalate l).toList := by
  rw [String.toList_intercalate]
  refine (inert_of_plain plain).intercalate fun piece member => ?_
  obtain ⟨t, inside, rfl⟩ := List.mem_map.1 member
  exact each t inside

theorem inert_unionText {l : List String} (each : ∀ t ∈ l, Inert t.toList) :
    Inert (unionText l).toList := by
  rw [unionText]
  split
  · exact inert_of_plain (by decide)
  · exact inert_intercalate (by decide) fun t member => each t (List.mem_eraseDups.1 member)

theorem inert_tupleText {items rest : List String} (eachItem : ∀ t ∈ items, Inert t.toList)
    (eachRest : ∀ t ∈ rest, Inert t.toList) : Inert (tupleText items rest).toList := by
  rw [tupleText, String.toList_append, String.toList_append]
  refine ((inert_of_plain (by decide)).append
    (inert_intercalate (by decide) fun t member => ?_)).append (inert_of_plain (by decide))
  rcases List.mem_append.1 member with item | more
  · exact eachItem t item
  · obtain ⟨type, inside, rfl⟩ := List.mem_map.1 more
    rw [String.toList_append, String.toList_append]
    exact ((inert_of_plain (by decide)).append (inert_parenthesised (eachRest type inside))).append
      (inert_of_plain (by decide))

/-! ## Objects -/

/-- A safe name is a word, possibly with a line feed after it. -/
theorem cases_of_isSafe {name : String} (safe : Identifier.isSafe name = true) :
    ∃ word, (∀ c ∈ word, Identifier.isPart c = true) ∧
      (name.toList = word ∨ name.toList = word ++ ['\n']) := by
  rw [Identifier.isSafe] at safe
  split at safe
  · cases safe
  · next c rest shape =>
    rw [shape]
    simp only [Bool.and_eq_true, Bool.or_eq_true, beq_iff_eq] at safe
    obtain ⟨start, parts | ⟨last, parts⟩⟩ := safe
    · refine ⟨c :: rest, fun d member => ?_, Or.inl rfl⟩
      rcases List.mem_cons.1 member with rfl | later
      · exact Identifier.isPart_of_isStart start
      · exact List.all_eq_true.1 parts d later
    · refine ⟨c :: rest.dropLast, fun d member => ?_, Or.inr ?_⟩
      · rcases List.mem_cons.1 member with rfl | later
        · exact Identifier.isPart_of_isStart start
        · exact List.all_eq_true.1 parts d later
      · rw [List.cons_append, List.dropLast_append_getLast? _ last]

/-- A property name keeps the depth; if it ends a line, the next line begins after it. -/
theorem keyText_spec (name : String) : Crosses .code (keyText name).toList .code ∧
    ∃ stop, Quiet false (keyText name).toList stop := by
  rw [keyText]
  split
  · next safe =>
    obtain ⟨word, parts, whole | whole⟩ := cases_of_isSafe safe
    · rw [whole]
      exact ⟨(inert_word parts).crosses, false, (inert_word parts).quiet⟩
    · rw [whole]
      exact ⟨(inert_word parts).crosses.append (@crosses_char .code '\n' (by decide)), true,
        (inert_word parts).quiet.append (@quiet_char '\n' false (by simp))⟩
  · exact ⟨(inert_quote name).crosses, false, (inert_quote name).quiet⟩

theorem toList_indent (level : Nat) : (indent level).toList = List.replicate (2 * level) ' ' := by
  rw [indent, String.toList_ofList]

theorem spaces_indent (level : Nat) : ∀ c ∈ (indent level).toList, c = ' ' := by
  rw [toList_indent]
  exact fun c member => List.eq_of_mem_replicate member

theorem inert_indent (level : Nat) : Inert (indent level).toList :=
  inert_of_plain (List.all_eq_true.2 fun c member => by
    rw [spaces_indent level c member]
    decide)

theorem quiet_indent (level : Nat) : Quiet true (indent (level + 1)).toList false := by
  have parts : (indent (level + 1)).toList = ' ' :: ' ' :: (indent level).toList := by
    rw [toList_indent, toList_indent]
    rfl
  rw [parts]
  exact (@quiet_char ' ' true (by decide)).cons ((@quiet_char ' ' false (by decide)).cons
    (inert_indent level).quiet)

/-- A line of an object type: it keeps the depth, and no declaration begins in it. -/
structure IsMember (line : String) : Prop where
  crosses : Crosses .code line.toList .code
  quiet : Quiet true line.toList false

theorem isMember_propertyText (level : Nat) {head : PropertyHead} {type : String}
    (described : head.comment.IsDescription) (inert : Inert type.toList) :
    IsMember (propertyText (level + 1) head type) := by
  have spaces := spaces_indent (level + 1)
  obtain ⟨crossesKey, stop, quietKey⟩ := keyText_spec head.name
  have mark : ∀ start, Crosses .code ((if head.isOptional then "?" else "") ++ ": ").toList .code ∧
      Quiet start ((if head.isOptional then "?" else "") ++ ": ").toList false := by
    intro start
    cases head.isOptional with
    | false => exact ⟨(inert_of_plain (by decide)).crosses,
        (@quiet_char ':' start fun _ => by decide).cons (@quiet_char ' ' false (by decide))⟩
    | true => exact ⟨(inert_of_plain (by decide)).crosses,
        (@quiet_char '?' start fun _ => by decide).cons ((@quiet_char ':' false (by decide)).cons
          (@quiet_char ' ' false (by decide)))⟩
  have parts : (propertyText (level + 1) head type).toList =
      (head.comment.text (indent (level + 1))).toList ++ ((indent (level + 1)).toList ++
        ((keyText head.name).toList ++ (((if head.isOptional then "?" else "") ++ ": ").toList ++
          (type.toList ++ [';'])))) := by
    have stop : ";".toList = [';'] := rfl
    rw [propertyText]
    simp only [String.toList_append, List.append_assoc, stop]
  have semicolon : Inert [';'] := inert_of_plain (by decide)
  constructor
  · rw [parts]
    exact (described.crosses spaces).append ((inert_indent _).crosses.append
      (crossesKey.append ((mark true).1.append (inert.crosses.append semicolon.crosses))))
  · rw [parts]
    exact (described.quiet spaces).append ((quiet_indent level).append
      (quietKey.append ((mark stop).2.append (inert.quiet.append semicolon.quiet))))

theorem isMember_index (level : Nat) {index : String} (inert : Inert index.toList) :
    IsMember (indent (level + 1) ++ "[k: string]: " ++ index ++ ";") := by
  have rest : Inert ("[k: string]: ".toList ++ (index.toList ++ ";".toList)) :=
    (inert_of_plain (by decide)).append (inert.append (inert_of_plain (by decide)))
  constructor <;> simp only [String.toList_append, List.append_assoc]
  · exact (inert_indent _).crosses.append rest.crosses
  · exact (quiet_indent level).append rest.quiet

/-- Lines of an object type, each ended. -/
theorem lines_spec {lines : List String} (each : ∀ line ∈ lines, IsMember line) :
    Crosses .code ((lines.map String.toList).flatMap (· ++ ['\n'])) .code ∧
      Quiet true ((lines.map String.toList).flatMap (· ++ ['\n'])) true := by
  induction lines with
  | nil => exact ⟨.nil _, .nil _⟩
  | cons line lines ih =>
    have first := each line List.mem_cons_self
    obtain ⟨crosses, quiet⟩ := ih fun line member => each line (List.mem_cons_of_mem _ member)
    rw [List.map_cons, List.flatMap_cons]
    exact ⟨(first.crosses.append (@crosses_char .code '\n' (by decide))).append crosses,
      (first.quiet.append (@quiet_char '\n' false (by simp))).append quiet⟩

/-- An object type is text in braces that keeps the depth. -/
def IsBraced (text : List Char) : Prop :=
  ∃ inner, text = '\x7b' :: inner ++ ['\x7d'] ∧ Crosses .code inner .code ∧ Quiet false text false

theorem IsBraced.inert {text : List Char} (braced : IsBraced text) : Inert text := by
  obtain ⟨inner, rfl, crosses, quiet⟩ := braced
  exact ⟨crosses.braced, quiet⟩

theorem isBraced_objectText (level : Nat) {properties index : List String}
    (eachProperty : ∀ line ∈ properties, IsMember line) (eachIndex : ∀ t ∈ index, Inert t.toList) :
    IsBraced (objectText (level + 1) properties index).toList := by
  have eachLine : ∀ line ∈ properties ++ (if index.isEmpty then []
      else [indent (level + 1) ++ "[k: string]: " ++ unionText index ++ ";"]), IsMember line := by
    intro line member
    rcases List.mem_append.1 member with property | signature
    · exact eachProperty line property
    · split at signature
      · cases signature
      · rw [List.mem_singleton.1 signature]
        exact isMember_index level (inert_unionText eachIndex)
  unfold objectText
  revert eachLine
  generalize properties ++ (if index.isEmpty then []
    else [indent (level + 1) ++ "[k: string]: " ++ unionText index ++ ";"]) = lines
  intro eachLine
  rw [Nat.add_sub_cancel]
  dsimp only
  split
  · exact ⟨[], rfl, .nil _, quiet_line (by simp)⟩
  · next inhabited =>
    have whole := @intercalate_append_self ['\n'] (lines.map String.toList)
      (by simpa using inhabited)
    obtain ⟨crosses, quiet⟩ := lines_spec eachLine
    have parts : ("\x7b\n" ++ "\n".intercalate lines ++ "\n" ++ indent level ++ "\x7d").toList =
        '\x7b' :: ('\n' :: (lines.map String.toList).flatMap (· ++ ['\n']) ++
          (indent level).toList) ++ ['\x7d'] := by
      have opening : "\x7b\n".toList = ['\x7b', '\n'] := rfl
      have stop : "\n".toList = ['\n'] := rfl
      have closing : "\x7d".toList = ['\x7d'] := rfl
      simp only [String.toList_append, String.toList_intercalate, opening, stop, closing, ← whole]
      simp
    have last : Quiet true ((indent level).toList ++ ['\x7d']) false := by
      cases level with
      | zero => exact @quiet_char '\x7d' true (by decide)
      | succ level => exact (quiet_indent level).append (@quiet_char '\x7d' false (by decide))
    have first : Quiet false ['\x7b', '\n'] true :=
      (@quiet_char '\x7b' false (by simp)).cons (@quiet_char '\n' false (by simp))
    refine ⟨_, parts, ?_, ?_⟩
    · exact ((@crosses_char .code '\n' (by decide)).cons crosses).append (inert_indent level).crosses
    · have regrouped : '\x7b' :: ('\n' :: (lines.map String.toList).flatMap (· ++ ['\n']) ++
          (indent level).toList) ++ ['\x7d'] = ['\x7b', '\n'] ++
          ((lines.map String.toList).flatMap (· ++ ['\n']) ++
            ((indent level).toList ++ ['\x7d'])) := by
        simp
      rw [parts, regrouped]
      exact first.append (quiet.append last)

/-! ## Types -/

theorem texts_eq_map (level : Nat) (types : List TypeExpr) :
    texts level types = types.map (text level) := by
  induction types with
  | nil => rw [texts, List.map_nil]
  | cons type types ih => rw [texts, List.map_cons, ih]

theorem propertyTexts_eq_map (level : Nat) (properties : List (PropertyHead × TypeExpr)) :
    propertyTexts level properties =
      properties.map fun property => propertyText level property.1 (text level property.2) := by
  induction properties with
  | nil => rw [propertyTexts, List.map_nil]
  | cons property properties ih => rw [propertyTexts, List.map_cons, ih]

section

variable {isRaw isName : String → Prop} (noRaw : ∀ text, ¬ isRaw text)
variable (words : ∀ text, isName text → ∀ c ∈ text.toList, Identifier.isPart c = true)
include noRaw words

/-- The text of a type expression without raw texts is inert, at any level. -/
theorem inert_text {t : TypeExpr} (built : t.Built isRaw isName) (level : Nat) :
    Inert (t.text level).toList := by
  induction built generalizing level with
  | unknown =>
    rw [text]
    exact inert_of_plain (by decide)
  | never =>
    rw [text]
    exact inert_of_plain (by decide)
  | undefined =>
    rw [text]
    exact inert_of_plain (by decide)
  | primitive type =>
    rw [text]
    cases type <;> exact inert_of_plain (by decide)
  | literal value =>
    rw [text]
    exact inert_literalText value
  | name given =>
    rw [text]
    exact inert_word (words _ given)
  | raw given => exact absurd given (noRaw _)
  | union _ ih =>
    rw [text, texts_eq_map]
    refine inert_unionText fun t member => ?_
    obtain ⟨type, inside, rfl⟩ := List.mem_map.1 member
    exact ih type inside level
  | @intersection parts own _ _ _ ihPart ihOwn =>
    have each : ∀ t ∈ (texts level parts).map parenthesised ++ texts level own,
        Inert t.toList := by
      intro t member
      rw [texts_eq_map, texts_eq_map] at member
      rcases List.mem_append.1 member with part | mine
      · obtain ⟨shown, isShown, rfl⟩ := List.mem_map.1 part
        obtain ⟨type, inside, rfl⟩ := List.mem_map.1 isShown
        exact inert_parenthesised (ihPart type inside level)
      · obtain ⟨type, inside, rfl⟩ := List.mem_map.1 mine
        exact ihOwn type inside level
    rw [text]
    split
    · exact inert_of_plain (by decide)
    · exact inert_intercalate (by decide) each
  | array _ ih =>
    rw [text, String.toList_append]
    exact (inert_parenthesised (ih level)).append (inert_of_plain (by decide))
  | tuple _ _ ihItem ihRest =>
    rw [text, texts_eq_map, texts_eq_map]
    refine inert_tupleText (fun t member => ?_) fun t member => ?_
    · obtain ⟨type, inside, rfl⟩ := List.mem_map.1 member
      exact ihItem type inside level
    · obtain ⟨type, inside, rfl⟩ := List.mem_map.1 member
      exact ihRest type inside level
  | @sized item least most _ ih =>
    rw [text]
    refine inert_intercalate (by decide) fun t member => ?_
    obtain ⟨size, _, rfl⟩ := List.mem_map.1 member
    refine inert_tupleText (fun u inside => ?_) (by simp)
    rw [List.eq_of_mem_replicate inside]
    exact ih level
  | @object properties index described _ _ ihProperty ihIndex =>
    rw [text, texts_eq_map, propertyTexts_eq_map]
    refine (isBraced_objectText level (fun line member => ?_) fun t member => ?_).inert
    · obtain ⟨property, inside, rfl⟩ := List.mem_map.1 member
      exact isMember_propertyText level (described property inside)
        (ihProperty property inside (level + 1))
    · obtain ⟨type, inside, rfl⟩ := List.mem_map.1 member
      exact ihIndex type inside (level + 1)

/-- The text of an object type without raw texts is in braces. -/
theorem isBraced_text {properties : List (PropertyHead × TypeExpr)} {index : List TypeExpr}
    (built : (TypeExpr.object properties index).Built isRaw isName) (level : Nat) :
    IsBraced ((TypeExpr.object properties index).text level).toList := by
  cases built with
  | object described eachProperty eachIndex =>
    rw [text, texts_eq_map, propertyTexts_eq_map]
    refine isBraced_objectText level (fun line member => ?_) fun t member => ?_
    · obtain ⟨property, inside, rfl⟩ := List.mem_map.1 member
      exact isMember_propertyText level (described property inside)
        (inert_text noRaw words (eachProperty property inside) (level + 1))
    · obtain ⟨type, inside, rfl⟩ := List.mem_map.1 member
      exact inert_text noRaw words (eachIndex type inside) (level + 1)

end

end TypeExpr

end Typewright
