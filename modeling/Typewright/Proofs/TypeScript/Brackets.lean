import Mathlib.Algebra.Ring.Int.Defs
import Typewright.Proofs.TypeScript.Types

/-!
# Brackets in texts and in code

Whether a text needs parentheses is decided by counting all its brackets, also those in literals and
comments. Read as source text it needs them if its code has an operator outside brackets. The two
agree on texts whose literals and comments each open as many brackets as they close
(`Source.Measured`): a text of a type is one if the texts of the user in it are even
(`TypeExpr.measured_text`).
-/

namespace Typewright

open Text

namespace Source

open TypeExpr (hasOuterOperator)

/-! ## Counting brackets -/

/-- The brackets that open. -/
def isOpening (c : Char) : Bool :=
  c == '(' || c == '[' || c == '\x7b' || c == '<'

/-- The brackets that close. -/
def isClosing (c : Char) : Bool :=
  c == ')' || c == ']' || c == '\x7d' || c == '>'

/-- The operators that join types. -/
def isOperator (c : Char) : Bool :=
  c == '|' || c == '&'

/-- What a character adds to the depth of brackets. -/
def bracketStep (c : Char) : Int :=
  if isOpening c then 1 else if isClosing c then -1 else 0

/-- How many more brackets a text opens than it closes. -/
def excess (text : List Char) : Int :=
  (text.map bracketStep).sum

variable {text more : List Char} {c opening closing : Char}

@[simp] theorem excess_nil : excess [] = 0 :=
  rfl

@[simp] theorem excess_cons (c : Char) (text : List Char) :
    excess (c :: text) = bracketStep c + excess text := by
  simp [excess]

@[simp] theorem excess_append (text more : List Char) :
    excess (text ++ more) = excess text + excess more := by
  simp [excess]

theorem excess_of_steps (steps : ∀ c ∈ text, bracketStep c = 0) : excess text = 0 := by
  induction text with
  | nil => rfl
  | cons c text ih =>
    rw [excess_cons, steps c List.mem_cons_self,
      ih fun d member => steps d (List.mem_cons_of_mem _ member), Int.add_zero]

theorem excess_take_of_steps (steps : ∀ c ∈ text, bracketStep c = 0) (k : Nat) :
    0 ≤ excess (text.take k) :=
  Int.le_of_eq (excess_of_steps fun c member => steps c (List.mem_of_mem_take member)).symm

/-- Between brackets, every beginning opens one more bracket. -/
theorem excess_take_bracketed (up : bracketStep opening = 1) (down : bracketStep closing = -1)
    (stays : ∀ k, 0 ≤ excess (text.take k)) (k : Nat) :
    0 ≤ excess ((opening :: text ++ [closing]).take k) := by
  cases k with
  | zero => exact Int.le_refl 0
  | succ k =>
    have inner := stays k
    have last : -1 ≤ excess ([closing].take (k - text.length)) := by
      cases k - text.length with
      | zero => simp
      | succ rest => simp [down]
    rw [List.cons_append, List.take_succ_cons, excess_cons, List.take_append, excess_append, up]
    omega

theorem eq_of_isOpening (opens : isOpening c = true) :
    c = '(' ∨ c = '[' ∨ c = '\x7b' ∨ c = '<' := by
  simpa [isOpening, or_assoc] using opens

theorem eq_of_isClosing (closes : isClosing c = true) :
    c = ')' ∨ c = ']' ∨ c = '\x7d' ∨ c = '>' := by
  simpa [isClosing, or_assoc] using closes

/-- An opening bracket is code and leads one level down. -/
theorem opening_spec (opens : isOpening c = true) :
    bracketStep c = 1 ∧ isOperator c = false ∧ Place.after .code c = .code := by
  rcases eq_of_isOpening opens with rfl | rfl | rfl | rfl <;> exact ⟨rfl, rfl, rfl⟩

/-- A closing bracket is code and leads one level up. -/
theorem closing_spec (closes : isClosing c = true) :
    bracketStep c = -1 ∧ isOperator c = false ∧ Place.after .code c = .code := by
  rcases eq_of_isClosing closes with rfl | rfl | rfl | rfl <;> exact ⟨rfl, rfl, rfl⟩

theorem bracketStep_of_isBlank (blank : isBlank c = true) : bracketStep c = 0 := by
  rw [bracketStep, if_neg, if_neg]
  · intro closes
    rcases eq_of_isClosing closes with rfl | rfl | rfl | rfl <;> cases blank
  · intro opens
    rcases eq_of_isOpening opens with rfl | rfl | rfl | rfl <;> cases blank

theorem excess_of_blank (blank : ∀ c ∈ text, isBlank c = true) : excess text = 0 :=
  excess_of_steps fun c member => bracketStep_of_isBlank (blank c member)

/-- An operator counts at depth zero; the rest is read from the depth after the character. -/
theorem hasOuterOperator_cons (depth : Int) (c : Char) (rest : List Char) :
    hasOuterOperator depth (c :: rest) =
      ((isOperator c && depth == 0) || hasOuterOperator (depth + bracketStep c) rest) := by
  rw [hasOuterOperator]
  split
  · next opens =>
    obtain ⟨step, other, _⟩ := @opening_spec c (by simpa [isOpening, or_assoc] using opens)
    rw [step, other]
    rfl
  next notOpening =>
  split
  · next closes =>
    obtain ⟨step, other, _⟩ := @closing_spec c (by simpa [isClosing, or_assoc] using closes)
    rw [step, other]
    rfl
  next notClosing =>
  have still : bracketStep c = 0 := by
    rw [bracketStep, if_neg (by simpa [isOpening, or_assoc] using notOpening),
      if_neg (by simpa [isClosing, or_assoc] using notClosing)]
  rw [still, Int.add_zero]
  split
  · next outer => simp [isOperator, outer.1, outer.2]
  · next other =>
    have none : (isOperator c && depth == 0) = false := by
      rw [Bool.eq_false_iff]
      intro outer
      apply other
      simpa [isOperator] using outer
    rw [none, Bool.false_or]

/-- What follows a text is read from the depth that the text leads to. -/
theorem hasOuterOperator_append (depth : Int) (text more : List Char) :
    hasOuterOperator depth (text ++ more) =
      (hasOuterOperator depth text || hasOuterOperator (depth + excess text) more) := by
  induction text generalizing depth with
  | nil => simp [hasOuterOperator]
  | cons c text ih =>
    rw [List.cons_append, hasOuterOperator_cons, hasOuterOperator_cons, ih, excess_cons,
      Int.add_assoc, Bool.or_assoc]

theorem hasOuterOperator_of_no_operator (none : ∀ c ∈ text, isOperator c = false) (depth : Int) :
    hasOuterOperator depth text = false := by
  induction text generalizing depth with
  | nil => rfl
  | cons c text ih =>
    rw [hasOuterOperator_cons, none c List.mem_cons_self,
      ih fun d member => none d (List.mem_cons_of_mem _ member)]
    rfl

/-- Without brackets, an operator is outside brackets only at depth zero. -/
theorem hasOuterOperator_of_steps (steps : ∀ c ∈ text, bracketStep c = 0) {depth : Int}
    (inside : depth ≠ 0) : hasOuterOperator depth text = false := by
  induction text with
  | nil => rfl
  | cons c text ih =>
    rw [hasOuterOperator_cons, steps c List.mem_cons_self, Int.add_zero,
      ih fun d member => steps d (List.mem_cons_of_mem _ member), beq_eq_false_iff_ne.2 inside,
      Bool.and_false, Bool.or_false]

/-! ## Texts that are measured right -/

/-- A text that is read from code to code. Its code has no equals sign, so no arrow either, and its
brackets are paired, none closing before it opens; and in a case that is called even, its own count
of brackets is the same, and it has an operator outside brackets wherever its code has one. -/
structure Measured (isEven : Prop) (text : List Char) : Prop where
  settles : text.foldl Place.after .code = .code
  noEquals : '=' ∉ codeFrom .code text
  closed : excess (codeFrom .code text) = 0
  stays : ∀ k, 0 ≤ excess ((codeFrom .code text).take k)
  within : ∀ depth, 0 < depth → hasOuterOperator depth (codeFrom .code text) = false
  counted : isEven → excess text = 0
  follows : isEven → ∀ depth, hasOuterOperator depth (codeFrom .code text) = true →
    hasOuterOperator depth text = true

/-- The characters that are no brackets and begin neither a literal nor a comment nor an arrow. -/
def isNeutral (c : Char) : Bool :=
  !isMark c && !isOpening c && !isClosing c && c != '='

section

variable {isEven isEvenToo : Prop}

theorem codeFrom_of_not_isMark (plain : ∀ c ∈ text, isMark c = false) :
    text.foldl Place.after .code = .code ∧ codeFrom .code text = text := by
  induction text with
  | nil => exact ⟨rfl, rfl⟩
  | cons c text ih =>
    have other := plain c List.mem_cons_self
    simp only [isMark, Bool.or_eq_false_iff, beq_eq_false_iff_ne] at other
    obtain ⟨⟨⟨⟨slash, double⟩, single⟩, _⟩, _⟩ := other
    have stays : Place.after .code c = .code := by
      simp [Place.after, Place.afterCode, slash, double, single]
    obtain ⟨leads, code⟩ := ih fun d member => plain d (List.mem_cons_of_mem _ member)
    rw [List.foldl_cons, codeFrom, stays, leads, code]
    exact ⟨rfl, rfl⟩

theorem measured_of_neutral (neutral : text.all isNeutral = true) : Measured isEven text := by
  have each : ∀ c ∈ text, isMark c = false ∧ bracketStep c = 0 ∧ c ≠ '=' := by
    intro c member
    have one := List.all_eq_true.1 neutral c member
    simp only [isNeutral, Bool.and_eq_true, Bool.not_eq_true', bne_iff_ne] at one
    obtain ⟨⟨⟨mark, opens⟩, closes⟩, noEquals⟩ := one
    exact ⟨mark, by rw [bracketStep, opens, closes]; rfl, noEquals⟩
  obtain ⟨leads, code⟩ := codeFrom_of_not_isMark fun c member => (each c member).1
  have even : excess text = 0 := excess_of_steps fun c member => (each c member).2.1
  refine ⟨leads, ?_, ?_, fun k => ?_, fun depth inside => ?_, fun _ => even,
    fun _ depth outer => ?_⟩
  · rw [code]
    exact fun member => (each _ member).2.2 rfl
  · rw [code, even]
  · rw [code]
    exact excess_take_of_steps (fun c member => (each c member).2.1) k
  · rw [code]
    exact hasOuterOperator_of_steps (fun c member => (each c member).2.1) (by omega)
  · rwa [code] at outer

/-- A literal or a comment: its code is what opens it, and it is even if its brackets are. -/
theorem measured_of_mute (settles : text.foldl Place.after .code = .code)
    (mute : ∀ c ∈ codeFrom .code text, bracketStep c = 0 ∧ isOperator c = false ∧ c ≠ '=') :
    Measured (excess text = 0) text := by
  have silent := hasOuterOperator_of_no_operator fun c member => (mute c member).2.1
  refine ⟨settles, fun member => (mute _ member).2.2 rfl,
    excess_of_steps fun c member => (mute c member).1, fun k => ?_,
    fun depth _ => silent depth, id, fun _ depth outer => ?_⟩
  · exact excess_take_of_steps (fun c member => (mute c member).1) k
  · rw [silent] at outer
    cases outer

namespace Measured

theorem nil : Measured isEven [] :=
  measured_of_neutral rfl

theorem mono (measured : Measured isEven text) (imp : isEvenToo → isEven) :
    Measured isEvenToo text :=
  ⟨measured.settles, measured.noEquals, measured.closed, measured.stays, measured.within,
    fun even => measured.counted (imp even), fun even => measured.follows (imp even)⟩

theorem codeFrom_append (measured : Measured isEven text) (more : List Char) :
    codeFrom .code (text ++ more) = codeFrom .code text ++ codeFrom .code more := by
  rw [Source.codeFrom_append, measured.settles]

theorem append (front : Measured isEven text) (back : Measured isEven more) :
    Measured isEven (text ++ more) := by
  have code := front.codeFrom_append more
  refine ⟨?_, ?_, ?_, fun k => ?_, fun depth inside => ?_, fun even => ?_,
    fun even depth outer => ?_⟩
  · rw [List.foldl_append, front.settles, back.settles]
  · rw [code, List.mem_append, not_or]
    exact ⟨front.noEquals, back.noEquals⟩
  · rw [code, excess_append, front.closed, back.closed, Int.add_zero]
  · rw [code, List.take_append, excess_append]
    exact Int.add_nonneg (front.stays k) (back.stays _)
  · rw [code, hasOuterOperator_append, front.closed, Int.add_zero, front.within depth inside,
      back.within depth inside, Bool.or_false]
  · rw [excess_append, front.counted even, back.counted even, Int.add_zero]
  · rw [code, hasOuterOperator_append, front.closed, Int.add_zero, Bool.or_eq_true] at outer
    rw [hasOuterOperator_append, front.counted even, Int.add_zero, Bool.or_eq_true]
    exact outer.imp (front.follows even depth) (back.follows even depth)

theorem codeFrom_bracketed (measured : Measured isEven text) (opens : isOpening opening = true)
    (closing : Char) :
    codeFrom .code (opening :: text ++ [closing]) =
      opening :: codeFrom .code text ++ [closing] := by
  obtain ⟨_, _, stays⟩ := opening_spec opens
  rw [List.cons_append, codeFrom, stays, measured.codeFrom_append]
  rfl

section

variable (measured : Measured isEven text) (opens : isOpening opening = true)
  (closes : isClosing closing = true)
include measured opens closes

/-- Between brackets, an operator is not outside brackets. -/
theorem within_bracketed {depth : Int} (outside : 0 ≤ depth) :
    hasOuterOperator depth (codeFrom .code (opening :: text ++ [closing])) = false := by
  obtain ⟨up, noOperator, _⟩ := opening_spec opens
  obtain ⟨_, noOperatorEither, _⟩ := closing_spec closes
  rw [measured.codeFrom_bracketed opens, List.cons_append, hasOuterOperator_cons, noOperator, up,
    hasOuterOperator_append, measured.within (depth + 1) (by omega), hasOuterOperator_cons,
    noOperatorEither]
  rfl

theorem bracketed : Measured isEven (opening :: text ++ [closing]) := by
  have code := measured.codeFrom_bracketed opens closing
  obtain ⟨up, noOperator, first⟩ := opening_spec opens
  obtain ⟨down, noOperatorEither, last⟩ := closing_spec closes
  refine ⟨?_, ?_, ?_, fun k => ?_, fun depth inside => ?_, fun even => ?_,
    fun even depth outer => ?_⟩
  · rw [List.cons_append, List.foldl_cons, first, List.foldl_append, measured.settles]
    exact last
  · have other : '=' ≠ opening ∧ '=' ≠ closing := by
      constructor <;> rintro rfl
      · cases up
      · cases down
    rw [code]
    simp [measured.noEquals, other]
  · rw [code]
    simp [measured.closed, up, down]
  · rw [code]
    exact excess_take_bracketed up down measured.stays k
  · exact measured.within_bracketed opens closes (by omega)
  · have inner := measured.counted even
    simp [inner, up, down]
  · have none : ∀ d, hasOuterOperator d [closing] = false := fun d => by
      rw [hasOuterOperator_cons, noOperatorEither]
      rfl
    rw [code, List.cons_append, hasOuterOperator_cons, noOperator, Bool.false_and, Bool.false_or,
      hasOuterOperator_append, none, Bool.or_false] at outer
    rw [List.cons_append, hasOuterOperator_cons, hasOuterOperator_append,
      measured.follows even _ outer, Bool.true_or, Bool.or_true]

end

theorem intercalate {l : List (List Char)} (between : Measured isEven text)
    (each : ∀ piece ∈ l, Measured isEven piece) : Measured isEven (text.intercalate l) :=
  of_intercalate .nil .append between each

end Measured

/-! ### Words, numerals and literals -/

theorem isNeutral_of_isPart (part : Identifier.isPart c = true) : isNeutral c = true := by
  have range := Identifier.isPart_iff_toNat.1 part
  simp only [isNeutral, isMark, isOpening, isClosing, Bool.and_eq_true, Bool.not_eq_true',
    Bool.or_eq_false_iff, beq_eq_false_iff_ne, bne_iff_ne, ne_eq, ← Char.toNat_inj]
  simp
  omega

theorem isNeutral_of_isFigure (figure : isFigure c = true) : isNeutral c = true := by
  simp only [isFigure, Bool.or_eq_true, beq_iff_eq] at figure
  rcases figure with ((letter | rfl) | rfl) | rfl
  · apply isNeutral_of_isPart
    have range := Char.isAlphanum_iff_toNat.1 letter
    rw [Identifier.isPart_iff_toNat]
    omega
  all_goals rfl

theorem measured_word (word : ∀ c ∈ text, Identifier.isPart c = true) : Measured isEven text :=
  measured_of_neutral (List.all_eq_true.2 fun c member => isNeutral_of_isPart (word c member))

theorem measured_figures (figures : text.all isFigure = true) : Measured isEven text :=
  measured_of_neutral (List.all_eq_true.2 fun c member =>
    isNeutral_of_isFigure (List.all_eq_true.1 figures c member))

theorem excess_escapeUnit (unit : Nat) : excess (escapeUnit unit) = 0 := by
  have digits : ∀ c ∈ hexDigits 4 unit, bracketStep c = 0 := forall_mem_hexDigits (by decide) 4 unit
  rw [escapeUnit, excess_cons, excess_cons, excess_of_steps digits]
  rfl

/-- Escaping keeps brackets, and adds none. -/
theorem excess_escapeChar (c : Char) : excess (escapeChar c) = bracketStep c := by
  have letters : shortEscapes.all (fun short =>
      bracketStep short.1 == 0 && bracketStep short.2 == 0) = true := by decide
  have hidden : ¬(32 ≤ c.toNat ∧ c.toNat < 127) → bracketStep c = 0 := by
    intro outside
    rw [bracketStep, if_neg, if_neg]
    · intro closes
      rcases eq_of_isClosing closes with rfl | rfl | rfl | rfl <;> exact outside (by decide)
    · intro opens
      rcases eq_of_isOpening opens with rfl | rfl | rfl | rfl <;> exact outside (by decide)
  rcases escapeChar_cases c with ⟨e, short, shape⟩ | ⟨_, _, _, shape⟩ | ⟨outside, _, shape⟩ |
    ⟨offset, sum, _, shape⟩ <;> rw [shape]
  · have none := List.all_eq_true.1 letters _ short
    rw [Bool.and_eq_true, beq_iff_eq, beq_iff_eq] at none
    rw [none.1, excess_cons, excess_cons, none.2]
    rfl
  · rw [excess_cons, excess_nil, Int.add_zero]
  · rw [hidden outside, excess_escapeUnit]
  · rw [hidden (by omega), excess_append, excess_escapeUnit, excess_escapeUnit, Int.add_zero]

theorem excess_quote (text : String) : excess (quote text).toList = excess text.toList := by
  have inside : ∀ letters : List Char, excess (letters.flatMap escapeChar) = excess letters := by
    intro letters
    induction letters with
    | nil => rfl
    | cons c letters ih => rw [List.flatMap_cons, excess_append, ih, excess_escapeChar, excess_cons]
  rw [toList_quote, excess_cons, excess_append, inside]
  simp [bracketStep, isOpening, isClosing]

/-- The code of a quoted text is its first quote. -/
theorem measured_quote (text : String) :
    Measured (excess text.toList = 0) (quote text).toList := by
  obtain ⟨leads, noCode⟩ := silent_quoted text.toList
  have code : codeFrom .code (quote text).toList = ['"'] := by
    rw [toList_quote, codeFrom]
    exact congrArg (List.cons '"') noCode
  rw [← excess_quote]
  apply measured_of_mute
  · rw [toList_quote]
    exact leads
  · rw [code]
    intro c member
    rw [List.mem_singleton.1 member]
    exact ⟨rfl, rfl, by decide⟩

end

end Source

open Source

/-! ### Comments -/

namespace Comment

variable {indent : String} (spaces : ∀ c ∈ indent.toList, c = ' ')
include spaces

theorem excess_indent : excess indent.toList = 0 :=
  excess_of_steps fun c member => by
    rw [spaces c member]
    rfl

/-- Laying out a comment keeps the brackets of its lines, and adds none. -/
theorem excess_text (comment : Comment) :
    excess (comment.text indent).toList = excess (comment.lines.flatMap String.toList) := by
  have kept : ∀ line, excess (shown indent line) = excess line.toList := by
    intro line
    obtain ⟨blanks, parts, blank⟩ := exists_blanks (' ' :: line.toList)
    have none := excess_of_blank blank
    have whole := congrArg excess parts
    rw [excess_append, none, Int.add_zero, excess_cons] at whole
    rw [shown_eq, excess_append, excess_indent spaces, excess_cons, excess_cons, ← whole]
    simp [bracketStep, isOpening, isClosing]
  have each : ∀ lines : List String, excess ((lines.map (shown indent)).flatMap (· ++ ['\n'])) =
      excess (lines.flatMap String.toList) := by
    intro lines
    induction lines with
    | nil => rfl
    | cons line lines ih =>
      rw [List.map_cons, List.flatMap_cons, List.flatMap_cons, excess_append, excess_append, ih,
        excess_append, kept]
      simp [bracketStep, isOpening, isClosing]
  rw [toList_text, layout]
  split
  · next empty => rw [List.isEmpty_iff.1 empty]; rfl
  · simp only [List.flatMap_cons, List.flatMap_append, List.flatMap_nil, excess_append, each,
      excess_indent spaces]
    simp [bracketStep, isOpening, isClosing]

/-- The code of a comment is the indent and the mark that opens it, and the line feed after it. -/
theorem IsDescription.measured {comment : Comment} (described : comment.IsDescription) :
    Measured (excess (comment.lines.flatMap String.toList) = 0) (comment.text indent).toList := by
  rw [← excess_text spaces, toList_text, Comment.layout]
  split
  · exact .nil
  obtain ⟨leads, code⟩ := @codeFrom_of_not_isMark indent.toList fun c member => by
    rw [spaces c member]
    rfl
  have inside := silent_opening.append ((described.silent_lines spaces).append
    ((silent_spaces spaces).append silent_closing))
  have whole : ((indent.toList ++ ['/', '*', '*']) :: (comment.lines.map (shown indent) ++
      [indent.toList ++ [' ', '*', '/']])).flatMap (· ++ ['\n']) =
      indent.toList ++ ('/' :: '*' :: ((['*', '\n'] ++
        ((comment.lines.map (shown indent)).flatMap (· ++ ['\n']) ++
          (indent.toList ++ [' ', '*', '/']))) ++ ['\n'])) := by
    simp
  rw [whole]
  apply measured_of_mute
  · rw [List.foldl_append, leads, List.foldl_cons, List.foldl_cons, List.foldl_append]
    change List.foldl Place.after (List.foldl Place.after .blockComment _) ['\n'] = _
    rw [inside.leads]
    rfl
  · have parts : codeFrom .code ('/' :: '*' :: ((['*', '\n'] ++
        ((comment.lines.map (shown indent)).flatMap (· ++ ['\n']) ++
          (indent.toList ++ [' ', '*', '/']))) ++ ['\n'])) = ['/', '*', '\n'] := by
      change '/' :: '*' :: codeFrom .blockComment _ = _
      rw [codeFrom_append, inside.noCode, inside.leads]
      rfl
    rw [codeFrom_append, leads, code, parts]
    intro c member
    rcases List.mem_append.1 member with blank | mark
    · rw [spaces c blank]
      exact ⟨rfl, rfl, by decide⟩
    · simp only [List.mem_cons, List.not_mem_nil, or_false] at mark
      rcases mark with rfl | rfl | rfl <;> exact ⟨rfl, rfl, by decide⟩

end Comment

/-! ## The text of types -/

namespace TypeExpr

mutual

/-- The texts of the user in a type expression: string literals, descriptions and the names of
properties. -/
def userTexts : TypeExpr → List (List Char)
  | literal (.str s) => [s.toList]
  | union members => userTextsOf members
  | intersection parts own => userTextsOf parts ++ userTextsOf own
  | array item => userTexts item
  | tuple items rest => userTextsOf items ++ userTextsOf rest
  | sized item _ _ => userTexts item
  | object properties index => userTextsUnder properties ++ userTextsOf index
  | _ => []

/-- The texts of the user in several type expressions. -/
def userTextsOf : List TypeExpr → List (List Char)
  | [] => []
  | type :: rest => userTexts type ++ userTextsOf rest

/-- The texts of the user in properties. -/
def userTextsUnder : List (PropertyHead × TypeExpr) → List (List Char)
  | [] => []
  | (head, type) :: rest =>
    head.comment.lines.flatMap String.toList :: head.name.toList :: userTexts type ++
      userTextsUnder rest

end

theorem mem_userTextsOf {types : List TypeExpr} {t : TypeExpr} (member : t ∈ types) :
    t.userTexts ⊆ userTextsOf types := by
  induction types with
  | nil => cases member
  | cons type types ih =>
    intro text inside
    rw [userTextsOf, List.mem_append]
    rcases List.mem_cons.1 member with rfl | later
    · exact Or.inl inside
    · exact Or.inr (ih later inside)

theorem mem_userTextsUnder {properties : List (PropertyHead × TypeExpr)}
    {property : PropertyHead × TypeExpr} (member : property ∈ properties) :
    property.1.comment.lines.flatMap String.toList :: property.1.name.toList ::
      property.2.userTexts ⊆ userTextsUnder properties := by
  induction properties with
  | nil => cases member
  | cons first properties ih =>
    obtain ⟨head, type⟩ := first
    intro text inside
    rw [userTextsUnder, List.mem_append]
    rcases List.mem_cons.1 member with rfl | later
    · exact Or.inl inside
    · exact Or.inr (ih later inside)

/-- Each text of the user in a type opens as many brackets as it closes. -/
def IsEven (t : TypeExpr) : Prop :=
  ∀ text ∈ t.userTexts, excess text = 0

/-! If the texts of the user in a type are even, so are those in what stands directly in it. -/

namespace IsEven

variable {t u : TypeExpr} {types others : List TypeExpr}
variable {properties : List (PropertyHead × TypeExpr)} {entry : PropertyHead × TypeExpr}

theorem of_subset (even : IsEven t) (inside : u.userTexts ⊆ t.userTexts) : u.IsEven :=
  fun text isText => even text (inside isText)

theorem member (even : IsEven (.union types)) (inside : t ∈ types) : t.IsEven :=
  even.of_subset (mem_userTextsOf inside)

theorem part (even : IsEven (.intersection types others)) (inside : t ∈ types) : t.IsEven :=
  even.of_subset (List.Subset.trans (mem_userTextsOf inside) (List.subset_append_left _ _))

theorem own (even : IsEven (.intersection types others)) (inside : t ∈ others) : t.IsEven :=
  even.of_subset (List.Subset.trans (mem_userTextsOf inside) (List.subset_append_right _ _))

theorem item (even : IsEven (.tuple types others)) (inside : t ∈ types) : t.IsEven :=
  even.of_subset (List.Subset.trans (mem_userTextsOf inside) (List.subset_append_left _ _))

theorem rest (even : IsEven (.tuple types others)) (inside : t ∈ others) : t.IsEven :=
  even.of_subset (List.Subset.trans (mem_userTextsOf inside) (List.subset_append_right _ _))

theorem index (even : IsEven (.object properties types)) (inside : t ∈ types) : t.IsEven :=
  even.of_subset (List.Subset.trans (mem_userTextsOf inside) (List.subset_append_right _ _))

/-- The comment, the name and the type of a property of an object type. -/
theorem property (even : IsEven (.object properties types)) (inside : entry ∈ properties) :
    excess (entry.1.comment.lines.flatMap String.toList) = 0 ∧ excess entry.1.name.toList = 0 ∧
      entry.2.IsEven := by
  have own :=
    List.Subset.trans (mem_userTextsUnder inside) (List.subset_append_left _ (userTextsOf types))
  rw [List.cons_subset, List.cons_subset] at own
  exact ⟨even _ own.1, even _ own.2.1, even.of_subset own.2.2⟩

end IsEven

section

variable {isEven : Prop}

theorem measured_parenthesised {t : String} (measured : Measured isEven t.toList) :
    Measured isEven (parenthesised t).toList := by
  rw [parenthesised]
  split
  · rw [String.toList_append, String.toList_append]
    exact measured.bracketed (rfl : isOpening '(' = true) (rfl : isClosing ')' = true)
  · exact measured

theorem measured_intercalate {between : String} (neutral : between.toList.all isNeutral = true)
    {l : List String} (each : ∀ t ∈ l, Measured isEven t.toList) :
    Measured isEven (between.intercalate l).toList := by
  rw [String.toList_intercalate]
  refine (measured_of_neutral neutral).intercalate fun piece member => ?_
  obtain ⟨t, inside, rfl⟩ := List.mem_map.1 member
  exact each t inside

theorem measured_unionText {l : List String} (each : ∀ t ∈ l, Measured isEven t.toList) :
    Measured isEven (unionText l).toList := by
  rw [unionText]
  split
  · exact measured_of_neutral (by decide)
  · exact measured_intercalate (by decide) fun t member => each t (List.mem_eraseDups.1 member)

/-- Nothing between square brackets. -/
theorem measured_items : Measured isEven "[]".toList :=
  Measured.nil.bracketed (rfl : isOpening '[' = true) (rfl : isClosing ']' = true)

/-- A tuple stands in square brackets. -/
theorem exists_bracketed_tupleText {items rest : List String}
    (eachItem : ∀ t ∈ items, Measured isEven t.toList)
    (eachRest : ∀ t ∈ rest, Measured isEven t.toList) :
    ∃ inner, (tupleText items rest).toList = '[' :: inner ++ [']'] ∧ Measured isEven inner := by
  refine ⟨_, by rw [tupleText, String.toList_append, String.toList_append]; rfl,
    measured_intercalate (by decide) fun t member => ?_⟩
  rcases List.mem_append.1 member with item | more
  · exact eachItem t item
  · obtain ⟨type, inside, rfl⟩ := List.mem_map.1 more
    rw [String.toList_append, String.toList_append]
    exact ((measured_of_neutral (by decide)).append
      (measured_parenthesised (eachRest type inside))).append measured_items

theorem measured_tupleText {items rest : List String}
    (eachItem : ∀ t ∈ items, Measured isEven t.toList)
    (eachRest : ∀ t ∈ rest, Measured isEven t.toList) :
    Measured isEven (tupleText items rest).toList := by
  obtain ⟨inner, shape, measured⟩ := exists_bracketed_tupleText eachItem eachRest
  rw [shape]
  exact measured.bracketed rfl rfl

theorem measured_indent (level : Nat) : Measured isEven (indent level).toList :=
  measured_of_neutral (List.all_eq_true.2 fun c member => by
    rw [spaces_indent level c member]
    rfl)

theorem measured_keyText (name : String) :
    Measured (excess name.toList = 0) (keyText name).toList := by
  rw [keyText]
  split
  · next safe =>
    obtain ⟨word, parts, whole | whole⟩ := cases_of_isSafe safe
    · rw [whole]
      exact measured_word parts
    · rw [whole]
      exact (measured_word parts).append (measured_of_neutral rfl)
  · exact measured_quote name

theorem measured_propertyText (level : Nat) {head : PropertyHead} {type : String}
    (described : head.comment.IsDescription) (measured : Measured isEven type.toList)
    (evenComment : isEven → excess (head.comment.lines.flatMap String.toList) = 0)
    (evenName : isEven → excess head.name.toList = 0) :
    Measured isEven (propertyText level head type).toList := by
  have comment := (described.measured (spaces_indent level)).mono evenComment
  have key := (measured_keyText head.name).mono evenName
  have mark : Measured isEven (if head.isOptional then "?" else "").toList := by
    split <;> exact measured_of_neutral (by decide)
  simp only [propertyText, String.toList_append]
  exact (((((comment.append (measured_indent level)).append key).append mark).append
    (measured_of_neutral (by decide))).append measured).append (measured_of_neutral (by decide))

/-- An object type stands in braces. -/
theorem exists_braced_objectText (level : Nat) {properties index : List String}
    (eachProperty : ∀ line ∈ properties, Measured isEven line.toList)
    (eachIndex : ∀ t ∈ index, Measured isEven t.toList) :
    ∃ inner, (objectText level properties index).toList = '\x7b' :: inner ++ ['\x7d'] ∧
      Measured isEven inner := by
  have signature : Measured isEven "[k: string]".toList :=
    (measured_of_neutral (by decide : "k: string".toList.all isNeutral = true)).bracketed
      (rfl : isOpening '[' = true) (rfl : isClosing ']' = true)
  have eachLine : ∀ line ∈ properties ++ (if index.isEmpty then []
      else [indent level ++ "[k: string]: " ++ unionText index ++ ";"]),
      Measured isEven line.toList := by
    intro line member
    rcases List.mem_append.1 member with property | last
    · exact eachProperty line property
    · split at last
      · cases last
      · have parts : "[k: string]: ".toList = "[k: string]".toList ++ ": ".toList := rfl
        rw [List.mem_singleton.1 last]
        simp only [String.toList_append, parts]
        exact (((measured_indent level).append (signature.append
          (measured_of_neutral (by decide)))).append (measured_unionText eachIndex)).append
            (measured_of_neutral (by decide))
  unfold objectText
  revert eachLine
  generalize properties ++ (if index.isEmpty then []
    else [indent level ++ "[k: string]: " ++ unionText index ++ ";"]) = lines
  intro eachLine
  dsimp only
  split
  · exact ⟨[], rfl, .nil⟩
  · refine ⟨'\n' :: ("\n".intercalate lines).toList ++ '\n' :: (indent (level - 1)).toList, ?_, ?_⟩
    · have opening : "\x7b\n".toList = ['\x7b', '\n'] := rfl
      have stop : "\n".toList = ['\n'] := rfl
      have closing : "\x7d".toList = ['\x7d'] := rfl
      simp only [String.toList_append, opening, stop, closing]
      simp
    · have stop : Measured isEven ['\n'] := measured_of_neutral rfl
      exact (stop.append (measured_intercalate (by decide) eachLine)).append
        (stop.append (measured_indent _))

theorem measured_literalText (s : Scalar) :
    Measured (IsEven (.literal s)) (literalText s).toList := by
  rcases literalText_cases s with word | ⟨n, given⟩ | ⟨x, given⟩ | ⟨text, rfl, given⟩
  · have neutral : ∀ t ∈ ["null", "true", "false", "unknown"], t.toList.all isNeutral = true := by
      decide
    exact measured_of_neutral (neutral _ word)
  · exact given ▸ measured_figures (figures_ofInt n)
  · exact given ▸ measured_figures (figures_floatText x)
  · rw [given]
    refine (measured_quote text).mono fun even => even _ ?_
    rw [userTexts]
    exact List.mem_singleton_self _

end

/-- If the types in an object are measured right, so is what stands between its braces. -/
theorem exists_braced_text {properties : List (PropertyHead × TypeExpr)} {index : List TypeExpr}
    (described : ∀ property ∈ properties, property.1.comment.IsDescription) {level : Nat}
    (eachProperty : ∀ property ∈ properties,
      Measured property.2.IsEven (property.2.text (level + 1)).toList)
    (eachIndex : ∀ t ∈ index, Measured t.IsEven (t.text (level + 1)).toList) :
    ∃ inner, ((object properties index).text level).toList = '\x7b' :: inner ++ ['\x7d'] ∧
      Measured (object properties index).IsEven inner := by
  rw [text, texts_eq_map, propertyTexts_eq_map]
  refine exists_braced_objectText (level + 1) (fun line member => ?_) fun t member => ?_
  · obtain ⟨property, inside, rfl⟩ := List.mem_map.1 member
    exact measured_propertyText (level + 1) (described property inside)
      ((eachProperty property inside).mono fun even => (even.property inside).2.2)
      (fun even => (even.property inside).1) fun even => (even.property inside).2.1
  · obtain ⟨type, inside, rfl⟩ := List.mem_map.1 member
    exact (eachIndex type inside).mono fun even => even.index inside

section

variable {isRaw isName : String → Prop} (noRaw : ∀ text, ¬ isRaw text)
variable (words : ∀ text, isName text → ∀ c ∈ text.toList, Identifier.isPart c = true)
include noRaw words

/-- The text of a type expression without raw texts is measured right, at any level. -/
theorem measured_text {t : TypeExpr} (built : t.Built isRaw isName) (level : Nat) :
    Measured t.IsEven (t.text level).toList := by
  induction built generalizing level with
  | unknown =>
    rw [text]
    exact measured_of_neutral (by decide)
  | never =>
    rw [text]
    exact measured_of_neutral (by decide)
  | undefined =>
    rw [text]
    exact measured_of_neutral (by decide)
  | primitive type =>
    rw [text]
    cases type <;> exact measured_of_neutral (by decide)
  | literal value =>
    rw [text]
    exact measured_literalText value
  | name given =>
    rw [text]
    exact measured_word (words _ given)
  | raw given => exact absurd given (noRaw _)
  | @union members _ ih =>
    rw [text, texts_eq_map]
    refine measured_unionText fun t member => ?_
    obtain ⟨type, inside, rfl⟩ := List.mem_map.1 member
    exact (ih type inside level).mono fun even => even.member inside
  | @intersection parts own _ _ _ ihPart ihOwn =>
    have each : ∀ t ∈ (texts level parts).map parenthesised ++ texts level own,
        Measured (IsEven (.intersection parts own)) t.toList := by
      intro t member
      rw [texts_eq_map, texts_eq_map] at member
      rcases List.mem_append.1 member with part | mine
      · obtain ⟨shown, isShown, rfl⟩ := List.mem_map.1 part
        obtain ⟨type, inside, rfl⟩ := List.mem_map.1 isShown
        exact measured_parenthesised ((ihPart type inside level).mono fun even =>
          even.part inside)
      · obtain ⟨type, inside, rfl⟩ := List.mem_map.1 mine
        exact (ihOwn type inside level).mono fun even => even.own inside
    rw [text]
    split
    · exact measured_of_neutral (by decide)
    · exact measured_intercalate (by decide) each
  | array _ ih =>
    rw [text, String.toList_append]
    exact (measured_parenthesised ((ih level).mono fun even => even)).append measured_items
  | @tuple items rest _ _ ihItem ihRest =>
    rw [text, texts_eq_map, texts_eq_map]
    refine measured_tupleText (fun t member => ?_) fun t member => ?_
    · obtain ⟨type, inside, rfl⟩ := List.mem_map.1 member
      exact (ihItem type inside level).mono fun even => even.item inside
    · obtain ⟨type, inside, rfl⟩ := List.mem_map.1 member
      exact (ihRest type inside level).mono fun even => even.rest inside
  | @sized item least most _ ih =>
    rw [text]
    refine measured_intercalate (by decide) fun t member => ?_
    obtain ⟨size, _, rfl⟩ := List.mem_map.1 member
    refine measured_tupleText (fun u inside => ?_) (by simp)
    rw [List.eq_of_mem_replicate inside]
    exact (ih level).mono fun even => even
  | object described _ _ ihProperty ihIndex =>
    obtain ⟨inner, braced, measured⟩ := exists_braced_text described
      (fun property inside => ihProperty property inside (level + 1))
      (fun t inside => ihIndex t inside (level + 1))
    rw [braced]
    exact measured.bracketed rfl rfl

/-- The code of an object type has no operator outside brackets. -/
theorem hasOuterOperator_object {properties : List (PropertyHead × TypeExpr)}
    {index : List TypeExpr} (built : (object properties index).Built isRaw isName) (level : Nat) :
    hasOuterOperator 0 (codeFrom .code ((object properties index).text level).toList) = false := by
  cases built with
  | object described eachProperty eachIndex =>
    obtain ⟨inner, braced, measured⟩ := exists_braced_text described
      (fun property inside => measured_text noRaw words (eachProperty property inside) (level + 1))
      (fun t inside => measured_text noRaw words (eachIndex t inside) (level + 1))
    rw [braced]
    exact measured.within_bracketed rfl rfl (by omega)

end

end TypeExpr

end Typewright
