import Mathlib.Logic.Relation
import Typewright.Proofs.Compile.Printed
import Typewright.Proofs.TypeScript.Brackets
import Typewright.Proofs.TypeScript.Mentions

/-!
# Operands of printed types

An operand is a type whose text is printed before `[]` or between `&` (`TypeExpr.operands`). It is
delimited if no operator stands outside brackets in the code of its text, or if the text stands in
parentheses (`Operand.IsDelimited`). The compiler counts the brackets in literals and comments too.
So every operand is delimited whose texts of the user each open as many brackets as they close
(`Compile.operands_delimited`), and the array of two comparison operators is not
(`Compile.not_delimited_comparisons`).
-/

namespace Typewright

open Source

/-- A type where it is printed as an operand: the level of its lines, the text that is printed for
it, and what is printed after that. -/
structure Operand where
  type : TypeExpr
  level : Nat
  printed : String
  next : String

namespace Operand

/-- The text of the type itself. -/
def text (o : Operand) : String :=
  o.type.text o.level

/-- The text alone, if its code has no operator outside brackets, or the text in parentheses. -/
def IsDelimited (o : Operand) : Prop :=
  o.printed = o.text ∧ TypeExpr.hasOuterOperator 0 (codeFrom .code o.text.toList) = false ∨
    o.printed = "(" ++ o.text ++ ")"

instance (o : Operand) : Decidable o.IsDelimited :=
  inferInstanceAs (Decidable (_ ∧ _ ∨ _))

/-- An operand that is put into parentheses where needed. -/
def ofParenthesised (level : Nat) (next : String) (t : TypeExpr) : Operand :=
  ⟨t, level, TypeExpr.parenthesised (t.text level), next⟩

/-- An operand that is printed as it is. -/
def ofBare (level : Nat) (t : TypeExpr) : Operand :=
  ⟨t, level, t.text level, ""⟩

end Operand

namespace TypeExpr

/-- The operands that a type prints: items of arrays, what a tuple goes on with, and the members of
intersections. -/
def operands (level : Nat) : TypeExpr → List Operand
  | array item => [.ofParenthesised level "[]" item]
  | tuple _ rest => rest.map (.ofParenthesised level "[]")
  | intersection parts own => parts.map (.ofParenthesised level "") ++ own.map (.ofBare level)
  | _ => []

/-- A type, with the level of its lines, that stands in another. -/
def StandsIn (inner outer : Nat × TypeExpr) : Prop :=
  Relation.ReflTransGen (fun whole part => part ∈ whole.2.parts whole.1) outer inner

theorem StandsIn.infix {inner outer : Nat × TypeExpr} (stands : StandsIn inner outer) :
    (inner.2.text inner.1).toList <:+: (outer.2.text outer.1).toList := by
  induction stands with
  | refl => exact List.infix_rfl
  | tail _ member ih => exact (infix_text_of_mem_parts member).trans ih

theorem StandsIn.built {isRaw isName : String → Prop} {inner outer : Nat × TypeExpr}
    (stands : StandsIn inner outer) (built : outer.2.Built isRaw isName) :
    inner.2.Built isRaw isName := by
  induction stands with
  | refl => exact built
  | tail _ member ih => exact ih.part member

/-- What is printed for an operand, and after it, stands in the text of the type. -/
theorem infix_text_of_mem_operands {t : TypeExpr} {level : Nat} {o : Operand}
    (member : o ∈ t.operands level) :
    (o.printed ++ o.next).toList <:+: (t.text level).toList := by
  cases t with
  | unknown | never | undefined | primitive | literal | name | raw | union | sized | object =>
    cases member
  | array item =>
    rw [operands, List.mem_singleton] at member
    rw [member, text]
    exact List.infix_rfl
  | tuple items rest =>
    obtain ⟨u, inside, rfl⟩ := List.mem_map.1 member
    rw [text, texts_eq_map, texts_eq_map, tupleText]
    have shown : (parenthesised (u.text level) ++ "[]").toList <:+:
        ("..." ++ parenthesised (u.text level) ++ "[]").toList := by
      rw [String.append_assoc]
      exact infix_append_right List.infix_rfl
    refine infix_append_left (infix_append_right (shown.trans (infix_intercalate ?_)))
    exact List.mem_append_right _ (List.mem_map_of_mem (List.mem_map_of_mem inside))
  | intersection parts own =>
    have shown : o.printed ∈ (texts level parts).map parenthesised ++ texts level own ∧
        o.next = "" := by
      rw [texts_eq_map, texts_eq_map]
      rcases List.mem_append.1 member with part | mine
      · obtain ⟨u, inside, rfl⟩ := List.mem_map.1 part
        exact ⟨List.mem_append_left _ (List.mem_map_of_mem (List.mem_map_of_mem inside)), rfl⟩
      · obtain ⟨u, inside, rfl⟩ := List.mem_map.1 mine
        exact ⟨List.mem_append_right _ (List.mem_map_of_mem inside), rfl⟩
    obtain ⟨isShown, alone⟩ := shown
    have inhabited :
        ¬ ((texts level parts).map parenthesised ++ texts level own).isEmpty = true := by
      rw [List.isEmpty_iff]
      exact List.ne_nil_of_mem isShown
    rw [text, if_neg inhabited, alone, String.append_empty]
    exact infix_intercalate isShown

/-- An even text gets parentheses if its code needs them. -/
theorem isDelimited_ofParenthesised {level : Nat} {t : TypeExpr}
    (measured : Measured t.IsEven (t.text level).toList) (even : t.IsEven) (next : String) :
    (Operand.ofParenthesised level next t).IsDelimited := by
  by_cases outer : hasOuterOperator 0 (t.text level).toList = true
  · refine Or.inr ?_
    change parenthesised (t.text level) = _
    rw [parenthesised, if_pos outer]
    rfl
  · refine Or.inl ⟨?_, ?_⟩
    · change parenthesised (t.text level) = _
      rw [parenthesised, if_neg outer]
      rfl
    · -- what the code has, the count of all brackets would have found
      rw [Bool.eq_false_iff]
      intro inCode
      exact outer (measured.follows even 0 inCode)

section

variable {isRaw isName : String → Prop} (noRaw : ∀ text, ¬ isRaw text)
variable (words : ∀ text, isName text → ∀ c ∈ text.toList, Identifier.isPart c = true)
include noRaw words

theorem isDelimited_of_mem_operands {t : TypeExpr} (built : t.Built isRaw isName) {level : Nat}
    {o : Operand} (member : o ∈ t.operands level) (even : o.type.IsEven) : o.IsDelimited := by
  have delimited : ∀ {u : TypeExpr} (next : String), u.Built isRaw isName → u.IsEven →
      (Operand.ofParenthesised level next u).IsDelimited := fun next built even =>
    isDelimited_ofParenthesised (measured_text noRaw words built level) even next
  cases built with
  | unknown | never | undefined | primitive | literal | name | raw | union | sized | object =>
    cases member
  | array inside =>
    rw [operands, List.mem_singleton] at member
    rw [member] at even ⊢
    exact delimited "[]" inside even
  | tuple _ eachRest =>
    obtain ⟨u, inside, rfl⟩ := List.mem_map.1 member
    exact delimited "[]" (eachRest u inside) even
  | intersection eachPart eachOwn objects =>
    rcases List.mem_append.1 member with part | mine
    · obtain ⟨u, inside, rfl⟩ := List.mem_map.1 part
      exact delimited "" (eachPart u inside) even
    · -- own objects stand in braces
      obtain ⟨u, inside, rfl⟩ := List.mem_map.1 mine
      obtain ⟨properties, index, rfl⟩ := objects u inside
      exact Or.inl ⟨rfl, hasOuterOperator_object noRaw words (eachOwn _ inside) level⟩

end

end TypeExpr

/-- The types that the body of a declaration prints. -/
def DeclarationBody.types : DeclarationBody → List TypeExpr
  | interface type => [type]
  | constEnum members => members.map (·.2)
  | «alias» type => [type]

theorem DeclarationBody.Built.type {isRaw isName : String → Prop} {body : DeclarationBody}
    (built : body.Built isRaw isName) {t : TypeExpr} (member : t ∈ body.types) :
    t.Built isRaw isName := by
  cases built with
  | interface built =>
    rw [List.mem_singleton.1 member]
    exact built
  | constEnum _ values =>
    obtain ⟨m, inside, rfl⟩ := List.mem_map.1 member
    exact values m inside
  | aliased built =>
    rw [List.mem_singleton.1 member]
    exact built

theorem Declaration.infix_text_of_mem_types {d : Declaration} {t : TypeExpr}
    (member : t ∈ d.body.types) : (t.text 0).toList <:+: d.text.toList := by
  refine TypeExpr.infix_append_right ?_
  cases shape : d.body with
  | interface type =>
    rw [shape] at member
    rw [List.mem_singleton.1 member]
    exact TypeExpr.infix_append_right List.infix_rfl
  | constEnum members =>
    rw [shape] at member
    obtain ⟨m, inside, rfl⟩ := List.mem_map.1 member
    rw [bareText_constEnum]
    exact TypeExpr.infix_append_left (TypeExpr.infix_append_right
      ((TypeExpr.infix_append_right List.infix_rfl).trans
        (TypeExpr.infix_intercalate (List.mem_map_of_mem inside))))
  | «alias» type =>
    rw [shape] at member
    rw [List.mem_singleton.1 member]
    exact TypeExpr.infix_append_left (TypeExpr.infix_append_right List.infix_rfl)

/-- An operand that is printed somewhere in a declaration. -/
def Declaration.HasOperand (d : Declaration) (o : Operand) : Prop :=
  ∃ t ∈ d.body.types, ∃ inner, TypeExpr.StandsIn inner (0, t) ∧ o ∈ inner.2.operands inner.1

namespace Compile

/-- Without raw texts, wherever an operand is printed in a declaration, it is delimited if the texts
of the user in it are even. -/
theorem operands_delimited {g : Graph} {root : Nat} {options : Options} {source : Source}
    (plain : NoTypeTexts ⟨g, root, options⟩)
    (made : Compile.source g (.node root) options = .ok source) {d : Declaration}
    (member : d ∈ source.declarations) {o : Operand} (isOperand : d.HasOperand o) :
    (o.printed ++ o.next).toList <:+: d.text.toList ∧ (o.type.IsEven → o.IsDelimited) := by
  obtain ⟨t, isType, inner, stands, printed⟩ := isOperand
  have built := (isTame_of_source plain made d member).body.type isType
  constructor
  · exact ((TypeExpr.infix_text_of_mem_operands printed).trans stands.infix).trans
      (Declaration.infix_text_of_mem_types isType)
  · apply TypeExpr.isDelimited_of_mem_operands (fun _ given => given)
      (fun _ (isName : Naming.IsName _) => isName.settled.part) (stands.built built) printed

/-- Whether a declaration prints an operand of a kind as its type. -/
def Source.printsOperand (source : Source) (kind : Operand → Bool) : Bool :=
  source.declarations.any fun d => d.body.types.any fun t => (t.operands 0).any kind

theorem exists_of_printsOperand {source : Source} {kind : Operand → Bool}
    (prints : source.printsOperand kind = true) :
    ∃ d ∈ source.declarations, ∃ o, d.HasOperand o ∧ kind o = true := by
  obtain ⟨d, member, prints⟩ := List.any_eq_true.1 prints
  obtain ⟨t, isType, prints⟩ := List.any_eq_true.1 prints
  obtain ⟨o, isOperand, isKind⟩ := List.any_eq_true.1 prints
  exact ⟨d, member, o, ⟨t, isType, (0, t), .refl, isOperand⟩, isKind⟩

/-- An array of some of the given values. -/
def arrayOfChoices (choices : List Value) : Graph :=
  ⟨#[.mapping [(.str "title", .str "A"), (.str "type", .str "array"), (.str "items", .node 1)],
    .mapping [(.str "enum", .node 2)], .sequence choices]⟩

theorem operands_delimited_paired_brackets : ∃ source d o,
    Compile.source (arrayOfChoices [.str "<T>", .str "|"]) (.node 0) {} = .ok source ∧
    NoTypeTexts ⟨arrayOfChoices [.str "<T>", .str "|"], 0, {}⟩ ∧
    d ∈ source.declarations ∧ d.HasOperand o ∧ o.type.IsEven ∧
    o.text = "\"<T>\" | \"|\"" ∧ o.IsDelimited := by
  obtain ⟨source, made, prints⟩ : ∃ source,
      Compile.source (arrayOfChoices [.str "<T>", .str "|"]) (.node 0) {} = .ok source ∧
      source.printsOperand (fun o => o.text == "\"<T>\" | \"|\"" &&
        o.type.userTexts.all fun text => excess text == 0) = true :=
    exists_of_toOption_map (by decide +kernel)
  obtain ⟨d, member, o, isOperand, kind⟩ := exists_of_printsOperand prints
  rw [Bool.and_eq_true, beq_iff_eq] at kind
  have even : o.type.IsEven := by simpa [TypeExpr.IsEven] using kind.2
  have plain : NoTypeTexts ⟨arrayOfChoices [.str "<T>", .str "|"], 0, {}⟩ :=
    noTypeTexts_of_hasNoTypeTexts (by decide)
  exact ⟨source, d, o, made, plain, member, isOperand, even, kind.1,
    (operands_delimited plain made member isOperand).2 even⟩

/-- Comparison operators are brackets to the count: the one in the first literal hides the operator
behind it. -/
theorem not_delimited_comparisons : ∃ source d o,
    Compile.source (arrayOfChoices [.str ">", .str "<"]) (.node 0) {} = .ok source ∧
    NoTypeTexts ⟨arrayOfChoices [.str ">", .str "<"], 0, {}⟩ ∧
    d ∈ source.declarations ∧ d.HasOperand o ∧
    o.printed ++ o.next = "\">\" | \"<\"[]" ∧ ¬ o.IsDelimited := by
  obtain ⟨source, made, prints⟩ : ∃ source,
      Compile.source (arrayOfChoices [.str ">", .str "<"]) (.node 0) {} = .ok source ∧
      source.printsOperand (fun o => o.printed ++ o.next == "\">\" | \"<\"[]" &&
        !decide o.IsDelimited) = true :=
    exists_of_toOption_map (by decide +kernel)
  obtain ⟨d, member, o, isOperand, kind⟩ := exists_of_printsOperand prints
  rw [Bool.and_eq_true, beq_iff_eq, Bool.not_eq_true', decide_eq_false_iff_not] at kind
  exact ⟨source, d, o, made, noTypeTexts_of_hasNoTypeTexts (by decide), member, isOperand, kind⟩

end Compile

end Typewright
