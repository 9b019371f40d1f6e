import Typewright.Proofs.TypeScript.Blocks
import Typewright.Proofs.TypeScript.Types

/-!
# Declarations as blocks

A declaration without raw texts is a block (`Declaration.block`): its comment is a lead, and the
readers of source text see its head, with as much of its name as is made of word characters, unless
it is a constant enumeration or its name begins with a dollar sign (`Declaration.headOf`).
-/

namespace Typewright

open Text Source

/-! ## Comments as leads -/

namespace Comment

variable {comment : Comment}

theorem toList_text_empty_cases (comment : Comment) :
    (comment.lines = [] ∧ (comment.text "").toList = []) ∨
      (comment.lines ≠ [] ∧ (comment.text "").toList =
        '/' :: ((['*', '*'] :: (comment.lines.map (shown "") ++ [[' ', '*', '/']])).flatMap
          (· ++ ['\n']))) := by
  rw [toList_text, layout]
  by_cases none : comment.lines = []
  · exact Or.inl ⟨none, by simp [none]⟩
  · exact Or.inr ⟨none, by simp [none]⟩

theorem IsDescription.isLead (described : comment.IsDescription) :
    IsLead (comment.text "").toList := by
  refine ⟨(described.quiet (by simp)).skips, fun inhabited => ?_⟩
  rcases toList_text_empty_cases comment with ⟨_, empty⟩ | ⟨_, shape⟩
  · exact absurd empty inhabited
  · rw [shape]
    constructor
    · exact ⟨[], _, by simp [List.flatMap_cons]; rfl⟩
    · refine ⟨'/' :: (['*', '*'] :: (comment.lines.map (shown ""))).flatMap (· ++ ['\n']) ++ [' '], ?_⟩
      simp [List.flatMap_append]

/-- Nothing stands in front of the last opening in a comment exactly if no line of it has one. -/
theorem front_eq_nil_iff (comment : Comment) : front (comment.text "").toList = [] ↔
    ∀ line ∈ comment.lines, ¬ ['/', '*'] <:+: line.toList := by
  rcases toList_text_empty_cases comment with ⟨none, empty⟩ | ⟨_, shape⟩
  · simp [none, empty, front, opening, findLast?]
  · have first : ['/', '*'] <+: (comment.text "").toList := by
      rw [shape]
      exact ⟨_, by simp [List.flatMap_cons]; rfl⟩
    have whole : findLast? ['/', '*'] (comment.text "").toList = some 0 ↔
        ∀ line ∈ comment.lines, ¬ ['/', '*'] <:+: line.toList := by
      rw [shape]
      rw [findLast?_cons_eq_zero_iff (by simp), pair_infix_flatMap_iff (by decide) (by decide)]
      have inside : ∀ line, ['/', '*'] <:+: shown "" line ↔ ['/', '*'] <:+: line.toList :=
        pair_infix_shown_iff (by simp) (by decide) (by decide)
      have opens : ¬ ['/', '*'] <:+: ['*', '*'] := by decide
      have closes : ¬ ['/', '*'] <:+: [' ', '*', '/'] := by decide
      simp [inside, opens, closes]
    rw [← whole, front, List.take_eq_nil_iff, opening]
    have inhabited : (comment.text "").toList ≠ [] := by
      rw [shape]
      simp
    cases found : findLast? ['/', '*'] (comment.text "").toList with
    | none => exact absurd first.isInfix ((findLast?_eq_none_iff (by simp)).1 found)
    | some offset => simp [inhabited]

end Comment

/-! ## Heads -/

namespace Source

/-- The word characters that a name begins with. -/
def leadingWord (name : String) : List Char :=
  name.toList.takeWhile isWord

theorem isWord_of_isPart {c : Char} (part : Identifier.isPart c = true) :
    isWord c = (c != '$') := by
  have small := Identifier.toNat_lt_of_isPart part
  have range := Identifier.isPart_iff_toNat.1 part
  rw [isWord, if_pos small, Bool.eq_iff_iff]
  simp only [Bool.or_eq_true, beq_iff_eq, bne_iff_ne, ne_eq, Char.isAlphanum_iff_toNat,
    ← Char.toNat_inj]
  change (_ ∨ c.toNat = 95) ↔ ¬ c.toNat = 36
  omega

theorem takeWhile_name {name : List Char} (rest : List Char) :
    (name ++ ' ' :: rest).takeWhile isWord = name.takeWhile isWord := by
  have stops : isWord ' ' = false := by decide
  induction name with
  | nil => simp [stops]
  | cons c name ih => simp [List.takeWhile_cons, ih]

/-- The words before the name of an interface or an alias. -/
def keywords (isInterface : Bool) : List Char :=
  if isInterface then "export interface ".toList else "export type ".toList

/-- The head of an interface or an alias. -/
theorem head?_keywords (isInterface : Bool) {name : String} (isName : Naming.IsName name)
    (rest : List Char) :
    head? (keywords isInterface ++ (name.toList ++ ' ' :: rest)) =
      if (leadingWord name).isEmpty then none
      else some ⟨isInterface, leadingWord name,
        (keywords isInterface).length + (leadingWord name).length⟩ := by
  rw [leadingWord]
  have parts := isName.settled.part
  have inhabited := isName.toList_ne_nil
  revert parts inhabited
  generalize name.toList = letters
  intro parts inhabited
  obtain ⟨c, letters, rfl⟩ := List.exists_cons_of_ne_nil inhabited
  have visible := Identifier.isBlank_eq_false_of_isPart (parts c List.mem_cons_self)
  have space : isBlank ' ' = true := by decide
  have named : afterBlanks? (' ' :: (c :: letters ++ ' ' :: rest)) =
      some (c :: letters ++ ' ' :: rest) := by
    simp [afterBlanks?, visible, space]
  have title := @takeWhile_name (c :: letters) rest
  have exported : ∃ text, afterWord? "export" (keywords isInterface ++ (c :: letters ++ ' ' :: rest)) =
      some (' ' :: text) ∧ afterBlanks? (' ' :: text) = some text ∧
      keyword? text = some (isInterface, ' ' :: (c :: letters ++ ' ' :: rest)) := by
    cases isInterface with
    | true => exact ⟨"interface ".toList ++ (c :: letters ++ ' ' :: rest), rfl, rfl, rfl⟩
    | false => exact ⟨"type ".toList ++ (c :: letters ++ ' ' :: rest), rfl, rfl, rfl⟩
  obtain ⟨text, word, blanks, key⟩ := exported
  simp only [head?, word, Option.bind_eq_bind, Option.bind_some, blanks, key, named, title]
  split
  · rfl
  · simp only [List.length_append]
    congr 2
    omega

/-- A text that no head begins with, and that none begins in from the middle of a line. -/
theorem skips_of_head?_eq_none {text : List Char} (inhabited : text ≠ [])
    (none : ∀ rest, head? (text ++ rest) = Option.none) (skips : Skips false text false) :
    Skips true text false := by
  obtain ⟨c, letters, rfl⟩ := List.exists_cons_of_ne_nil inhabited
  intro rest
  rw [← skips rest, List.cons_append, findHead?, findHead?, ← List.cons_append, none]
  simp

end Source

/-! ## Blocks -/

/-- The body of a declaration built of given raw texts and names. -/
inductive DeclarationBody.Built (isRaw isName : String → Prop) : DeclarationBody → Prop
  | interface {properties : List (PropertyHead × TypeExpr)} {index : List TypeExpr}
      (built : (TypeExpr.object properties index).Built isRaw isName) :
      Built isRaw isName (.interface (.object properties index))
  | constEnum {members : List (String × TypeExpr)}
      (words : ∀ m ∈ members, ∀ c ∈ m.1.toList, Identifier.isPart c = true)
      (values : ∀ m ∈ members, m.2.Built isRaw isName) : Built isRaw isName (.constEnum members)
  | aliased {t : TypeExpr} (built : t.Built isRaw isName) : Built isRaw isName (.alias t)

namespace Declaration

/-- A declaration without raw texts, as compilation gives them. -/
structure IsTame (d : Declaration) : Prop where
  described : d.comment.IsDescription
  isName : Naming.IsName d.name
  body : d.body.Built (fun _ => False) Naming.IsName

/-- The head that is read of a declaration. -/
def headOf (d : Declaration) : Option Head :=
  let head (isInterface : Bool) : Option Head :=
    if (leadingWord d.name).isEmpty then none
    else some ⟨isInterface, leadingWord d.name,
      (keywords isInterface).length + (leadingWord d.name).length⟩
  match d.body with
  | .constEnum _ => none
  | .interface _ => head true
  | .alias _ => head false

theorem inert_keywords (isInterface : Bool) : Inert (keywords isInterface) := by
  cases isInterface <;> exact inert_of_plain (by decide)

section

variable {name : String} (isName : Naming.IsName name)
include isName

theorem name_parts : ∃ more, name.toList = leadingWord name ++ more ∧
    ∀ c ∈ more, Identifier.isPart c = true :=
  ⟨name.toList.dropWhile isWord, (List.takeWhile_append_dropWhile).symm,
    fun c member => isName.settled.part c ((List.dropWhile_suffix _).subset member)⟩

theorem inert_name : Inert name.toList :=
  inert_word isName.settled.part

/-- An interface, as the readers see it. -/
theorem reads_interface {type : List Char} (braced : TypeExpr.IsBraced type) :
    Reads (if (leadingWord name).isEmpty then none
      else some ⟨true, leadingWord name, (keywords true).length + (leadingWord name).length⟩)
      (keywords true ++ (name.toList ++ ' ' :: type)) := by
  have found := fun rest => head?_keywords true isName (type ++ rest)
  have space : Inert [' '] := inert_of_plain (by decide)
  have inert : Inert (keywords true ++ (name.toList ++ ' ' :: type)) :=
    (inert_keywords true).append ((inert_name isName).append (space.append braced.inert))
  have regrouped : ∀ rest, keywords true ++ (name.toList ++ ' ' :: type) ++ rest =
      keywords true ++ (name.toList ++ ' ' :: (type ++ rest)) := by
    intro rest
    simp
  by_cases unread : (leadingWord name).isEmpty = true
  · rw [if_pos unread]
    refine .silent (skips_of_head?_eq_none (by simp [keywords]) (fun rest => ?_) inert.quiet.skips)
    rw [regrouped, found, if_pos unread]
  · rw [if_neg unread]
    obtain ⟨more, shape, parts⟩ := name_parts isName
    obtain ⟨inner, isBraced, crosses, _⟩ := braced
    have whole : keywords true ++ (name.toList ++ ' ' :: type) =
        (keywords true ++ leadingWord name) ++ (more ++ [' '] ++ type) := by
      rw [shape]
      simp
    rw [whole, ← List.length_append]
    refine .interface (fun rest => ?_) (fun offset rest => ?_) ?_
    · rw [← whole, regrouped, found, if_neg unread, List.length_append]
    · have plain : ∀ c ∈ more ++ [' '], isMark c = false := by
        intro c member
        rcases List.mem_append.1 member with part | blank
        · have ordinary := isPlain_of_isPart (parts c part)
          simp only [isPlain, Bool.and_eq_true, Bool.not_eq_true'] at ordinary
          exact ordinary.1
        · rw [List.mem_singleton.1 blank]
          decide
      have closed := @bracePairFrom?_braced (more ++ [' ']) inner rest plain crosses offset
      refine ⟨offset + (more ++ [' ']).length, ?_⟩
      rw [isBraced, ← List.append_assoc, List.append_assoc _ ['\x7d'], List.singleton_append, closed]
      simp only [List.length_append, List.length_cons, List.length_nil]
      congr 2
      omega
    · simp

/-- An alias, as the readers see it. -/
theorem reads_alias {type : List Char} (inert : Inert type) :
    Reads (if (leadingWord name).isEmpty then none
      else some ⟨false, leadingWord name, (keywords false).length + (leadingWord name).length⟩)
      (keywords false ++ (name.toList ++ ' ' :: ('=' :: ' ' :: type ++ [';']))) := by
  have found := fun rest => head?_keywords false isName ('=' :: ' ' :: type ++ [';'] ++ rest)
  have equals : Inert [' ', '=', ' '] := inert_of_plain (by decide)
  have semicolon : Inert [';'] := inert_of_plain (by decide)
  have value : Inert (' ' :: ('=' :: ' ' :: type ++ [';'])) :=
    equals.append (inert.append semicolon)
  have regrouped : ∀ rest, keywords false ++ (name.toList ++ ' ' :: ('=' :: ' ' :: type ++ [';'])) ++
      rest = keywords false ++ (name.toList ++ ' ' :: ('=' :: ' ' :: type ++ [';'] ++ rest)) := by
    intro rest
    simp
  by_cases unread : (leadingWord name).isEmpty = true
  · rw [if_pos unread]
    refine .silent (skips_of_head?_eq_none (by simp [keywords]) (fun rest => ?_)
      ((inert_keywords false).append ((inert_name isName).append value)).quiet.skips)
    rw [regrouped, found, if_pos unread]
  · rw [if_neg unread]
    obtain ⟨more, shape, parts⟩ := name_parts isName
    have whole : keywords false ++ (name.toList ++ ' ' :: ('=' :: ' ' :: type ++ [';'])) =
        (keywords false ++ leadingWord name) ++ (more ++ ' ' :: ('=' :: ' ' :: type ++ [';'])) := by
      rw [shape]
      simp
    rw [whole, ← List.length_append]
    refine .aliased (fun rest => ?_) ((inert_word parts).append value).quiet.skips
    rw [← whole, regrouped, found, if_neg unread, List.length_append]

end

/-- The lines of a constant enumeration and its closing brace. -/
theorem skips_enumLines {lines : List (List Char)} (each : ∀ line ∈ lines, Skips true line false) :
    Skips true ([',', '\n'].intercalate lines ++ ['\n', '\x7d']) false := by
  have closing : ∀ start, Skips start ['\n', '\x7d'] false := fun start =>
    (@skips_char '\n' start fun _ => by decide).cons (@skips_char '\x7d' true (by decide))
  have comma : Skips false [',', '\n'] true :=
    (@skips_char ',' false (by simp)).cons (@skips_char '\n' false (by simp))
  induction lines with
  | nil => exact closing true
  | cons line lines ih =>
    have first := each line List.mem_cons_self
    have later := ih fun line member => each line (List.mem_cons_of_mem _ member)
    cases lines with
    | nil =>
      rw [List.intercalate_singleton]
      exact first.append (closing false)
    | cons next lines =>
      rw [List.intercalate_cons_cons, List.append_assoc, List.append_assoc]
      exact first.append (comma.append later)

theorem bareText_interface (name : String) (type : TypeExpr) :
    bareText name (.interface type) = "export interface " ++ name ++ " " ++ type.text 0 :=
  rfl

theorem bareText_alias (name : String) (type : TypeExpr) :
    bareText name (.alias type) = "export type " ++ name ++ " = " ++ type.text 0 ++ ";" :=
  rfl

theorem bareText_constEnum (name : String) (members : List (String × TypeExpr)) :
    bareText name (.constEnum members) = "export const enum " ++ name ++ " \x7b\n" ++
      ",\n".intercalate (members.map fun m =>
        TypeExpr.indent 1 ++ m.1 ++ " = " ++ m.2.text 0) ++ "\n\x7d" :=
  rfl

/-- A constant enumeration, as the readers see it. -/
theorem reads_constEnum {name : String} (isName : Naming.IsName name)
    {members : List (String × TypeExpr)}
    (words : ∀ m ∈ members, ∀ c ∈ m.1.toList, Identifier.isPart c = true)
    (values : ∀ m ∈ members, m.2.Built (fun _ => False) Naming.IsName) :
    Reads none (bareText name (.constEnum members)).toList := by
  have each : ∀ line ∈ members.map fun m =>
      (TypeExpr.indent 1 ++ m.1 ++ " = " ++ m.2.text 0).toList, Skips true line false := by
    intro line member
    obtain ⟨m, inside, rfl⟩ := List.mem_map.1 member
    have value := TypeExpr.inert_text (fun _ => id) (fun _ isName => isName.settled.part)
      (values m inside) 0
    simp only [String.toList_append, List.append_assoc]
    exact ((TypeExpr.quiet_indent 0).append (((inert_word (words m inside)).append
      ((inert_of_plain (by decide)).append value)).quiet)).skips
  have parts : (bareText name (.constEnum members)).toList =
      "export const enum ".toList ++ (name.toList ++ ([' ', '\x7b', '\n'] ++
        ([',', '\n'].intercalate (members.map fun m =>
          (TypeExpr.indent 1 ++ m.1 ++ " = " ++ m.2.text 0).toList) ++ ['\n', '\x7d']))) := by
    have opening : " \x7b\n".toList = [' ', '\x7b', '\n'] := rfl
    have comma : ",\n".toList = [',', '\n'] := rfl
    have closing : "\n\x7d".toList = ['\n', '\x7d'] := rfl
    simp only [bareText_constEnum, String.toList_append, String.toList_intercalate, List.map_map,
      opening, comma, closing, Function.comp_def, List.append_assoc]
  have toLine : Skips false [' ', '\x7b', '\n'] true :=
    (@skips_char ' ' false (by simp)).cons ((@skips_char '\x7b' false (by simp)).cons
      (@skips_char '\n' false (by simp)))
  have start : Inert "export const enum ".toList := inert_of_plain (by decide)
  rw [parts]
  refine .silent (skips_of_head?_eq_none (by simp) (fun rest => rfl) (start.quiet.skips.append
    ((inert_name isName).quiet.skips.append (toLine.append (skips_enumLines each)))))

theorem toList_interface (name : String) (type : TypeExpr) :
    (bareText name (.interface type)).toList =
      keywords true ++ (name.toList ++ ' ' :: (type.text 0).toList) := by
  have space : " ".toList = [' '] := rfl
  simp only [bareText_interface, keywords, if_true, String.toList_append, space, List.append_assoc,
    List.singleton_append]

theorem toList_alias (name : String) (type : TypeExpr) :
    (bareText name (.alias type)).toList =
      keywords false ++ (name.toList ++ ' ' :: ('=' :: ' ' :: (type.text 0).toList ++ [';'])) := by
  have equals : " = ".toList = [' ', '=', ' '] := rfl
  have semicolon : ";".toList = [';'] := rfl
  simp only [bareText_alias, keywords, Bool.false_eq_true, if_false, String.toList_append, equals,
    semicolon, List.append_assoc, List.cons_append, List.nil_append]

namespace IsTame

variable {d : Declaration} (tame : d.IsTame)
include tame

theorem reads : Reads d.headOf (bareText d.name d.body).toList := by
  have words : ∀ text, Naming.IsName text → ∀ c ∈ text.toList, Identifier.isPart c = true :=
    fun _ isName => isName.settled.part
  have body := tame.body
  rw [headOf]
  cases shape : d.body with
  | interface type =>
    rw [shape] at body
    cases body with
    | interface built =>
      rw [toList_interface]
      exact reads_interface tame.isName (TypeExpr.isBraced_text (fun _ => id) words built 0)
  | constEnum members =>
    rw [shape] at body
    cases body with
    | constEnum areWords values => exact reads_constEnum tame.isName areWords values
  | «alias» type =>
    rw [shape] at body
    cases body with
    | aliased built =>
      rw [toList_alias]
      exact reads_alias tame.isName (TypeExpr.inert_text (fun _ => id) words built 0)

theorem ends : ∃ rest last, (bareText d.name d.body).toList = rest ++ [last] ∧
    isBlank last = false ∧ last ≠ '/' := by
  have words : ∀ text, Naming.IsName text → ∀ c ∈ text.toList, Identifier.isPart c = true :=
    fun _ isName => isName.settled.part
  have body := tame.body
  cases shape : d.body with
  | interface type =>
    rw [shape] at body
    cases body with
    | interface built =>
      obtain ⟨inner, braced, _⟩ := TypeExpr.isBraced_text (fun _ => id) words built 0
      rw [toList_interface, braced]
      exact ⟨keywords true ++ (d.name.toList ++ ' ' :: '\x7b' :: inner), '\x7d', by simp, by decide,
        by decide⟩
  | constEnum members =>
    have closing : "\n\x7d".toList = ['\n', '\x7d'] := rfl
    rw [bareText_constEnum, String.toList_append, closing]
    exact ⟨_ ++ ['\n'], '\x7d', by rw [List.append_assoc]; rfl, by decide, by decide⟩
  | «alias» type =>
    rw [toList_alias]
    exact ⟨keywords false ++ (d.name.toList ++ ' ' :: ('=' :: ' ' :: (type.text 0).toList)), ';',
      by simp, by decide, by decide⟩

end IsTame

/-- A declaration as a block. -/
def block (d : Declaration) (tame : d.IsTame) : Block where
  lead := (d.comment.text "").toList
  body := (bareText d.name d.body).toList
  head := d.headOf
  isLead := tame.described.isLead
  begins := by
    cases d.body with
    | interface type => exact ⟨_, by rw [toList_interface]; rfl⟩
    | constEnum members => exact ⟨_, by simp only [bareText_constEnum, String.toList_append]; rfl⟩
    | «alias» type => exact ⟨_, by rw [toList_alias]; rfl⟩
  ends := tame.ends
  reads := tame.reads

/-- The text of declarations, each ended by a line feed, is that of their blocks. -/
theorem textOf_blocks {ds : List Declaration} (tame : ∀ d ∈ ds, d.IsTame) :
    textOf (ds.pmap block tame) = (ds.map fun d => d.text.toList).flatMap (· ++ ['\n']) := by
  induction ds with
  | nil => rfl
  | cons d ds ih =>
    rw [List.pmap_cons, textOf, ih, List.map_cons, List.flatMap_cons, text, String.toList_append]
    simp [block]

/-! ## Splitting declarations -/

/-- What splitting the text of declarations gives. -/
theorem isSplit_declarations {ds : List Declaration} (tame : ∀ d ∈ ds, d.IsTame) :
    IsSplit ((ds.map fun d => d.text.toList).flatMap (· ++ ['\n']))
      (definitionsOf (ds.pmap block tame)) := by
  have whole := (isSplit_textOf (ds.pmap block tame)).1 [] (.nil _) ended_nil
  rwa [List.nil_append, textOf_blocks] at whole

/-- The titles that splitting the text of declarations gives. -/
theorem titles_of_declarations {ds : List Declaration} (tame : ∀ d ∈ ds, d.IsTame) :
    (definitionsOf (ds.pmap block tame)).map Definition.title =
      (ds.filterMap headOf).map fun head => String.ofList head.title := by
  have heads : (ds.pmap block tame).filterMap Block.head = ds.filterMap headOf := by
    induction ds with
    | nil => rfl
    | cons d ds ih =>
      rw [List.pmap_cons, List.filterMap_cons, List.filterMap_cons, ih]
      rfl
  rw [titles_definitionsOf, heads]

/-- An interface or an alias whose name consists of word characters is read under its name. -/
theorem exists_headOf {d : Declaration} (tame : d.IsTame)
    (word : ∀ c ∈ d.name.toList, isWord c = true) (noEnum : ∀ members, d.body ≠ .constEnum members) :
    ∃ head, d.headOf = some head ∧ head.title = d.name.toList := by
  have whole : leadingWord d.name = d.name.toList := List.takeWhile_eq_self_iff.2 word
  have inhabited : ¬ (leadingWord d.name).isEmpty = true := by
    rw [whole, List.isEmpty_iff]
    exact tame.isName.toList_ne_nil
  rw [headOf]
  cases shape : d.body with
  | interface type => exact ⟨_, if_neg inhabited, whole⟩
  | constEnum members => exact absurd shape (noEnum members)
  | «alias» type => exact ⟨_, if_neg inhabited, whole⟩

section

variable {ds : List Declaration} (tame : ∀ d ∈ ds, d.IsTame)
variable (words : ∀ d ∈ ds, ∀ c ∈ d.name.toList, isWord c = true)
variable (noEnum : ∀ d ∈ ds, ∀ members, d.body ≠ .constEnum members)
include words noEnum

theorem isSome_head_of_mem_blocks : ∀ b ∈ ds.pmap block tame, b.head.isSome = true := by
  intro b member
  obtain ⟨d, isDeclared, rfl⟩ := List.mem_pmap.1 member
  obtain ⟨head, isHead, _⟩ := exists_headOf (tame d isDeclared) (words d isDeclared)
    (noEnum d isDeclared)
  change d.headOf.isSome = true
  rw [isHead, Option.isSome_some]

theorem titles_eq_names :
    (definitionsOf (ds.pmap block tame)).map Definition.title = ds.map Declaration.name := by
  rw [titles_of_declarations]
  induction ds with
  | nil => rfl
  | cons d ds ih =>
    obtain ⟨head, isHead, title⟩ := exists_headOf (tame d List.mem_cons_self)
      (words d List.mem_cons_self) (noEnum d List.mem_cons_self)
    rw [List.filterMap_cons, isHead]
    simp only [List.map_cons, title, String.ofList_toList]
    rw [ih (fun d member => tame d (List.mem_cons_of_mem _ member))
      (fun d member => words d (List.mem_cons_of_mem _ member))
      fun d member => noEnum d (List.mem_cons_of_mem _ member)]

/-- Splitting the text of declarations gives back each with its comment exactly if no line of a
comment opens another. -/
theorem definitionsOf_blocks_iff :
    definitionsOf (ds.pmap block tame) = ds.map (fun d => ⟨d.name, d.text⟩) ↔
      ∀ d ∈ ds, ∀ line ∈ d.comment.lines, ¬ ['/', '*'] <:+: line.toList := by
  have images : (ds.pmap block tame).map (fun b => (⟨String.ofList (titleOf b),
      String.ofList (b.lead ++ b.body)⟩ : Definition)) = ds.map fun d => ⟨d.name, d.text⟩ := by
    rw [List.map_pmap]
    refine (List.pmap_congr_left ds fun d member _ isTame => ?_).trans (List.pmap_eq_map tame)
    obtain ⟨head, isHead, title⟩ := exists_headOf isTame (words d member) (noEnum d member)
    have titled : titleOf (block d isTame) = d.name.toList := by
      rw [titleOf]
      change (d.headOf.map Head.title).getD [] = _
      rw [isHead, Option.map_some, Option.getD_some, title]
    have whole : (block d isTame).lead ++ (block d isTame).body = d.text.toList := by
      rw [text, String.toList_append]
      rfl
    rw [titled, whole, String.ofList_toList, String.ofList_toList]
  rw [← images, definitionsOf_eq_iff (isSome_head_of_mem_blocks tame words noEnum)]
  constructor
  · intro fronts d member
    exact (Comment.front_eq_nil_iff d.comment).1
      (fronts _ (List.mem_pmap.2 ⟨d, member, rfl⟩))
  · intro closed b member
    obtain ⟨d, isDeclared, rfl⟩ := List.mem_pmap.1 member
    exact (Comment.front_eq_nil_iff d.comment).2 (closed d isDeclared)

end

end Declaration

end Typewright
