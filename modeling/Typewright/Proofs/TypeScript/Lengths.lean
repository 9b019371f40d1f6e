import Typewright.Proofs.TypeScript.Pieces

/-!
# The lengths of arrays that a type admits

A reader of the types of arrays (`Source.readLengths`). It looks at the code of a text, without what
stands in literals and comments, and at nothing inside brackets: a type is a union of members, a
member is `never`, a type of arrays `T[]` or a tuple, and a tuple holds items between commas and
possibly, at its end, a rest that may go on. What an item is does not matter to it, as long as the
item stays one (`Source.IsItem`). Arrows are operators to it, and close no bracket.
-/

namespace Typewright

open Text

namespace Source

open TypeExpr (hasOuterOperator)

/-! ## Outlines -/

/-- Code with an operator in place of each arrow. -/
def withoutArrows : List Char → List Char
  | '=' :: '>' :: rest => '&' :: withoutArrows rest
  | c :: rest => c :: withoutArrows rest
  | [] => []

/-- What a text has of brackets, operators and separators: its code, where no arrow closes a
bracket. -/
def outline (text : List Char) : List Char :=
  withoutArrows (codeFrom .code text)

/-- Text that is read from code to code. -/
def Settles (text : List Char) : Prop :=
  text.foldl Place.after .code = .code

instance (text : List Char) : Decidable (Settles text) :=
  inferInstanceAs (Decidable (_ = _))

section

variable {front back : List Char}

theorem withoutArrows_of_not_mem {code : List Char} (noEquals : '=' ∉ code) :
    withoutArrows code = code := by
  fun_induction withoutArrows code with
  | case1 rest ih => exact absurd List.mem_cons_self noEquals
  | case2 c rest _ ih => rw [ih fun member => noEquals (List.mem_cons_of_mem _ member)]
  | case3 => rfl

theorem withoutArrows_cons {c : Char} {rest : List Char}
    (other : c ≠ '=' ∨ rest.head? ≠ some '>') :
    withoutArrows (c :: rest) = c :: withoutArrows rest := by
  rw [withoutArrows.eq_2]
  rintro later rfl rfl
  exact other.elim (absurd rfl) (absurd rfl)

/-- Code that is joined makes no arrow, unless one half ends and the other half begins it. -/
theorem withoutArrows_append (apart : front.getLast? ≠ some '=' ∨ back.head? ≠ some '>') :
    withoutArrows (front ++ back) = withoutArrows front ++ withoutArrows back := by
  fun_induction withoutArrows front with
  | case1 rest ih =>
    rw [List.cons_append, List.cons_append, withoutArrows, List.cons_append, ih]
    cases rest with
    | nil => exact Or.inl (by simp)
    | cons c rest => simpa using apart
  | case2 c rest other ih =>
    cases rest with
    | nil =>
      rw [List.singleton_append, withoutArrows_cons (by simpa using apart)]
      rfl
    | cons d rest =>
      have noArrow : c ≠ '=' ∨ (d :: rest ++ back).head? ≠ some '>' := by
        by_contra arrow
        simp only [not_or, not_not, List.cons_append, List.head?_cons, Option.some.injEq] at arrow
        exact other rest arrow.1 (by rw [arrow.2])
      rw [List.cons_append, withoutArrows_cons noArrow, ih (by simpa using apart),
        List.cons_append]
  | case3 => rfl

theorem Settles.append (first : Settles front) (second : Settles back) :
    Settles (front ++ back) := by
  rw [Settles, List.foldl_append, first, second]

theorem outline_append (settles : Settles front)
    (apart : (codeFrom .code front).getLast? ≠ some '=' ∨ back.head? ≠ some '>') :
    outline (front ++ back) = outline front ++ outline back := by
  have first : (codeFrom .code back).head? = back.head? := by
    cases back <;> rfl
  rw [outline, codeFrom_append, settles, withoutArrows_append (first ▸ apart)]
  rfl

end

/-! ## Items -/

/-- The first character that is not blank. -/
def firstVisible? (code : List Char) : Option Char :=
  code.find? fun c => !isBlank c

/-- Code that can stand as an item of a tuple: it is not blank, its brackets are paired, it has no
comma outside brackets, and it does not begin as a rest does. -/
structure IsItemCode (code : List Char) : Prop where
  visible : firstVisible? code ≠ none
  begins : firstVisible? code ≠ some '.'
  nested : IsNested code
  single : IsPiece ',' 0 code

instance (code : List Char) : Decidable (IsItemCode code) :=
  decidable_of_iff (firstVisible? code ≠ none ∧ firstVisible? code ≠ some '.' ∧ IsNested code ∧
      outerPieces ',' 0 code = [code])
    ⟨fun all => ⟨all.1, all.2.1, all.2.2.1, all.2.2.2⟩,
      fun item => ⟨item.visible, item.begins, item.nested, item.single⟩⟩

/-- Text of an item of a tuple. -/
structure IsItem (text : List Char) : Prop where
  settles : Settles text
  code : IsItemCode (outline text)

instance (text : List Char) : Decidable (IsItem text) :=
  decidable_of_iff (Settles text ∧ IsItemCode (outline text))
    ⟨fun both => ⟨both.1, both.2⟩, fun item => ⟨item.settles, item.code⟩⟩

/-! ## Reading -/

/-- The lengths that a member of a union admits: one, or all from one on. -/
inductive Extent
  | exactly (length : Nat)
  | atLeast (length : Nat)
  deriving DecidableEq, Repr

/-- Whether arrays of a length are admitted. -/
def Extent.Admits : Extent → Nat → Prop
  | exactly length, n => n = length
  | atLeast length, n => length ≤ n

/-- The code of `T` in `T[]`. -/
def arrayItem? (code : List Char) : Option (List Char) :=
  match code.reverse with
  | ']' :: '[' :: item => some item.reverse
  | _ => none

/-- Code of a type of arrays `T[]`, where `T` has no operator outside brackets. -/
def IsArray (code : List Char) : Prop :=
  ∃ item ∈ arrayItem? code, IsItemCode item ∧ hasOuterOperator 0 item = false

instance (code : List Char) : Decidable (IsArray code) :=
  inferInstanceAs (Decidable (∃ item ∈ arrayItem? code, _))

/-- What stands between the brackets of a tuple. -/
def tupleItems? (code : List Char) : Option (List Char) :=
  match code with
  | '[' :: rest =>
    match rest.reverse with
    | ']' :: inner => if IsNested inner.reverse then some inner.reverse else none
    | _ => none
  | _ => none

/-- Reads what stands between the brackets of a tuple. -/
def readTuple (inner : List Char) : Option Extent :=
  let items := trimmedPieces ',' inner
  if items = [[]] then some (.exactly 0)
  else if ∀ item ∈ items, IsItemCode item then some (.exactly items.length)
  else match items.reverse with
    | ('.' :: '.' :: '.' :: last) :: front =>
      if IsArray last ∧ ∀ item ∈ front, IsItemCode item then some (.atLeast front.length) else none
    | _ => none

/-- Reads a member of a union. -/
def readMember (code : List Char) : Option (List Extent) :=
  if code = "never".toList then some []
  else if IsArray code then some [.atLeast 0]
  else do return [← readTuple (← tupleItems? code)]

/-- Reads the text of a type of arrays: what each member of the union admits. There is nothing to
read if the text is not the text of such a type. -/
def readLengths (text : String) : Option (List Extent) :=
  if Settles text.toList then
    ((trimmedPieces '|' (outline text.toList)).mapM readMember).map List.flatten
  else none

example : readLengths "[a, b<c, d>, ...(e | f)[]] | [\"],\" | (() => void)] | never" =
    some [.atLeast 2, .exactly 1] := by decide +kernel

/-- The text of a type that admits arrays of some lengths and of no others. -/
def AdmitsExactly (text : String) (lengths : Nat → Prop) : Prop :=
  ∃ extents, readLengths text = some extents ∧
    ∀ n, (∃ extent ∈ extents, extent.Admits n) ↔ lengths n

/-! ## Blanks around items -/

section

variable {code front back core before after : List Char}

theorem firstVisible?_append : firstVisible? (front ++ back) =
    (firstVisible? front).or (firstVisible? back) :=
  List.find?_append

theorem firstVisible?_of_blank (blank : ∀ c ∈ code, isBlank c = true) :
    firstVisible? code = none :=
  List.find?_eq_none.2 fun c member => by simp [blank c member]

/-- Without blanks around it, an item is still one. -/
theorem IsItemCode.of_surrounded (item : IsItemCode (before ++ (core ++ after)))
    (left : ∀ c ∈ before, isBlank c = true) (right : ∀ c ∈ after, isBlank c = true) :
    IsItemCode core := by
  have first : firstVisible? (before ++ (core ++ after)) = firstVisible? core := by
    rw [firstVisible?_append, firstVisible?_append, firstVisible?_of_blank left,
      firstVisible?_of_blank right, Option.none_or, Option.or_none]
  refine ⟨first ▸ item.visible, first ▸ item.begins, ?_, ?_⟩
  · exact (item.nested.of_append fun c member => bracketStep_of_isBlank (left c member))
      |>.of_append_right fun c member => bracketStep_of_isBlank (right c member)
  · have single := (isPiece_append_iff.1 item.single).2
    rw [excess_of_blank left, Int.add_zero] at single
    exact (isPiece_append_iff.1 single).1

theorem IsItemCode.trim (item : IsItemCode code) : IsItemCode (trim code) := by
  obtain ⟨before, after, parts, left, right⟩ := exists_trimmed code
  rw [parts] at item
  exact item.of_surrounded left right

theorem IsItemCode.ne_nil (item : IsItemCode code) : code ≠ [] := by
  rintro rfl
  exact item.visible rfl

/-! ## Types of arrays -/

theorem arrayItem?_append : arrayItem? (code ++ ['[', ']']) = some code := by
  simp [arrayItem?]

theorem isArray_append (item : IsItemCode code) (none : hasOuterOperator 0 code = false) :
    IsArray (code ++ ['[', ']']) :=
  ⟨code, arrayItem?_append, item, none⟩

/-- Blanks before a type of arrays are no part of it. -/
theorem isArray_trim (item : IsItemCode code) (none : hasOuterOperator 0 code = false) :
    IsArray (trim (code ++ ['[', ']'])) := by
  have parts : code.takeWhile isBlank ++ (code.dropWhile isBlank ++ []) = code := by
    rw [List.append_nil, List.takeWhile_append_dropWhile]
  have blank : ∀ c ∈ code.takeWhile isBlank, isBlank c = true := fun c => List.mem_takeWhile_imp
  have inner : IsItemCode (code.dropWhile isBlank) :=
    IsItemCode.of_surrounded (parts ▸ item) blank (by simp)
  have first : ∀ c ∈ (code.dropWhile isBlank ++ ['[', ']']).head?, isBlank c = false := by
    intro c isHead
    have stops := List.head?_dropWhile_not isBlank code
    rw [List.head?_append_of_ne_nil _ inner.ne_nil] at isHead
    rw [isHead] at stops
    exact Bool.eq_false_iff.2 (by simpa using stops)
  have whole : trim (code ++ ['[', ']']) = code.dropWhile isBlank ++ ['[', ']'] := by
    have core := trim_surrounded (code.takeWhile isBlank) (code.dropWhile isBlank ++ ['[', ']']) []
      blank (by simp) first (by simp [isBlank])
    rwa [List.append_nil, ← List.append_assoc, List.takeWhile_append_dropWhile] at core
  rw [whole]
  refine isArray_append inner ?_
  rw [← parts, List.append_nil, hasOuterOperator_append, excess_of_blank blank, Int.add_zero,
    Bool.or_eq_false_iff] at none
  exact none.2

/-! ## Tuples -/

theorem tupleItems?_bracketed (nested : IsNested code) :
    tupleItems? ('[' :: code ++ [']']) = some code := by
  simp [tupleItems?, nested]

/-- A tuple is no type of arrays: its first bracket closes with its last. -/
theorem not_isArray_bracketed (nested : IsNested code) : ¬ IsArray ('[' :: code ++ [']']) := by
  intro ⟨item, isItem, itemCode, _⟩
  rcases List.eq_nil_or_concat code with rfl | ⟨front, c, rfl⟩
  · cases isItem
    exact itemCode.ne_nil rfl
  · rw [List.concat_eq_append] at isItem nested
    have opens : c = '[' := by
      by_contra other
      simp [arrayItem?, other] at isItem
    have closed := nested.closed
    have stays := nested.take_nonneg front.length
    rw [List.take_left] at stays
    rw [opens, excess_append] at closed
    have up : excess ['['] = 1 := rfl
    omega

theorem readMember_bracketed (nested : IsNested code) {extent : Extent}
    (read : readTuple code = some extent) :
    readMember ('[' :: code ++ [']']) = some [extent] := by
  have never : '[' :: code ++ [']'] ≠ "never".toList := by
    have word : "never".toList = ['n', 'e', 'v', 'e', 'r'] := rfl
    simp [word]
  rw [readMember, if_neg never, if_neg (not_isArray_bracketed nested),
    tupleItems?_bracketed nested]
  simp [read]

/-- Items between commas are read as a tuple of their number. -/
theorem readTuple_items {codes : List (List Char)} (each : ∀ code ∈ codes, IsItemCode code) :
    readTuple (", ".toList.intercalate codes) = some (.exactly codes.length) := by
  cases codes with
  | nil => rfl
  | cons first codes =>
    have pieces : trimmedPieces ',' (", ".toList.intercalate (first :: codes)) =
        (first :: codes).map trim :=
      @trimmedPieces_intercalate ',' [] [' '] rfl (by simp) (by simp [isBlank]) _ (by simp)
        fun code member => ⟨(each code member).nested, (each code member).single⟩
    have items : ∀ item ∈ (first :: codes).map trim, IsItemCode item := by
      rw [List.forall_mem_map]
      exact fun code member => (each code member).trim
    have shown : (first :: codes).map trim ≠ [[]] := by
      intro empty
      rw [empty] at items
      exact (items [] (by simp)).ne_nil rfl
    rw [readTuple]
    rw [pieces, if_neg shown, if_pos items, List.length_map]

/-- The code of a rest, which a tuple goes on with. -/
def restCode (code : List Char) : List Char :=
  '.' :: '.' :: '.' :: (code ++ ['[', ']'])

/-- A rest is one piece of a tuple, but no item. -/
theorem restCode_spec (item : IsItemCode code) : IsNested (restCode code) ∧
    IsPiece ',' 0 (restCode code) ∧ trim (restCode code) = restCode code ∧
      ¬ IsItemCode (restCode code) := by
  have marks : IsNested ['.', '.', '.'] := by decide
  have brackets : IsNested ['[', ']'] := by decide
  refine ⟨marks.append (item.nested.append brackets), ?_, ?_, fun rest => rest.begins rfl⟩
  · refine (@isPiece_append_iff ['.', '.', '.'] _ _ _).2
      ⟨rfl, isPiece_append_iff.2 ⟨item.single, ?_⟩⟩
    rw [item.nested.closed]
    rfl
  · have parts : restCode code = '.' :: '.' :: '.' :: code ++ ['['] ++ [']'] := by simp [restCode]
    have last : (restCode code).getLast? = some ']' := by rw [parts, List.getLast?_concat]
    have core := trim_surrounded [] (restCode code) [] (by simp) (by simp)
      (by simp [restCode, isBlank]) (by simp [last, isBlank])
    rwa [List.append_nil, List.nil_append] at core

/-- Items before a rest are read as a tuple that may go on. -/
theorem readTuple_rest {codes : List (List Char)} (each : ∀ code ∈ codes, IsItemCode code)
    (last : IsItemCode code) (none : hasOuterOperator 0 code = false) :
    readTuple (", ".toList.intercalate (codes ++ [restCode code])) =
      some (.atLeast codes.length) := by
  obtain ⟨nested, single, alone, isRest⟩ := restCode_spec last
  have pieces : trimmedPieces ',' (", ".toList.intercalate (codes ++ [restCode code])) =
      (codes ++ [restCode code]).map trim := by
    refine @trimmedPieces_intercalate ',' [] [' '] rfl (by simp) (by simp [isBlank]) _ (by simp)
      fun piece member => ?_
    rcases List.mem_append.1 member with item | rest
    · exact ⟨(each piece item).nested, (each piece item).single⟩
    · rw [List.mem_singleton.1 rest]
      exact ⟨nested, single⟩
  have items : ∀ item ∈ (codes.map trim).reverse, IsItemCode item := by
    intro item member
    obtain ⟨given, inside, rfl⟩ := List.mem_map.1 (List.mem_reverse.1 member)
    exact (each given inside).trim
  rw [List.map_append, List.map_singleton, alone] at pieces
  have shown : codes.map trim ++ [restCode code] ≠ [[]] := by
    intro empty
    have ends := congrArg List.getLast? empty
    rw [List.getLast?_concat] at ends
    cases ends
  rw [readTuple, pieces, if_neg shown, if_neg fun all => isRest (all _ (by simp)),
    List.reverse_append, List.reverse_singleton, List.singleton_append]
  change (if _ then some (Extent.atLeast _) else Option.none) = _
  rw [if_pos ⟨isArray_append last none, items⟩, List.length_reverse, List.length_map]

end

/-! ## Texts -/

/-- In parentheses an item is still one. -/
theorem IsItem.inParentheses {text : List Char} (item : IsItem text) :
    IsItem ('(' :: text ++ [')']) := by
  have opening : Settles ['('] := rfl
  have code : outline ('(' :: text ++ [')']) = '(' :: outline text ++ [')'] := by
    rw [List.cons_append, ← List.singleton_append, outline_append opening (Or.inl (by decide)),
      outline_append item.settles (Or.inr (by decide))]
    rfl
  have nested := item.code.nested
  refine ⟨(opening.append item.settles).append rfl, ?_⟩
  rw [code]
  exact ⟨by simp [firstVisible?, isBlank], by simp [firstVisible?, isBlank],
    nested.bracketed rfl rfl, nested.isPiece_bracketed rfl (by decide)⟩

/-- Texts that settle, joined by code, are read one by one. -/
theorem outline_intercalate {between : List Char} (inhabited : between ≠ [])
    (neutral : between.all isNeutral = true) {l : List (List Char)}
    (each : ∀ piece ∈ l, Settles piece) : Settles (between.intercalate l) ∧
      outline (between.intercalate l) = between.intercalate (l.map outline) := by
  have plain : ∀ c ∈ between, isMark c = false ∧ c ≠ '=' ∧ c ≠ '>' := by
    intro c member
    have one := List.all_eq_true.1 neutral c member
    simp only [isNeutral, Bool.and_eq_true, Bool.not_eq_true', bne_iff_ne] at one
    refine ⟨one.1.1.1, one.2, ?_⟩
    rintro rfl
    cases one.1.2
  obtain ⟨settles, code⟩ := codeFrom_of_not_isMark fun c member => (plain c member).1
  have shown : outline between = between := by
    rw [outline, code, withoutArrows_of_not_mem fun member => (plain _ member).2.1 rfl]
  refine ⟨@of_intercalate _ Settles rfl .append _ settles each, ?_⟩
  induction l with
  | nil => rfl
  | cons piece l ih =>
    have first := each piece List.mem_cons_self
    have later := ih fun piece member => each piece (List.mem_cons_of_mem _ member)
    cases l with
    | nil => rw [List.map_singleton, List.intercalate_singleton, List.intercalate_singleton]
    | cons next l =>
      have before : between.head? ≠ some '>' := fun head =>
        (plain _ (List.mem_of_head? head)).2.2 rfl
      have behind : (codeFrom .code (piece ++ between)).getLast? ≠ some '=' := by
        rw [codeFrom_append, first, code, List.getLast?_append_of_ne_nil _ inhabited]
        exact fun last => (plain _ (List.mem_of_getLast? last)).2.1 rfl
      rw [List.intercalate_cons_cons, outline_append (first.append settles) (Or.inl behind),
        outline_append first (Or.inr before), shown, later]
      simp only [List.map_cons, List.intercalate_cons_cons]

/-- The outline of a list in square brackets. -/
theorem outline_listed {pieces : List String} (each : ∀ piece ∈ pieces, Settles piece.toList) :
    Settles ("[" ++ ", ".intercalate pieces ++ "]").toList ∧
      outline ("[" ++ ", ".intercalate pieces ++ "]").toList =
        '[' :: ", ".toList.intercalate (pieces.map fun piece => outline piece.toList) ++ [']'] := by
  obtain ⟨settles, code⟩ := @outline_intercalate ", ".toList (by decide) (by decide)
    (pieces.map String.toList) (List.forall_mem_map.2 each)
  have opening : Settles ['['] := rfl
  have whole : ("[" ++ ", ".intercalate pieces ++ "]").toList =
      ['['] ++ (", ".toList.intercalate (pieces.map String.toList) ++ [']']) := by
    have left : "[".toList = ['['] := rfl
    have right : "]".toList = [']'] := rfl
    rw [String.toList_append, String.toList_append, String.toList_intercalate, left, right,
      List.append_assoc]
  rw [whole]
  refine ⟨opening.append (settles.append rfl), ?_⟩
  rw [outline_append opening (Or.inl (by decide)), outline_append settles (Or.inr (by decide)),
    code, List.map_map]
  rfl

open TypeExpr (tupleText parenthesised)

theorem IsItem.parenthesised {text : String} (item : IsItem text.toList) :
    IsItem (parenthesised text).toList := by
  rw [TypeExpr.parenthesised]
  split
  · rw [String.toList_append, String.toList_append]
    exact item.inParentheses
  · exact item

/-- No operator stands outside brackets in what is printed for a text before `[]`. -/
def StandsAlone (text : String) : Prop :=
  hasOuterOperator 0 (outline (parenthesised text).toList) = false

instance (text : String) : Decidable (StandsAlone text) :=
  inferInstanceAs (Decidable (_ = _))

/-- Text that is read as one member of a union. -/
structure ReadsAs (text : String) (extent : Extent) : Prop where
  settles : Settles text.toList
  nested : IsNested (outline text.toList)
  single : IsPiece '|' 0 (outline text.toList)
  read : readMember (trim (outline text.toList)) = some [extent]

/-- A union is read member by member. -/
theorem readLengths_union {members : List (String × Extent)} (inhabited : members ≠ [])
    (each : ∀ m ∈ members, ReadsAs m.1 m.2) :
    readLengths (" | ".intercalate (members.map (·.1))) = some (members.map (·.2)) := by
  obtain ⟨settles, code⟩ := @outline_intercalate " | ".toList (by decide) (by decide)
    (members.map fun m => m.1.toList)
    (List.forall_mem_map.2 fun m member => (each m member).settles)
  have pieces := @trimmedPieces_intercalate '|' [' '] [' '] rfl (by simp [isBlank])
    (by simp [isBlank]) (members.map fun m => outline m.1.toList)
    (by simpa using inhabited) (List.forall_mem_map.2 fun m member =>
      ⟨(each m member).nested, (each m member).single⟩)
  have reads : (members.map fun m => trim (outline m.1.toList)).mapM readMember =
      some (members.map fun m => [m.2]) := by
    clear inhabited settles code pieces
    induction members with
    | nil => rfl
    | cons m members ih =>
      rw [List.map_cons, List.mapM_cons, (each m List.mem_cons_self).read,
        ih fun m later => each m (List.mem_cons_of_mem _ later)]
      rfl
  have apart : (members.map fun m => [m.2]).flatten = members.map (·.2) := by
    rw [← List.flatMap_def, ← List.map_eq_flatMap]
  have between : " | ".toList = [' '] ++ ['|', ' '] := rfl
  simp only [List.map_map, Function.comp_def] at code pieces
  rw [readLengths, String.toList_intercalate, List.map_map]
  simp only [Function.comp_def]
  rw [if_pos settles, code, between, pieces, reads, Option.map_some, apart]

theorem ReadsAs.readLengths {text : String} {extent : Extent} (reads : ReadsAs text extent) :
    readLengths text = some [extent] := by
  have single := @readLengths_union [(text, extent)] (by simp) (by simpa using reads)
  simpa using single

/-- A type of arrays `T[]` admits every length. -/
theorem readsAs_array {text : String} (item : IsItem text.toList)
    (none : hasOuterOperator 0 (outline text.toList) = false) :
    ReadsAs (text ++ "[]") (.atLeast 0) := by
  have code : outline (text ++ "[]").toList =
      outline text.toList ++ ['[', ']'] := by
    rw [String.toList_append, outline_append item.settles (Or.inr (by decide))]
    rfl
  have array := isArray_trim item.code none
  have never : trim (outline text.toList ++ ['[', ']']) ≠ "never".toList := by
    intro word
    rw [word] at array
    exact absurd array (by decide)
  refine ⟨?_, ?_, ?_, ?_⟩
  · rw [String.toList_append]
    exact item.settles.append rfl
  · rw [code]
    exact item.code.nested.append (by decide)
  · rw [code]
    exact isPiece_append_iff.2
      ⟨isPiece_of_hasOuterOperator none, by rw [item.code.nested.closed]; rfl⟩
  · rw [code, readMember, if_neg never, if_pos array]

/-- A list in square brackets is read as what stands between them. -/
theorem readsAs_listed {pieces : List String} (each : ∀ piece ∈ pieces, Settles piece.toList)
    (nested : ∀ piece ∈ pieces, IsNested (outline piece.toList)) {extent : Extent}
    (read : readTuple (", ".toList.intercalate
      (pieces.map fun piece => outline piece.toList)) = some extent) :
    ReadsAs ("[" ++ ", ".intercalate pieces ++ "]") extent := by
  obtain ⟨settles, code⟩ := outline_listed each
  have inner : IsNested (", ".toList.intercalate
      (pieces.map fun piece => outline piece.toList)) :=
    IsNested.intercalate (by decide) (List.forall_mem_map.2 nested)
  have alone := trim_surrounded [] ('[' :: ", ".toList.intercalate
      (pieces.map fun piece => outline piece.toList) ++ [']']) [] (by simp) (by simp)
    (by simp [isBlank]) (by rw [List.getLast?_concat]; simp [isBlank])
  rw [List.append_nil, List.nil_append] at alone
  refine ⟨settles, ?_, ?_, ?_⟩
  · rw [code]
    exact inner.bracketed rfl rfl
  · rw [code]
    exact inner.isPiece_bracketed rfl (by decide)
  · rw [code, alone]
    exact readMember_bracketed inner read

/-- A tuple admits the number of its items. -/
theorem readsAs_tuple {items : List String} (each : ∀ item ∈ items, IsItem item.toList) :
    ReadsAs (tupleText items []) (.exactly items.length) := by
  have read := @readTuple_items (items.map fun piece => outline piece.toList)
    (List.forall_mem_map.2 fun piece inside => (each piece inside).code)
  rw [List.length_map] at read
  rw [tupleText, List.map_nil, List.append_nil]
  exact readsAs_listed (fun piece inside => (each piece inside).settles)
    (fun piece inside => (each piece inside).code.nested) read

/-- A tuple with a rest admits the number of its items and every greater one. -/
theorem readsAs_rest {items : List String} {last : String}
    (each : ∀ item ∈ items, IsItem item.toList) (isItem : IsItem last.toList)
    (alone : StandsAlone last) : ReadsAs (tupleText items [last]) (.atLeast items.length) := by
  have item := isItem.parenthesised
  have shown : ("..." ++ parenthesised last ++ "[]").toList =
      ['.', '.', '.'] ++ ((parenthesised last).toList ++ ['[', ']']) := by
    rw [String.toList_append, String.toList_append, List.append_assoc]
    rfl
  have marks : Settles ['.', '.', '.'] := rfl
  have code : outline ("..." ++ parenthesised last ++ "[]").toList =
      restCode (outline (parenthesised last).toList) := by
    rw [shown, outline_append marks (Or.inl (by decide)),
      outline_append item.settles (Or.inr (by decide))]
    rfl
  have read := @readTuple_rest _ (items.map fun piece => outline piece.toList)
    (List.forall_mem_map.2 fun piece inside => (each piece inside).code) item.code alone
  rw [List.length_map, ← code] at read
  refine readsAs_listed (fun piece inside => ?_) (fun piece inside => ?_) (by simpa using read)
  · rcases List.mem_append.1 inside with one | rest
    · exact (each piece one).settles
    · rw [List.map_singleton, List.mem_singleton] at rest
      rw [rest, shown]
      exact marks.append (item.settles.append rfl)
  · rcases List.mem_append.1 inside with one | rest
    · exact (each piece one).code.nested
    · rw [List.map_singleton, List.mem_singleton] at rest
      rw [rest, code]
      exact (restCode_spec item.code).1

end Source

end Typewright
