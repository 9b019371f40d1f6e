import Typewright.Proofs.TypeScript.Declarations

/-!
# Names that are mentioned

The names of other declarations that the text of a type mentions, and that the body of a declaration
mentions. A type mentions what the types that stand directly in it mention
(`TypeExpr.mem_names_iff`), so what it mentions is settled by induction on these
(`TypeExpr.induction_on_parts`): it mentions only what it is built of
(`TypeExpr.isName_of_mem_names`), and its text shows what it mentions
(`Declaration.infix_text_of_mem_names`), as it shows what stands in it
(`TypeExpr.infix_text_of_mem_parts`).
-/

namespace Typewright

namespace TypeExpr

mutual

/-- The names in a type expression. A range of sizes shows its item unless there is no size above
zero. -/
def names : TypeExpr → List String
  | name text => [text]
  | union members => namesOf members
  | intersection parts own => namesOf parts ++ namesOf own
  | array item => names item
  | tuple items rest => namesOf items ++ namesOf rest
  | sized item least most => if (sizes least most).any (0 < ·) then names item else []
  | object properties index => propertyNames properties ++ namesOf index
  | _ => []

/-- The names in several type expressions. -/
def namesOf : List TypeExpr → List String
  | [] => []
  | type :: rest => names type ++ namesOf rest

/-- The names in the types of properties. -/
def propertyNames : List (PropertyHead × TypeExpr) → List String
  | [] => []
  | (_, type) :: rest => names type ++ propertyNames rest

end

theorem mem_namesOf {types : List TypeExpr} {text : String} :
    text ∈ namesOf types ↔ ∃ t ∈ types, text ∈ t.names := by
  induction types with
  | nil => simp [namesOf]
  | cons type types ih => simp [namesOf, ih]

theorem mem_propertyNames {properties : List (PropertyHead × TypeExpr)} {text : String} :
    text ∈ propertyNames properties ↔ ∃ property ∈ properties, text ∈ property.2.names := by
  induction properties with
  | nil => simp [propertyNames]
  | cons property properties ih =>
    obtain ⟨head, type⟩ := property
    simp [propertyNames, ih]

/-! ## Types in types -/

/-- The types that stand directly in a type whose lines are at a level, each with the level of its
own lines. A range of sizes shows its item unless there is no size above zero. -/
def parts (level : Nat) : TypeExpr → List (Nat × TypeExpr)
  | union members => members.map (level, ·)
  | intersection parts own => (parts ++ own).map (level, ·)
  | array item => [(level, item)]
  | tuple items rest => (items ++ rest).map (level, ·)
  | sized item least most => if (sizes least most).any (0 < ·) then [(level, item)] else []
  | object properties index =>
    properties.map (fun property => (level + 1, property.2)) ++ index.map (level + 1, ·)
  | _ => []

theorem Built.part {isRaw isName : String → Prop} {t : TypeExpr} (built : Built isRaw isName t)
    {level : Nat} {part : Nat × TypeExpr} (member : part ∈ t.parts level) :
    part.2.Built isRaw isName := by
  cases built with
  | unknown | never | undefined | primitive | literal | name | raw => cases member
  | union each =>
    obtain ⟨u, inside, rfl⟩ := List.mem_map.1 member
    exact each u inside
  | intersection eachPart eachOwn =>
    obtain ⟨u, inside, rfl⟩ := List.mem_map.1 member
    exact (List.mem_append.1 inside).elim (eachPart u) (eachOwn u)
  | array inside =>
    rw [parts, List.mem_singleton] at member
    rw [member]
    exact inside
  | tuple eachItem eachRest =>
    obtain ⟨u, inside, rfl⟩ := List.mem_map.1 member
    exact (List.mem_append.1 inside).elim (eachItem u) (eachRest u)
  | sized inside =>
    rw [parts] at member
    split at member
    · rw [List.mem_singleton.1 member]
      exact inside
    · cases member
  | object _ eachProperty eachIndex =>
    rcases List.mem_append.1 member with property | signature
    · obtain ⟨u, inside, rfl⟩ := List.mem_map.1 property
      exact eachProperty u inside
    · obtain ⟨u, inside, rfl⟩ := List.mem_map.1 signature
      exact eachIndex u inside

theorem sizeOf_lt_of_mem_parts {t : TypeExpr} {level : Nat} {part : Nat × TypeExpr}
    (member : part ∈ t.parts level) : sizeOf part.2 < sizeOf t := by
  have listed : ∀ {u : TypeExpr} {l : List TypeExpr}, u ∈ l → sizeOf u < sizeOf l :=
    List.sizeOf_lt_of_mem
  cases t with
  | unknown | never | undefined | primitive | literal | name | raw => cases member
  | union members =>
    obtain ⟨u, inside, rfl⟩ := List.mem_map.1 member
    have smaller := listed inside
    simp only [union.sizeOf_spec]
    omega
  | intersection inner own =>
    obtain ⟨u, inside, rfl⟩ := List.mem_map.1 member
    have smaller := (List.mem_append.1 inside).imp listed listed
    simp only [intersection.sizeOf_spec]
    omega
  | array item =>
    rw [List.mem_singleton.1 member]
    simp only [array.sizeOf_spec]
    omega
  | tuple items rest =>
    obtain ⟨u, inside, rfl⟩ := List.mem_map.1 member
    have smaller := (List.mem_append.1 inside).imp listed listed
    simp only [tuple.sizeOf_spec]
    omega
  | sized item least most =>
    rw [parts] at member
    split at member
    · rw [List.mem_singleton.1 member]
      simp only [sized.sizeOf_spec]
      omega
    · cases member
  | object properties index =>
    simp only [object.sizeOf_spec]
    rcases List.mem_append.1 member with property | signature
    · obtain ⟨⟨head, u⟩, inside, rfl⟩ := List.mem_map.1 property
      have smaller := List.sizeOf_lt_of_mem inside
      simp only [Prod.mk.sizeOf_spec] at smaller
      dsimp only
      omega
    · obtain ⟨u, inside, rfl⟩ := List.mem_map.1 signature
      have smaller := listed inside
      dsimp only
      omega

/-- What holds of a type if it holds of the types that stand directly in it holds of every type. -/
theorem induction_on_parts {motive : TypeExpr → Prop}
    (each : ∀ t, (∀ level, ∀ part ∈ t.parts level, motive part.2) → motive t) (t : TypeExpr) :
    motive t :=
  each t fun _ part _ => induction_on_parts each part.2
termination_by sizeOf t
decreasing_by exact sizeOf_lt_of_mem_parts (by assumption)

/-- A type mentions its own name, or what the types that stand directly in it mention. -/
theorem mem_names_iff {t : TypeExpr} (level : Nat) {n : String} :
    n ∈ t.names ↔ t = .name n ∨ ∃ part ∈ t.parts level, n ∈ part.2.names := by
  cases t with
  | unknown | never | undefined | primitive | literal | raw => simp [names, parts]
  | name text => simp [names, parts, eq_comm]
  | union members => simp [names, parts, mem_namesOf]
  | intersection inner own => simp [names, parts, mem_namesOf, or_and_right, exists_or]
  | array item => simp [names, parts]
  | tuple items rest => simp [names, parts, mem_namesOf, or_and_right, exists_or]
  | sized item least most =>
    rw [names, parts]
    split <;> simp
  | object properties index =>
    simp [names, parts, mem_namesOf, mem_propertyNames, or_and_right, exists_or]

/-- A type mentions only names that it is built of. -/
theorem isName_of_mem_names {isRaw isName : String → Prop} {t : TypeExpr}
    (built : Built isRaw isName t) {text : String} (mentioned : text ∈ t.names) :
    isName text := by
  induction t using induction_on_parts with
  | each t ih =>
    rcases (mem_names_iff 0).1 mentioned with rfl | ⟨part, member, inside⟩
    · cases built with
      | name given => exact given
    · exact ih 0 part member (built.part member) inside

/-! ## Types in texts -/

theorem infix_intercalate {between t : String} {l : List String} (member : t ∈ l) :
    t.toList <:+: (between.intercalate l).toList := by
  rw [String.toList_intercalate]
  induction l with
  | nil => cases member
  | cons first l ih =>
    cases l with
    | nil =>
      rw [List.mem_singleton.1 member, List.map_singleton, List.intercalate_singleton]
    | cons next l =>
      rw [List.map_cons, List.map_cons, List.intercalate_cons_cons]
      rcases List.mem_cons.1 member with rfl | later
      · exact ⟨[], _, by rw [List.nil_append, List.append_assoc]⟩
      · exact (ih later).trans (List.suffix_append _ _).isInfix

theorem infix_append_right {n : List Char} {front back : String} (inside : n <:+: back.toList) :
    n <:+: (front ++ back).toList := by
  rw [String.toList_append]
  exact inside.trans (List.suffix_append _ _).isInfix

theorem infix_append_left {n : List Char} {front back : String} (inside : n <:+: front.toList) :
    n <:+: (front ++ back).toList := by
  rw [String.toList_append]
  exact inside.trans (List.prefix_append _ _).isInfix

theorem infix_parenthesised (t : String) : t.toList <:+: (parenthesised t).toList := by
  rw [parenthesised]
  split
  · exact infix_append_left (infix_append_right List.infix_rfl)
  · exact List.infix_rfl

theorem infix_unionText {t : String} {l : List String} (member : t ∈ l) :
    t.toList <:+: (unionText l).toList := by
  have inhabited : ¬ l.isEmpty = true := by
    rw [List.isEmpty_iff]
    exact List.ne_nil_of_mem member
  rw [unionText, if_neg inhabited]
  exact infix_intercalate (List.mem_eraseDups.2 member)

theorem infix_tupleText {t : String} {items rest : List String} (member : t ∈ items ∨ t ∈ rest) :
    t.toList <:+: (tupleText items rest).toList := by
  rw [tupleText]
  refine infix_append_left (infix_append_right ?_)
  rcases member with item | more
  · exact infix_intercalate (List.mem_append_left _ item)
  · have shown : t.toList <:+: ("..." ++ parenthesised t ++ "[]").toList :=
      infix_append_left (infix_append_right (infix_parenthesised t))
    exact shown.trans (infix_intercalate (List.mem_append_right _ (List.mem_map_of_mem more)))

theorem infix_objectText {n : List Char} {level : Nat} {properties index : List String}
    (inside : (∃ line ∈ properties, n <:+: line.toList) ∨ ∃ t ∈ index, n <:+: t.toList) :
    n <:+: (objectText level properties index).toList := by
  obtain ⟨line, member, inLine⟩ : ∃ line ∈ properties ++ (if index.isEmpty then []
      else [indent level ++ "[k: string]: " ++ unionText index ++ ";"]), n <:+: line.toList := by
    rcases inside with ⟨line, member, inLine⟩ | ⟨t, member, inType⟩
    · exact ⟨line, List.mem_append_left _ member, inLine⟩
    · have inhabited : ¬ index.isEmpty = true := by
        rw [List.isEmpty_iff]
        exact List.ne_nil_of_mem member
      rw [if_neg inhabited]
      exact ⟨_, List.mem_append_right _ (List.mem_singleton.2 rfl),
        infix_append_left (infix_append_right (inType.trans (infix_unionText member)))⟩
  have some : ¬ (properties ++ (if index.isEmpty then []
      else [indent level ++ "[k: string]: " ++ unionText index ++ ";"])).isEmpty = true := by
    rw [List.isEmpty_iff]
    exact List.ne_nil_of_mem member
  unfold objectText
  dsimp only
  rw [if_neg some]
  exact infix_append_left (infix_append_left (infix_append_left (infix_append_right
    (inLine.trans (infix_intercalate member)))))

/-- The text of a type shows what stands directly in it. -/
theorem infix_text_of_mem_parts {t : TypeExpr} {level : Nat} {part : Nat × TypeExpr}
    (member : part ∈ t.parts level) :
    (part.2.text part.1).toList <:+: (t.text level).toList := by
  cases t with
  | unknown | never | undefined | primitive | literal | name | raw => cases member
  | union members =>
    obtain ⟨u, inside, rfl⟩ := List.mem_map.1 member
    rw [text, texts_eq_map]
    exact infix_unionText (List.mem_map_of_mem inside)
  | intersection parts own =>
    obtain ⟨u, inside, rfl⟩ := List.mem_map.1 member
    have shown : ∃ s ∈ (texts level parts).map parenthesised ++ texts level own,
        (u.text level).toList <:+: s.toList := by
      rw [texts_eq_map, texts_eq_map]
      rcases List.mem_append.1 inside with part | mine
      · exact ⟨_, List.mem_append_left _ (List.mem_map_of_mem (List.mem_map_of_mem part)),
          infix_parenthesised _⟩
      · exact ⟨_, List.mem_append_right _ (List.mem_map_of_mem mine), List.infix_rfl⟩
    obtain ⟨s, isShown, inText⟩ := shown
    have inhabited :
        ¬ ((texts level parts).map parenthesised ++ texts level own).isEmpty = true := by
      rw [List.isEmpty_iff]
      exact List.ne_nil_of_mem isShown
    rw [text, if_neg inhabited]
    exact inText.trans (infix_intercalate isShown)
  | array item =>
    rw [parts, List.mem_singleton] at member
    rw [member, text]
    exact infix_append_left (infix_parenthesised _)
  | tuple items rest =>
    obtain ⟨u, inside, rfl⟩ := List.mem_map.1 member
    rw [text, texts_eq_map, texts_eq_map]
    exact infix_tupleText ((List.mem_append.1 inside).imp List.mem_map_of_mem List.mem_map_of_mem)
  | sized item least most =>
    rw [parts] at member
    split at member
    · next some =>
      obtain ⟨size, isSize, positive⟩ := List.any_eq_true.1 some
      have shown : text level item ∈ List.replicate size (text level item) :=
        List.mem_replicate.2 ⟨(of_decide_eq_true positive).ne', rfl⟩
      rw [List.mem_singleton.1 member, text]
      exact (infix_tupleText (Or.inl shown)).trans (infix_intercalate (List.mem_map_of_mem isSize))
    · cases member
  | object properties index =>
    rw [text, texts_eq_map, propertyTexts_eq_map]
    refine infix_objectText ((List.mem_append.1 member).imp (fun property => ?_) fun signature => ?_)
    · obtain ⟨u, inside, rfl⟩ := List.mem_map.1 property
      exact ⟨_, List.mem_map_of_mem inside,
        infix_append_left (infix_append_right List.infix_rfl)⟩
    · obtain ⟨u, inside, rfl⟩ := List.mem_map.1 signature
      exact ⟨_, List.mem_map_of_mem inside, List.infix_rfl⟩

/-- The text of a type shows every name that the type mentions. -/
theorem infix_text_of_mem_names {t : TypeExpr} {n : String} (mentioned : n ∈ t.names)
    (level : Nat) : n.toList <:+: (t.text level).toList := by
  induction t using induction_on_parts generalizing level with
  | each t ih =>
    rcases (mem_names_iff level).1 mentioned with rfl | ⟨part, member, inside⟩
    · rw [text]
    · exact (ih level part member inside part.1).trans (infix_text_of_mem_parts member)

end TypeExpr

/-- The names that the body of a declaration mentions. -/
def DeclarationBody.names : DeclarationBody → List String
  | interface type => type.names
  | constEnum members => members.flatMap fun member => member.2.names
  | «alias» type => type.names

/-- The text of a declaration shows every name that its body mentions. -/
theorem Declaration.infix_text_of_mem_names {d : Declaration} {n : String}
    (mentioned : n ∈ d.body.names) : n.toList <:+: d.text.toList := by
  refine TypeExpr.infix_append_right ?_
  cases shape : d.body with
  | interface type =>
    rw [shape] at mentioned
    exact TypeExpr.infix_append_right (TypeExpr.infix_text_of_mem_names mentioned 0)
  | constEnum members =>
    rw [shape] at mentioned
    obtain ⟨m, member, inside⟩ := List.mem_flatMap.1 mentioned
    have line := TypeExpr.infix_text_of_mem_names inside 0
    rw [bareText_constEnum]
    exact TypeExpr.infix_append_left (TypeExpr.infix_append_right
      ((TypeExpr.infix_append_right line).trans
        (TypeExpr.infix_intercalate (List.mem_map_of_mem member))))
  | «alias» type =>
    rw [shape] at mentioned
    exact TypeExpr.infix_append_left (TypeExpr.infix_append_right
      (TypeExpr.infix_text_of_mem_names mentioned 0))

end Typewright
