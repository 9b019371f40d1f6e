import Typewright.Proofs.Compile.Runs
import Typewright.Proofs.Identifier.Spelling
import Typewright.Proofs.Json.Quoted
import Typewright.Proofs.Outcome
import Typewright.Proofs.TypeScript.Types

/-!
# Keys of object types

An object type prints one line for each property of its schema, in order
(`TypeExpr.showsProperties_text`), and in front of the colon a key. The key stands for the name of the
property if it is the name itself, an identifier, or a literal that is read as the name
(`TypeExpr.IsKeyOf`). What counts as safe for a bare key may end in a line feed, though. Such a name
is printed as it is, and to a reader who passes over blanks its key is that of the identifier alone
(`TypeExpr.keyName?`).

Main statement: these are the only keys that do not stand for their names, and two properties of an
object have the same key only if the name of one is that of the other with a line feed behind it
(`Compile.object_keys`).
-/

namespace Typewright

open Text Identifier

namespace TypeExpr

/-- A key that is the name itself, an identifier, or a literal that is read as the name. -/
def IsKeyOf (name key : String) : Prop :=
  key = name ∧ IsIdentifier name.toList ∨
    ∃ body, key.toList = '"' :: body ∧ Json.string? body = some (name, [])

/-- A name is an identifier with a line feed behind it. -/
def AddsLine (name word : String) : Prop :=
  IsIdentifier word.toList ∧ name = word ++ "\n"

/-- Some identifier and then a line feed. -/
def EndsLine (name : String) : Prop :=
  ∃ word, AddsLine name word

/-- The name of the property that a key stands for: what a literal is read as, or an identifier.
Blanks behind it do not count. -/
def keyName? : List Char → Option String
  | [] => none
  | '"' :: body =>
    (Json.string? body).bind fun (meant, behind) => if behind.all isBlank then some meant else none
  | c :: rest =>
    if isStart c && (rest.dropWhile isPart).all isBlank then
      some (String.ofList (c :: rest.takeWhile isPart))
    else none

/-- The text of an object type begins with a brace and one line for each of some properties: its
comment, its key, a mark if it is optional, and its type. -/
def ShowsProperties (level : Nat) (text : String)
    (properties : List (PropertyHead × TypeExpr)) : Prop :=
  ∃ rest, text.toList = '\x7b' :: (properties.flatMap fun (head, type) =>
    '\n' :: (head.comment.text (indent level) ++ indent level ++ keyText head.name ++
      (if head.isOptional then "?" else "") ++ ": " ++ type.text level ++ ";").toList) ++ rest

/-! ## Keys of names -/

theorem AddsLine.toList {name word : String} (adds : AddsLine name word) :
    name.toList = word.toList ++ ['\n'] := by
  rw [adds.2, String.toList_append]
  rfl

theorem endsLine_iff {name : String} :
    EndsLine name ↔ ∃ word, IsIdentifier word ∧ name.toList = word ++ ['\n'] := by
  constructor
  · rintro ⟨word, adds⟩
    exact ⟨word.toList, adds.1, adds.toList⟩
  · rintro ⟨word, identifier, shape⟩
    have feed : "\n".toList = ['\n'] := rfl
    refine ⟨String.ofList word, by rwa [String.toList_ofList], ?_⟩
    rw [← String.toList_inj, shape, String.toList_append, String.toList_ofList, feed]

/-- No identifier ends in a line feed. -/
theorem not_isIdentifier_of_endsLine {name : String} (ends : EndsLine name) :
    ¬ IsIdentifier name.toList := by
  obtain ⟨word, adds⟩ := ends
  rintro ⟨c, rest, same, start, part⟩
  have member : '\n' ∈ c :: rest := by
    rw [← same, adds.toList]
    simp
  have isLegal : isPart '\n' = true := by
    rcases List.mem_cons.1 member with first | later
    · rw [first]
      exact isPart_of_isStart start
    · exact part _ later
  exact absurd isLegal (by decide)

theorem keyText_of_isIdentifier {name : String} (identifier : IsIdentifier name.toList) :
    keyText name = name := by
  rw [keyText, if_pos (isSafe_iff.2 (Or.inl identifier))]

theorem keyText_of_endsLine {name : String} (ends : EndsLine name) : keyText name = name := by
  rw [keyText, if_pos (isSafe_iff.2 (Or.inr (endsLine_iff.1 ends)))]

theorem keyText_of_neither {name : String} (other : ¬ IsIdentifier name.toList)
    (inLine : ¬ EndsLine name) : keyText name = quote name := by
  rw [keyText, if_neg fun safe => (isSafe_iff.1 safe).elim other (inLine ∘ endsLine_iff.2)]

theorem ne_quote_of_isStart {c : Char} (start : isStart c = true) : c ≠ '"' := by
  rintro rfl
  exact absurd start (by decide)

/-- A key stands for its name unless the name ends in a line feed behind an identifier. -/
theorem isKeyOf_keyText_iff (name : String) : IsKeyOf name (keyText name) ↔ ¬ EndsLine name := by
  constructor
  · rintro (⟨_, identifier⟩ | ⟨body, shape, _⟩) ends
    · exact not_isIdentifier_of_endsLine ends identifier
    · obtain ⟨_, ⟨c, rest, rfl, start, _⟩, spelled⟩ := endsLine_iff.1 ends
      rw [keyText_of_endsLine ends, spelled, List.cons_append] at shape
      exact ne_quote_of_isStart start (List.cons_eq_cons.1 shape).1
  · intro inLine
    by_cases identifier : IsIdentifier name.toList
    · exact Or.inl ⟨keyText_of_isIdentifier identifier, identifier⟩
    · rw [keyText_of_neither identifier inLine]
      exact Or.inr ⟨_, Source.toList_quote name, Json.string?_quoted name []⟩

/-! ## What keys stand for -/

/-- An identifier with blanks behind it stands for itself. -/
theorem keyName?_append {word behind : List Char} (identifier : IsIdentifier word)
    (blank : ∀ c ∈ behind, isBlank c = true) :
    keyName? (word ++ behind) = some (String.ofList word) := by
  obtain ⟨c, rest, rfl, start, part⟩ := identifier
  have stops : behind.takeWhile isPart = [] ∧ behind.dropWhile isPart = behind := by
    cases behind with
    | nil => exact ⟨rfl, rfl⟩
    | cons d behind =>
      have apart : ¬ isPart d = true := by
        intro isLegal
        have ink := isBlank_eq_false_of_isPart isLegal
        rw [blank d List.mem_cons_self] at ink
        cases ink
      exact ⟨List.takeWhile_cons_of_neg apart, List.dropWhile_cons_of_neg apart⟩
  rw [List.cons_append, keyName?]
  · rw [List.takeWhile_append_of_pos part, List.dropWhile_append_of_pos part, stops.1, stops.2,
      start, List.all_eq_true.2 blank, List.append_nil]
    rfl
  · exact ne_quote_of_isStart start

theorem keyName?_keyText_of_inLine {name : String} (inLine : ¬ EndsLine name) :
    keyName? (keyText name).toList = some name := by
  by_cases identifier : IsIdentifier name.toList
  · have alone : ∀ c ∈ ([] : List Char), isBlank c = true := by simp
    have read := keyName?_append identifier alone
    rw [List.append_nil, String.ofList_toList] at read
    rw [keyText_of_isIdentifier identifier, read]
  · rw [keyText_of_neither identifier inLine, Source.toList_quote, keyName?,
      Json.string?_quoted name []]
    rfl

theorem keyName?_keyText_of_addsLine {name word : String} (adds : AddsLine name word) :
    keyName? (keyText name).toList = some word := by
  have blank : ∀ c ∈ ['\n'], isBlank c = true := List.forall_mem_singleton.2 (by decide)
  rw [keyText_of_endsLine ⟨word, adds⟩, adds.toList, keyName?_append adds.1 blank,
    String.ofList_toList]

/-- Different names have keys for one property exactly if one of them is the other with a line feed
behind it. -/
theorem keyName?_eq_iff {m n : String} (different : m ≠ n) :
    keyName? (keyText m).toList = keyName? (keyText n).toList ↔ AddsLine m n ∨ AddsLine n m := by
  constructor
  · intro same
    by_cases first : EndsLine m <;> by_cases second : EndsLine n
    · obtain ⟨word, adds⟩ := first
      obtain ⟨other, addsOther⟩ := second
      rw [keyName?_keyText_of_addsLine adds, keyName?_keyText_of_addsLine addsOther,
        Option.some_inj] at same
      exact absurd (by rw [adds.2, addsOther.2, same]) different
    · obtain ⟨word, adds⟩ := first
      rw [keyName?_keyText_of_addsLine adds, keyName?_keyText_of_inLine second,
        Option.some_inj] at same
      exact Or.inl (same ▸ adds)
    · obtain ⟨word, adds⟩ := second
      rw [keyName?_keyText_of_inLine first, keyName?_keyText_of_addsLine adds,
        Option.some_inj] at same
      exact Or.inr (same ▸ adds)
    · rw [keyName?_keyText_of_inLine first, keyName?_keyText_of_inLine second,
        Option.some_inj] at same
      exact absurd same different
  · have shared : ∀ {longer shorter : String}, AddsLine longer shorter →
        keyName? (keyText longer).toList = keyName? (keyText shorter).toList := by
      intro longer shorter adds
      rw [keyName?_keyText_of_addsLine adds, keyName?_keyText_of_inLine fun ends =>
        not_isIdentifier_of_endsLine ends adds.1]
    rintro (adds | adds)
    · exact shared adds
    · exact (shared adds).symm

/-! ## Lines of properties -/

theorem cons_intercalate (between : Char) {lines : List (List Char)} (some : lines ≠ []) :
    between :: [between].intercalate lines = lines.flatMap (between :: ·) := by
  induction lines with
  | nil => exact absurd rfl some
  | cons line lines ih =>
    cases lines with
    | nil => simp
    | cons next lines =>
      have later := ih (List.cons_ne_nil _ _)
      rw [List.intercalate_cons_cons, List.flatMap_cons, ← later]
      simp

/-- The lines of an object type come one after the other behind its brace. -/
theorem toList_objectText (level : Nat) (properties index : List String) :
    ∃ rest, (objectText level properties index).toList =
      '\x7b' :: properties.flatMap (fun line => '\n' :: line.toList) ++ rest := by
  have opening : "\x7b\n".toList = ['\x7b', '\n'] := rfl
  have feed : "\n".toList = ['\n'] := rfl
  unfold objectText
  dsimp only
  generalize (if index.isEmpty = true then [] else
    [indent level ++ "[k: string]: " ++ unionText index ++ ";"]) = signature
  split
  · next none =>
    rw [List.isEmpty_iff, List.append_eq_nil_iff] at none
    rw [none.1]
    exact ⟨['\x7d'], rfl⟩
  · next some =>
    rw [List.isEmpty_iff] at some
    have lines := cons_intercalate '\n'
      (mt List.map_eq_nil_iff.1 some : (properties ++ signature).map String.toList ≠ [])
    refine ⟨signature.flatMap (fun line => '\n' :: line.toList) ++ '\n' ::
      (indent (level - 1)).toList ++ "\x7d".toList, ?_⟩
    rw [List.flatMap_map, List.flatMap_append] at lines
    simp only [String.toList_append, String.toList_intercalate, opening, feed, List.cons_append,
      List.nil_append, List.append_assoc]
    rw [← List.cons_append, lines]
    simp

theorem showsProperties_text (level : Nat) (properties : List (PropertyHead × TypeExpr))
    (index : List TypeExpr) :
    ShowsProperties (level + 1) ((object properties index).text level) properties := by
  rw [ShowsProperties, text, texts_eq_map, propertyTexts_eq_map]
  obtain ⟨rest, shape⟩ := toList_objectText (level + 1)
    (properties.map fun property => propertyText (level + 1) property.1
      (text (level + 1) property.2)) (index.map (text (level + 1)))
  refine ⟨rest, ?_⟩
  rw [shape, List.flatMap_map]
  rfl

end TypeExpr

namespace Compile

open TypeExpr

/-! ## Rendered objects -/

theorem name_of_propertyHead {job : Job} {required : List Scalar} {key : Scalar} {v : Value}
    {head : PropertyHead} (made : job.propertyHead required key v = .ok head) :
    key = .str head.name := by
  unfold Job.propertyHead at made
  split at made
  · cases made
    rfl
  · cases made

section

variable {job : Job} {inner : Inner} {around : List Nat} {entries : Entries} {draft : Draft}

/-- An object type has a property for each entry under `properties`, in order. -/
theorem object_properties : Runs draft (job.object inner around entries) fun type _ =>
    ∃ declared properties index, entriesUnder job.graph entries "properties" = .ok declared ∧
      type = .object properties index ∧
      List.Forall₂ (fun entry property => entry.1 = .str property.1.name) declared properties := by
  rw [Job.object]
  refine Runs.of_bind (Runs.of_lift fun required _ => ?_)
  refine Runs.of_bind (Runs.of_lift fun declared given => ?_)
  refine Runs.of_bind ((Runs.of_mapM (fun _ _ => True)
    (fun _ (entry : Scalar × Value) (property : PropertyHead × TypeExpr) =>
      entry.1 = .str property.1.name) (fun _ => trivial) (fun _ _ => trivial)
    (fun _ same => same) _ declared fun entry _ d _ => ?_).mono ?_)
  · refine Runs.of_bind (Runs.of_lift fun head made => ?_)
    refine Runs.of_bind ?_
    exact fun type after _ => Runs.of_pure ⟨trivial, name_of_propertyHead made⟩
  · rintro properties between ⟨_, all⟩
    refine Runs.of_bind ?_
    exact fun index after _ => Runs.of_pure ⟨declared, properties, index, given, rfl, all⟩

/-- Whatever is around an object schema and inside it, its type shows a key for each name under
`properties`, in order. A key stands for its name unless that is an identifier with a line feed
behind it, and different names have keys for one property exactly if one of them is the other with a
line feed behind it. -/
theorem object_keys {type : TypeExpr} {after : Draft}
    (rendered : (job.object inner around entries).run draft = .ok (type, after)) :
    ∃ declared properties index, entriesUnder job.graph entries "properties" = .ok declared ∧
      type = .object properties index ∧
      List.Forall₂ (fun entry property => entry.1 = .str property.1.name) declared properties ∧
      (∀ level, ShowsProperties (level + 1) (type.text level) properties) ∧
      (∀ property ∈ properties,
        IsKeyOf property.1.name (keyText property.1.name) ↔ ¬ EndsLine property.1.name) ∧
      ∀ first ∈ properties, ∀ second ∈ properties, first.1.name ≠ second.1.name →
        (keyName? (keyText first.1.name).toList = keyName? (keyText second.1.name).toList ↔
          AddsLine first.1.name second.1.name ∨ AddsLine second.1.name first.1.name) := by
  obtain ⟨declared, properties, index, given, rfl, all⟩ := object_properties type after rendered
  exact ⟨declared, properties, index, given, rfl, all,
    fun level => showsProperties_text level properties index,
    fun property _ => isKeyOf_keyText_iff property.1.name,
    fun _ _ _ _ different => keyName?_eq_iff different⟩

end

/-- An object schema with two properties that are texts. -/
def twoProperties (first second : String) : Graph :=
  ⟨#[.mapping [(.str "type", .str "object"), (.str "properties", .node 1)],
    .mapping [(.str first, .node 2), (.str second, .node 2)],
    .mapping [(.str "type", .str "string")]]⟩

/-- Compiles the type of an object schema with two properties. -/
def twoKeys (first second : String) : Except Error (TypeExpr × Draft) :=
  let job : Job := ⟨twoProperties first second, 0, {}⟩
  (job.object (job.expression job.depth) [0]
    [(.str "type", .str "object"), (.str "properties", .node 1)]).run {}

theorem getLast?_of_endsLine {name : String} (ends : EndsLine name) :
    name.toList.getLast? = some '\n' := by
  obtain ⟨word, adds⟩ := ends
  rw [adds.toList, List.getLast?_concat]

/-- A name that is no identifier is quoted, and its key stands for it. -/
theorem object_keys_quoted : ∃ type after first second index,
    twoKeys "a" "\"a\n" = .ok (type, after) ∧ type = .object [first, second] index ∧
    first.1.name = "a" ∧ second.1.name = "\"a\n" ∧ IsKeyOf "a" (keyText "a") ∧
    keyText "\"a\n" = "\"\\\"a\\n\"" ∧ IsKeyOf "\"a\n" (keyText "\"a\n") := by
  obtain ⟨⟨type, after⟩, ran, _⟩ : ∃ made, twoKeys "a" "\"a\n" = .ok made ∧
      made.2.names.length = 0 := exists_of_toOption_map (by decide +kernel)
  obtain ⟨declared, properties, index, given, shape, all, _, keys, _⟩ := object_keys ran
  cases given
  obtain ⟨first, later, isFirst, others, rfl⟩ := List.forall₂_cons_left_iff.1 all
  obtain ⟨second, rest, isSecond, none, rfl⟩ := List.forall₂_cons_left_iff.1 others
  obtain rfl := List.forall₂_nil_left_iff.1 none
  have firstName : first.1.name = "a" := (Scalar.str.inj isFirst).symm
  have secondName : second.1.name = "\"a\n" := (Scalar.str.inj isSecond).symm
  have inLine : ¬ EndsLine "a" := fun ends => absurd (getLast?_of_endsLine ends) (by decide)
  have noIdentifier : ¬ EndsLine "\"a\n" := by
    intro ends
    obtain ⟨_, ⟨c, rest, rfl, start, _⟩, spelled⟩ := endsLine_iff.1 ends
    exact ne_quote_of_isStart start (List.cons_eq_cons.1 spelled).1.symm
  have ownFirst := keys first List.mem_cons_self
  have ownSecond := keys second (List.mem_cons_of_mem _ List.mem_cons_self)
  rw [firstName] at ownFirst
  rw [secondName] at ownSecond
  exact ⟨type, after, first, second, index, ran, shape, firstName, secondName, ownFirst.2 inLine,
    by decide +kernel, ownSecond.2 noIdentifier⟩

/-- A line feed behind an identifier stays outside of quotes, so that two properties have one key. -/
theorem not_isKeyOf_lineFeed : ∃ type after, twoKeys "a" "a\n" = .ok (type, after) ∧
    type.text 0 = "\x7b\n  a?: string;\n  a\n?: string;\n  [k: string]: unknown;\n\x7d" ∧
    ¬ IsKeyOf "a\n" (keyText "a\n") ∧
    keyName? (keyText "a").toList = keyName? (keyText "a\n").toList := by
  obtain ⟨⟨type, after⟩, ran, shown⟩ : ∃ made, twoKeys "a" "a\n" = .ok made ∧
      made.1.text 0 = "\x7b\n  a?: string;\n  a\n?: string;\n  [k: string]: unknown;\n\x7d" :=
    exists_of_toOption_map (by decide +kernel)
  have adds : AddsLine "a\n" "a" := ⟨⟨'a', [], rfl, rfl, by simp⟩, rfl⟩
  exact ⟨type, after, ran, shown, fun isKey => (isKeyOf_keyText_iff _).1 isKey ⟨_, adds⟩,
    (keyName?_eq_iff (by decide)).2 (Or.inr adds)⟩

end Compile

end Typewright
