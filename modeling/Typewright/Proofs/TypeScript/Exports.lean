import Typewright.Model.Extract
import Typewright.Proofs.TypeScript.Declarations

/-!
# What a text exports

A text exports a name if one of its lines begins with the words of an exported declaration and the
name (`Source.Exports`). The text of a model exports the name of its declaration, with an underscore
in front if it is generated, and nothing else (`Declaration.exports_codeOf_iff`): no line of a
comment or of a type begins as a declaration does, and marking passes over the comment. So it is for
every definition that splitting gives (`Declaration.forall₂_definitionsOf`).
-/

namespace Typewright.Source

open Text

/-! ## Exported names -/

/-- The words that an exported declaration begins with. -/
def exportWords : List String :=
  ["export interface ", "export type ", "export const enum "]

/-- Whether a text begins with the export of a name. -/
def beginsExport (name : String) (text : List Char) : Bool :=
  exportWords.any fun words => (words.toList ++ (name.toList ++ [' '])).isPrefixOf text

/-- Whether a line of a text begins with the export of a name. The flag says whether the text begins
a line. -/
def exportsFrom (name : String) : Bool → List Char → Bool
  | _, [] => false
  | start, c :: rest =>
    start && beginsExport name (c :: rest) || exportsFrom name (c == '\n') rest

/-- A text that exports a name. -/
def Exports (code name : String) : Prop :=
  exportsFrom name true code.toList = true

variable {start stop : Bool} {text rest : List Char} {name : String}

theorem beginsExport_eq_false {c : Char} (other : c ≠ 'e') :
    beginsExport name (c :: rest) = false := by
  have letters : "export interface ".toList = 'e' :: "xport interface ".toList ∧
      "export type ".toList = 'e' :: "xport type ".toList ∧
      "export const enum ".toList = 'e' :: "xport const enum ".toList := ⟨rfl, rfl, rfl⟩
  rw [beginsExport, List.any_eq_false]
  intro words member begins
  rw [List.isPrefixOf_iff_prefix] at begins
  simp only [exportWords, List.mem_cons, List.not_mem_nil, or_false] at member
  rcases member with rfl | rfl | rfl
  · rw [letters.1, List.cons_append, List.cons_prefix_cons] at begins
    exact other begins.1.symm
  · rw [letters.2.1, List.cons_append, List.cons_prefix_cons] at begins
    exact other begins.1.symm
  · rw [letters.2.2, List.cons_append, List.cons_prefix_cons] at begins
    exact other begins.1.symm

/-- A quiet text exports nothing. -/
theorem Quiet.exportsFrom (quiet : Quiet start text stop) (rest : List Char) :
    Source.exportsFrom name start (text ++ rest) = Source.exportsFrom name stop rest := by
  induction quiet with
  | nil => rfl
  | @step start stop c text silent _ ih =>
    rw [List.cons_append, Source.exportsFrom, ih]
    cases start with
    | false => rw [Bool.false_and, Bool.false_or]
    | true => rw [beginsExport_eq_false (silent rfl), Bool.and_false, Bool.false_or]

/-- A quiet text is quiet from its beginning. -/
theorem Quiet.exists_of_append {front : List Char} (quiet : Quiet start (front ++ text) stop) :
    ∃ middle, Quiet start front middle := by
  induction front generalizing start with
  | nil => exact ⟨_, .nil start⟩
  | cons c front ih =>
    cases quiet with
    | step silent later =>
      obtain ⟨middle, front⟩ := ih later
      exact ⟨middle, .step silent front⟩

theorem append_blank_prefix_iff {own : List Char} (plain : ' ' ∉ text) (ownPlain : ' ' ∉ own) :
    text ++ [' '] <+: own ++ ' ' :: rest ↔ text = own := by
  induction text generalizing own with
  | nil =>
    cases own with
    | nil => simp
    | cons d own =>
      have other : ' ' ≠ d := fun same => ownPlain (by rw [same]; exact List.mem_cons_self)
      simp [other]
  | cons c text ih =>
    have differs : c ≠ ' ' := fun same => plain (by rw [same]; exact List.mem_cons_self)
    have later := fun {own} => @ih own fun member => plain (List.mem_cons_of_mem _ member)
    cases own with
    | nil => simp [differs]
    | cons d own =>
      rw [List.cons_append, List.cons_append, List.cons_prefix_cons,
        later fun member => ownPlain (List.mem_cons_of_mem _ member), List.cons_eq_cons]

/-- The beginning of a declaration exports its name. -/
theorem beginsExport_keywords (isInterface : Bool) {own : String} (plain : ' ' ∉ name.toList)
    (ownPlain : ' ' ∉ own.toList) :
    beginsExport name (keywords isInterface ++ (own.toList ++ ' ' :: rest)) = true ↔
      name = own := by
  have same := @append_blank_prefix_iff name.toList rest own.toList plain ownPlain
  rw [← String.toList_inj, ← same, beginsExport, List.any_eq_true]
  simp only [List.isPrefixOf_iff_prefix]
  cases isInterface with
  | false => simp [exportWords, keywords]
  | true => simp [exportWords, keywords]

/-- A declaration exports its name, and nothing else if what follows the name is quiet. -/
theorem exportsFrom_keywords (isInterface : Bool) {own : String} (plain : ' ' ∉ name.toList)
    (ownPlain : ∀ c ∈ own.toList, c ≠ ' ' ∧ c ≠ '\n') (quiet : Quiet false rest stop) :
    exportsFrom name true (keywords isInterface ++ (own.toList ++ ' ' :: rest)) = true ↔
      name = own := by
  have begins := @beginsExport_keywords rest name isInterface own plain
    fun member => (ownPlain _ member).1 rfl
  obtain ⟨tail, shape, isLine⟩ : ∃ tail, keywords isInterface = 'e' :: tail ∧
      Quiet false tail false := by
    cases isInterface with
    | false => exact ⟨"xport type ".toList, rfl, (inert_of_plain (by decide)).quiet⟩
    | true => exact ⟨"xport interface ".toList, rfl, (inert_of_plain (by decide)).quiet⟩
  have inside : Quiet false (tail ++ (own.toList ++ ' ' :: rest)) stop := by
    refine isLine.append ((quiet_line fun c member => (ownPlain c member).2).append ?_)
    exact (@quiet_char ' ' false (by simp)).cons quiet
  have nothing : exportsFrom name false (tail ++ (own.toList ++ ' ' :: rest)) = false := by
    rw [← List.append_nil (tail ++ _), inside.exportsFrom]
    rfl
  rw [shape, List.cons_append] at begins ⊢
  have inLine : ('e' == '\n') = false := by decide
  rw [exportsFrom, inLine, nothing, Bool.true_and, Bool.or_false]
  exact begins

/-! ## Marking -/

/-- A text whose first visible character is no first letter of a head. -/
def ShowsOther (text : List Char) : Prop :=
  ∃ blanks visible more, text = blanks ++ visible :: more ∧ (∀ b ∈ blanks, isBlank b = true) ∧
    isBlank visible = false ∧ visible ≠ 'e'

namespace ShowsOther

theorem append (shows : ShowsOther text) (rest : List Char) : ShowsOther (text ++ rest) := by
  obtain ⟨blanks, visible, more, shape, facts⟩ := shows
  exact ⟨blanks, visible, more ++ rest, by rw [shape, List.append_assoc, List.cons_append], facts⟩

/-- No name that could be marked comes first in such a text. -/
theorem titleOffset? (shows : ShowsOther text) : Source.titleOffset? text = none := by
  obtain ⟨blanks, visible, more, shape, blank, isVisible, other⟩ := shows
  have body : text.dropWhile isBlank = visible :: more := by
    rw [shape, List.dropWhile_append_of_pos blank, List.dropWhile_cons_of_neg (by simp [isVisible])]
  simp [Source.titleOffset?, body, head?_eq_none other]

theorem head?_ne (shows : ShowsOther text) : text.head? ≠ some 'e' := by
  obtain ⟨blanks, visible, more, shape, blank, _, other⟩ := shows
  rw [shape]
  cases blanks with
  | nil => simpa using other
  | cons b blanks =>
    intro first
    have isBlank := blank b List.mem_cons_self
    rw [Option.some.inj first] at isBlank
    exact absurd isBlank (by decide)

end ShowsOther

/-- A text in whose lines nothing is marked. The flags say whether the text begins a line and
whether what follows it does. -/
inductive Unmarked : Bool → List Char → Bool → Prop
  | nil (start : Bool) : Unmarked start [] start
  | step {start stop : Bool} {c : Char} {text : List Char}
      (shows : start = true → ShowsOther (c :: text)) (later : Unmarked (c == '\n') text stop) :
      Unmarked start (c :: text) stop

namespace Unmarked

theorem markFrom (unmarked : Unmarked start text stop) (rest : List Char) :
    Source.markFrom start (text ++ rest) = text ++ Source.markFrom stop rest := by
  induction unmarked with
  | nil => rfl
  | @step start stop c text shows _ ih =>
    have here : (if start then Source.titleOffset? (c :: (text ++ rest)) else none) = none := by
      cases start with
      | false => rfl
      | true => exact ((shows rfl).append rest).titleOffset?
    rw [List.cons_append, Source.markFrom, here, ih, List.cons_append]

theorem quiet (unmarked : Unmarked start text stop) : Quiet start text stop := by
  induction unmarked with
  | nil => exact .nil _
  | step shows _ ih =>
    exact .step (fun begins same => (shows begins).head?_ne (by rw [same, List.head?_cons])) ih

theorem exists_of_append {front : List Char} (unmarked : Unmarked start (front ++ text) stop) :
    ∃ middle, Unmarked middle text stop := by
  induction front generalizing start with
  | nil => exact ⟨start, unmarked⟩
  | cons c front ih =>
    cases unmarked with
    | step _ later => exact ih later

end Unmarked

theorem unmarked_line (oneLine : ∀ c ∈ text, c ≠ '\n') (later : Unmarked true rest stop) :
    Unmarked false (text ++ '\n' :: rest) stop := by
  induction text with
  | nil => exact .step (by simp) later
  | cons c text ih =>
    have inside := ih fun c member => oneLine c (List.mem_cons_of_mem _ member)
    rw [← beq_eq_false_iff_ne.2 (oneLine c List.mem_cons_self)] at inside
    exact .step (by simp) inside

/-- Whole lines whose first visible characters are no first letters of a head. -/
theorem unmarked_lines {l : List (List Char)}
    (each : ∀ line ∈ l, (∀ c ∈ line, c ≠ '\n') ∧ ShowsOther line) :
    Unmarked true (l.flatMap (· ++ ['\n'])) true := by
  induction l with
  | nil => exact .nil true
  | cons line l ih =>
    obtain ⟨oneLine, shows⟩ := each line List.mem_cons_self
    have later := ih fun line member => each line (List.mem_cons_of_mem _ member)
    rw [List.flatMap_cons, List.append_assoc, List.singleton_append]
    cases line with
    | nil =>
      obtain ⟨_, _, _, empty, _⟩ := shows
      simp at empty
    | cons c line =>
      have inside := unmarked_line (fun c member => oneLine c (List.mem_cons_of_mem _ member)) later
      rw [← beq_eq_false_iff_ne.2 (oneLine c List.mem_cons_self)] at inside
      exact .step (fun _ => shows.append _) inside

/-- Marking puts an underscore before the name of a declaration. -/
theorem markFrom_keywords (isInterface : Bool) (isName : Naming.IsName name)
    (words : ∀ c ∈ name.toList, isWord c = true) (rest : List Char) :
    markFrom true (keywords isInterface ++ (name.toList ++ ' ' :: rest)) =
      keywords isInterface ++ (("_" ++ name).toList ++ ' ' :: rest) := by
  have whole : leadingWord name = name.toList := List.takeWhile_eq_self_iff.2 words
  have found := head?_keywords isInterface isName rest
  rw [whole, if_neg (by rw [List.isEmpty_iff]; exact isName.toList_ne_nil)] at found
  obtain ⟨tail, shape⟩ : ∃ tail, keywords isInterface = 'e' :: tail := by
    cases isInterface with
    | false => exact ⟨_, rfl⟩
    | true => exact ⟨_, rfl⟩
  have visible : isBlank 'e' = false := by decide
  have space : isBlank ' ' = true := by decide
  have body : (keywords isInterface ++ (name.toList ++ ' ' :: rest)).dropWhile isBlank =
      keywords isInterface ++ (name.toList ++ ' ' :: rest) := by
    rw [shape, List.cons_append, List.dropWhile_cons_of_neg (by simp [visible])]
  have after : (keywords isInterface ++ (name.toList ++ ' ' :: rest)).drop
      ((keywords isInterface).length + name.toList.length) = ' ' :: rest := by
    rw [← List.append_assoc, ← List.length_append, List.drop_left]
  have offset : titleOffset? (keywords isInterface ++ (name.toList ++ ' ' :: rest)) =
      some (keywords isInterface).length := by
    simp only [titleOffset?, body, found, after, afterBlanks?, space, if_true, Option.bind_eq_bind,
      Option.bind_some]
    congr 1
    omega
  have marked : markFrom true (keywords isInterface ++ (name.toList ++ ' ' :: rest)) =
      (keywords isInterface ++ (name.toList ++ ' ' :: rest)).take (keywords isInterface).length ++
        '_' :: (keywords isInterface ++ (name.toList ++ ' ' :: rest)).drop
          (keywords isInterface).length := by
    conv_lhs =>
      rw [shape, List.cons_append, markFrom, if_pos rfl, ← List.cons_append, ← shape, offset]
  rw [marked, List.take_left, List.drop_left, String.toList_append]
  rfl

/-! ## Leads and what is between declarations -/

theorem unmarked_cut {lead : List Char} (isLead : IsLead lead)
    (unmarked : Unmarked true lead true) : Unmarked true (cut lead) true := by
  rcases isLead.cut_cases with ⟨_, empty⟩ | ⟨inner, shape⟩
  · rw [empty]
    exact .nil true
  · rw [← front_append_cut lead] at unmarked
    obtain ⟨middle, ending⟩ := unmarked.exists_of_append
    rw [shape] at ending ⊢
    cases ending with
    | step _ later =>
      exact .step (fun _ => ⟨[], '/', _, rfl, by simp, by decide, by decide⟩) later

/-- If all blocks have heads, no declaration begins in what is left to an alias before them. -/
theorem quiet_spill {bs : List Block} (heads : ∀ b ∈ bs, b.head.isSome = true)
    (quiet : ∀ b ∈ bs, Quiet true b.lead true) : ∃ stop, Quiet true (spill bs) stop := by
  cases bs with
  | nil => exact ⟨true, .nil true⟩
  | cons b bs =>
    have whole := quiet b List.mem_cons_self
    rw [← front_append_cut b.lead] at whole
    rw [spill, if_pos (heads b List.mem_cons_self)]
    exact whole.exists_of_append

/-- What follows the name of an alias, with what is left to it. -/
theorem exists_quiet_alias {type : List Char} (inert : Inert type) {following : List Block}
    (spilled : ∃ stop, Quiet true (spill following) stop) : ∃ stop,
      Quiet false (['=', ' '] ++ (type ++ ([';'] ++ trimEnd ('\n' :: spill following)))) stop := by
  have equals : Inert ['=', ' '] := inert_of_plain (by decide)
  have semicolon : Inert [';'] := inert_of_plain (by decide)
  obtain ⟨stop, spilled⟩ := spilled
  have whole : Quiet false ('\n' :: spill following) stop :=
    (@quiet_char '\n' false (by simp)).cons spilled
  obtain ⟨blanks, parts⟩ := prefix_trimEnd ('\n' :: spill following)
  rw [← parts] at whole
  obtain ⟨middle, after⟩ := whole.exists_of_append
  exact ⟨middle, equals.quiet.append (inert.quiet.append (semicolon.quiet.append after))⟩

end Typewright.Source

namespace Typewright

open Text Source

theorem showsOther_starred {rest : List Char} : ShowsOther (' ' :: '*' :: rest) := by
  refine ⟨[' '], '*', rest, rfl, fun b member => ?_, by decide, by decide⟩
  rw [List.mem_singleton.1 member]
  decide

theorem Comment.showsOther_of_mem_layout {comment : Comment} {line : List Char}
    (member : line ∈ comment.layout "") : ShowsOther line := by
  rw [Comment.layout] at member
  split at member
  · cases member
  · simp only [List.mem_cons, List.mem_append, List.mem_map, List.not_mem_nil, or_false] at member
    rcases member with rfl | ⟨text, _, rfl⟩ | rfl
    · exact ⟨[], '/', ['*', '*'], rfl, by simp, by decide, by decide⟩
    · rw [Comment.shown_eq]
      exact showsOther_starred
    · exact showsOther_starred

theorem Comment.IsDescription.unmarked {comment : Comment} (described : comment.IsDescription) :
    Unmarked true (comment.text "").toList true := by
  rw [Comment.toList_text]
  exact unmarked_lines fun line member =>
    ⟨(described.layout (by simp) member).1, Comment.showsOther_of_mem_layout member⟩

namespace Declaration

/-- The name that the model of a declaration exports. -/
def exportedName (generated : Bool) (name : String) : String :=
  if generated then "_" ++ name else name

/-- A text that is cut out for a declaration: some of its comment, its first words and its name, and
what follows it. -/
def IsCodeOf (d : Declaration) (code : String) : Prop :=
  ∃ lead isInterface rest stop, Unmarked true lead true ∧ Quiet false rest stop ∧
    code.toList = lead ++ (keywords isInterface ++ (d.name.toList ++ ' ' :: rest))

section

variable {d : Declaration} (tame : d.IsTame)
include tame

theorem isCodeOf_codeOf {head : Head} (isHead : d.headOf = some head) {following : List Block}
    (spilled : ∃ stop, Quiet true (spill following) stop) :
    IsCodeOf d (String.ofList (codeOf (block d tame) head following)) := by
  have lead := unmarked_cut (block d tame).isLead tame.described.unmarked
  have words : ∀ text, Naming.IsName text → ∀ c ∈ text.toList, Identifier.isPart c = true :=
    fun _ isName => isName.settled.part
  have body := tame.body
  have shown : (block d tame).body = (bareText d.name d.body).toList := rfl
  rw [IsCodeOf, String.toList_ofList, codeOf, shown]
  rw [headOf] at isHead
  cases shape : d.body with
  | interface type =>
    rw [shape] at body isHead
    simp only [Option.ite_none_left_eq_some] at isHead
    obtain ⟨_, same⟩ := isHead
    cases same
    cases body with
    | interface built =>
      have inert := (TypeExpr.isBraced_text (fun _ => id) words built 0).inert
      refine ⟨_, true, _, _, lead, inert.quiet, ?_⟩
      rw [toList_interface, if_pos rfl, List.append_nil]
  | constEnum members =>
    rw [shape] at isHead
    cases isHead
  | «alias» type =>
    rw [shape] at body isHead
    simp only [Option.ite_none_left_eq_some] at isHead
    obtain ⟨_, same⟩ := isHead
    cases same
    cases body with
    | aliased built =>
      obtain ⟨stop, tail⟩ :=
        exists_quiet_alias (TypeExpr.inert_text (fun _ => id) words built 0) spilled
      refine ⟨_, false, _, stop, lead, tail, ?_⟩
      rw [toList_alias, if_neg Bool.false_ne_true]
      simp

end

theorem plain_exportedName {name : String} (isName : Naming.IsName name) (generated : Bool) :
    ∀ c ∈ (exportedName generated name).toList, c ≠ ' ' ∧ c ≠ '\n' := by
  have part : ∀ c, Identifier.isPart c = true → c ≠ ' ' ∧ c ≠ '\n' := by
    intro c isPart
    have visible := Identifier.isBlank_eq_false_of_isPart isPart
    constructor <;> rintro rfl <;> exact absurd visible (by decide)
  intro c member
  cases generated with
  | false => exact part c (isName.settled.part c member)
  | true =>
    rw [exportedName, if_pos rfl, String.toList_append, List.mem_append] at member
    rcases member with mark | inName
    · exact part c (by rw [List.mem_singleton.1 mark]; decide)
    · exact part c (isName.settled.part c inName)

/-- The text of a model exports the name of its declaration, marked if it is generated, and nothing
else. -/
theorem exports_codeOf_iff {d : Declaration} {code name : String} (isCode : IsCodeOf d code)
    (isName : Naming.IsName d.name) (words : ∀ c ∈ d.name.toList, isWord c = true)
    (plain : ' ' ∉ name.toList) (generated : Bool) :
    Exports (Model.codeOf generated code) name ↔ name = exportedName generated d.name := by
  obtain ⟨lead, isInterface, rest, stop, unmarked, quiet, shape⟩ := isCode
  have marked : (if generated then mark code else code).toList = lead ++ (keywords isInterface ++
      ((exportedName generated d.name).toList ++ ' ' :: rest)) := by
    cases generated with
    | false => exact shape
    | true =>
      rw [if_pos rfl, mark, String.toList_ofList, shape, unmarked.markFrom,
        markFrom_keywords isInterface isName words]
      rfl
  have stripped : (Model.codeOf generated code).toList = lead ++ (keywords isInterface ++
      ((exportedName generated d.name).toList ++
        ' ' :: ((rest.reverse.dropWhile (· == '\n')).reverse ++ ['\n']))) := by
    have kept := fun front => @dropped_append_cons ' ' front rest (· == '\n') (by decide)
    rw [Model.codeOf, String.toList_ofList, marked, ← List.append_assoc, ← List.append_assoc, kept]
    simp
  -- what is left of the text after the name is as quiet as it was
  have after : ∃ stop,
      Quiet false ((rest.reverse.dropWhile (· == '\n')).reverse ++ ['\n']) stop := by
    have shorter : rest.reverse.dropWhile (· == '\n') <:+ rest.reverse := List.dropWhile_suffix _
    obtain ⟨dropped, parts⟩ := List.reverse_prefix.2 shorter
    rw [List.reverse_reverse] at parts
    rw [← parts] at quiet
    obtain ⟨middle, front⟩ := quiet.exists_of_append
    exact ⟨_, front.append (@quiet_char '\n' middle fun _ => by decide)⟩
  obtain ⟨last, after⟩ := after
  rw [Exports, stripped, unmarked.quiet.exportsFrom,
    exportsFrom_keywords isInterface plain (plain_exportedName isName generated) after]

/-- What a definition is to the declaration that it is cut from: it has its title, and the model
made of it exports the name of the declaration, marked if it is generated, and nothing else. -/
def IsCutFrom (definition : Definition) (d : Declaration) : Prop :=
  definition.title = d.name ∧ ∀ (generated : Bool) (name : String), ' ' ∉ name.toList →
    (Exports (Model.codeOf generated definition.code) name ↔ name = exportedName generated d.name)

/-- Splitting the text of declarations that are read under their names cuts one definition from
each, in order. -/
theorem forall₂_definitionsOf {ds : List Declaration} (tame : ∀ d ∈ ds, d.IsTame)
    (words : ∀ d ∈ ds, ∀ c ∈ d.name.toList, isWord c = true)
    (noEnum : ∀ d ∈ ds, ∀ members, d.body ≠ .constEnum members) :
    List.Forall₂ IsCutFrom (definitionsOf (ds.pmap block tame)) ds := by
  induction ds with
  | nil => exact .nil
  | cons d ds ih =>
    obtain ⟨isTame, laterTame⟩ := List.forall_mem_cons.1 tame
    obtain ⟨isWord, laterWords⟩ := List.forall_mem_cons.1 words
    obtain ⟨isType, laterTypes⟩ := List.forall_mem_cons.1 noEnum
    obtain ⟨head, isHead, title⟩ := exists_headOf isTame isWord isType
    have spilled := quiet_spill (isSome_head_of_mem_blocks laterTame laterWords laterTypes)
      fun b member => by
        obtain ⟨next, inside, rfl⟩ := List.mem_pmap.1 member
        exact (laterTame next inside).described.unmarked.quiet
    have isCode := isCodeOf_codeOf isTame isHead spilled
    have isBlockHead : (block d isTame).head = some head := isHead
    rw [List.pmap_cons, definitionsOf_cons isBlockHead]
    refine .cons ⟨by rw [title, String.ofList_toList], fun generated name plain => ?_⟩
      (ih laterTame laterWords laterTypes)
    exact exports_codeOf_iff isCode isTame.isName isWord plain generated

end Declaration

end Typewright
