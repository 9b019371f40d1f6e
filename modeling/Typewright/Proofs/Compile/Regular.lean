import Typewright.Proofs.Compile.Coverage
import Typewright.Proofs.Compile.Displays
import Typewright.Proofs.Compile.Reads

/-!
# Regular schemas

A schema is regular if what a compilation relies on is of a kind that it takes, whichever of the
keywords of the schema count (`Compile.Regular`). Compiling a regular schema reads what it is made
of (`Compile.readsEntries_of_regular`), and the copy of a regular schema is regular
(`Standalone.Placed.regular_image`).
-/

namespace Typewright.Compile

/-- Whether a loop over a value goes through scalars alone. -/
def loopsOverScalars (g : Graph) (v : Value) : Bool :=
  match elements g v with
  | .ok values => values.all fun value => value.node?.isNone
  | .error _ => false

/-- A schema of which what a compilation relies on is of a kind that it takes. What counts as false
is as good as missing for the keys that are required and for the mappings. No integer that a text is
made of has too many digits. -/
structure Regular (g : Graph) (entries : Entries) : Prop where
  required : ∀ v, entries.get? "required" = some v → g.isTruthy v = true →
    loopsOverScalars g v = true
  properties : ∀ v, entries.get? "properties" = some v → g.isTruthy v = false ∨
    ∃ inside, g.entries? v = some inside ∧ ∀ entry ∈ inside, ∃ text, entry.1 = .str text
  patterns : ∀ v, entries.get? "patternProperties" = some v →
    g.isTruthy v = false ∨ g.isMapping v = true
  type : ∀ v, entries.get? "type" = some v → (∃ s, v = .scalar s) ∨
    ∃ words, g.items? v = some words ∧ ∀ word ∈ words, ∃ s, word = .scalar s
  choices : ∀ v, entries.get? "enum" = some v → (∃ values, elements g v = .ok values) ∨
    (entries.get? "tsEnumNames").bind g.items? = none
  raw : ∀ v, entries.get? "tsType" = some v → Display.hasLongInteger g v = false
  constant : ∀ v, entries.get? "const" = some v → v.isLongInteger = false
  values : ∀ v, entries.get? "enum" = some v → ∀ values, elements g v = .ok values →
    ∀ value ∈ values, value.isLongInteger = false
  names : ∀ names, (entries.get? "tsEnumNames").bind g.items? = some names →
    ∀ name ∈ names, Display.hasLongInteger g name = false

/-- Whether a schema is regular. -/
def isRegular (g : Graph) (entries : Entries) : Bool :=
  ((entries.get? "required").all fun v => !g.isTruthy v || loopsOverScalars g v) &&
  ((entries.get? "properties").all fun v => !g.isTruthy v || (g.entries? v).any fun inside =>
    inside.all fun entry => (Value.scalar entry.1).str?.isSome) &&
  ((entries.get? "patternProperties").all fun v => !g.isTruthy v || g.isMapping v) &&
  ((entries.get? "type").all fun v => v.node?.isNone || (g.items? v).any fun words =>
    words.all fun word => word.node?.isNone) &&
  ((entries.get? "enum").all fun v => (elements g v).toOption.isSome ||
    ((entries.get? "tsEnumNames").bind g.items?).isNone) &&
  ((entries.get? "tsType").all fun v => !Display.hasLongInteger g v) &&
  ((entries.get? "const").all fun v => !v.isLongInteger) &&
  ((entries.get? "enum").all fun v => (elements g v).toOption.all fun values =>
    values.all fun value => !value.isLongInteger) &&
  (((entries.get? "tsEnumNames").bind g.items?).all fun names =>
    names.all fun name => !Display.hasLongInteger g name)

/-! ## Reading regular schemas -/

theorem node?_eq_none_iff {v : Value} : v.node? = none ↔ ∃ s, v = .scalar s := by
  cases v <;> simp [Value.node?]

theorem loopsOverScalars_iff {g : Graph} {v : Value} :
    loopsOverScalars g v = true ↔
      ∃ values, elements g v = .ok values ∧ ∀ value ∈ values, ∃ s, value = .scalar s := by
  rw [loopsOverScalars]
  cases elements g v with
  | error e => simp
  | ok values => simp [node?_eq_none_iff]

theorem regular_of_isRegular {g : Graph} {entries : Entries} (passed : isRegular g entries = true) :
    Regular g entries := by
  simp only [isRegular, Bool.and_eq_true, Option.all_eq_true] at passed
  obtain ⟨⟨⟨⟨⟨⟨⟨⟨required, properties⟩, patterns⟩, type⟩, choices⟩, raw⟩, constant⟩, values⟩,
    names⟩ := passed
  refine ⟨fun v held truthy => ?_, fun v held => ?_, fun v held => ?_, fun v held => ?_,
    fun v held => ?_, fun v held => ?_, fun v held => ?_, fun v held given read value member => ?_,
    fun given listed name member => ?_⟩
  · have checked := required v held
    rwa [truthy, Bool.not_true, Bool.false_or] at checked
  · have checked := properties v held
    rw [Bool.or_eq_true, Bool.not_eq_true', Option.any_eq_true] at checked
    refine checked.imp_right fun ⟨inside, read, texts⟩ => ⟨inside, read, fun entry member => ?_⟩
    have isText := List.all_eq_true.1 texts entry member
    generalize entry.1 = key at isText
    cases key with
    | str text => exact ⟨text, rfl⟩
    | _ => cases isText
  · have checked := patterns v held
    rwa [Bool.or_eq_true, Bool.not_eq_true'] at checked
  · have checked := type v held
    rw [Bool.or_eq_true, Option.isNone_iff_eq_none, node?_eq_none_iff, Option.any_eq_true]
      at checked
    refine checked.imp_right fun ⟨words, read, scalars⟩ => ⟨words, read, fun word member => ?_⟩
    have isScalar := List.all_eq_true.1 scalars word member
    rwa [Option.isNone_iff_eq_none, node?_eq_none_iff] at isScalar
  · have checked := choices v held
    rw [Bool.or_eq_true, Option.isNone_iff_eq_none] at checked
    refine checked.imp_left fun loops => ?_
    cases looped : elements g v with
    | ok values => exact ⟨values, rfl⟩
    | error e =>
      rw [looped] at loops
      cases loops
  · exact (Bool.not_eq_true' _).mp (raw v held)
  · exact (Bool.not_eq_true' _).mp (constant v held)
  · have checked := values v held given (by rw [read]; rfl)
    exact (Bool.not_eq_true' _).mp (List.all_eq_true.1 checked value member)
  · exact (Bool.not_eq_true' _).mp (List.all_eq_true.1 (names given listed) name member)

section

variable {g : Graph} {v : Value}

theorem entries?_of_items? {items : List Value} (read : g.items? v = some items) :
    g.entries? v = none := by
  cases v with
  | scalar s => rfl
  | node id => simp only [Graph.entries?, Graph.node?, Graph.get?_of_items? read]

theorem isTruthy_of_items? {items : List Value} (read : g.items? v = some items) :
    g.isTruthy v = !items.isEmpty := by
  cases v with
  | scalar s => cases read
  | node id => rw [Graph.isTruthy, Graph.get?_of_items? read]

theorem elements_of_items? {items : List Value} (read : g.items? v = some items) :
    elements g v = .ok items := by
  cases v with
  | scalar s => cases read
  | node id => simp only [elements, Graph.node?, Graph.get?_of_items? read]

theorem elements_of_entries? {entries : Entries} (read : g.entries? v = some entries) :
    elements g v = .ok (entries.map fun entry => .scalar entry.1) := by
  cases v with
  | scalar s => cases read
  | node id => simp only [elements, Graph.node?, Graph.get?_of_entries? read]

theorem isTruthy_of_entries? {entries : Entries} (read : g.entries? v = some entries) :
    g.isTruthy v = !entries.isEmpty := by
  cases v with
  | scalar s => cases read
  | node id => rw [Graph.isTruthy, Graph.get?_of_entries? read]

end

/-- What stands for a mapping has entries, none if it counts as false. -/
theorem exists_entriesUnder {g : Graph} {entries : Entries} {key : String}
    (fits : ∀ v, entries.get? key = some v → g.isTruthy v = false ∨ g.isMapping v = true) :
    ∃ inside, entriesUnder g entries key = .ok inside := by
  rw [entriesUnder]
  cases held : entries.get? key with
  | none => exact ⟨[], rfl⟩
  | some v =>
    dsimp only
    cases read : g.entries? v with
    | some inside => exact ⟨inside, rfl⟩
    | none =>
      rcases fits v held with falsy | isMapping
      · rw [falsy]
        exact ⟨[], rfl⟩
      · rw [Graph.isMapping, read] at isMapping
        cases isMapping

section

variable {job : Job} {schema : Nat} {entries : Entries} (regular : Regular job.graph entries)
include regular

theorem readsObject_of_regular : job.ReadsObject entries where
  required := by
    rw [requiredKeys]
    cases held : entries.get? "required" with
    | none => exact ⟨[], rfl⟩
    | some v =>
      dsimp only
      split
      · next truthy =>
        obtain ⟨values, read, scalars⟩ :=
          loopsOverScalars_iff.1 (regular.required v held truthy)
        rw [read]
        refine exists_mapM_ok fun value member => ?_
        obtain ⟨s, same⟩ := scalars value member
        exact ⟨s, by rw [same]⟩
      · exact ⟨[], rfl⟩
  properties := by
    obtain ⟨declared, given⟩ := exists_entriesUnder fun v held =>
      (regular.properties v held).imp_right fun ⟨inside, read, _⟩ => by
        rw [Graph.isMapping, read]
        rfl
    refine ⟨declared, given, fun entry member => ?_⟩
    obtain ⟨v, held, read⟩ :=
      Option.bind_eq_some_iff.1 (mapping_of_mem_entriesUnder given (List.mem_map_of_mem member))
    rcases regular.properties v held with falsy | ⟨inside, same, texts⟩
    · rw [isTruthy_of_entries? read] at falsy
      cases declared with
      | nil => cases member
      | cons _ _ => cases falsy
    · rw [read] at same
      cases same
      exact texts entry member
  patterns := exists_entriesUnder regular.patterns

theorem readsTyped_of_regular (word : Scalar) : job.ReadsTyped entries (.scalar word) := by
  have object := readsObject_of_regular regular
  unfold Job.ReadsTyped
  dsimp only
  split
  · trivial
  split
  · trivial
  split
  · exact object
  · trivial

theorem readsWritten_of_regular : job.ReadsWritten entries := by
  have object := readsObject_of_regular regular
  have typed := readsTyped_of_regular regular
  unfold Job.ReadsWritten
  split
  · next v held => exact regular.raw v held
  split
  · next v held => exact regular.constant v held
  split
  · next values listed =>
    obtain ⟨v, held, read⟩ := Option.bind_eq_some_iff.1 listed
    simpa using regular.values v held values (elements_of_items? read)
  split
  · split
    · exact object
    · trivial
  split
  · trivial
  split
  · trivial
  cases held : entries.get? "type" with
  | none => exact typed .null
  | some v =>
    rcases regular.type v held with ⟨s, rfl⟩ | ⟨words, read, scalars⟩
    · exact typed s
    · rw [Option.getD_some]
      dsimp only
      rw [read]
      intro word member
      obtain ⟨s, rfl⟩ := scalars word member
      exact typed s

/-- Compiling a regular schema reads what it is made of. -/
theorem readsEntries_of_regular : job.ReadsEntries schema entries := by
  rw [Job.ReadsEntries]
  split
  · next names choices chosen =>
    rw [Job.declaredChoices?] at chosen
    split at chosen
    · unfold Job.choices? at chosen
      split at chosen
      · next _ held listed =>
        cases chosen
        rcases regular.choices _ held with ⟨values, read⟩ | unlisted
        · refine ⟨values, read, ?_⟩
          rw [Job.hasLongMember, List.any_eq_false]
          rintro ⟨name, value⟩ member
          obtain ⟨inNames, inValues⟩ := List.of_mem_zip member
          dsimp only
          rw [regular.names names listed name inNames,
            regular.values _ held values read value inValues]
          exact Bool.false_ne_true
        · rw [Job.listUnder?, unlisted] at listed
          cases listed
      · cases chosen
    · cases chosen
  · exact readsWritten_of_regular regular

end

end Typewright.Compile

/-! ## Copies of regular schemas -/

namespace Typewright.Standalone.Placed

open Schema Compile

variable {g copied : Graph} {naming : Naming} {root : Nat} {image : Nat → Nat}
variable (placed : Placed g copied naming root image)
include placed

/-- A value and its copy are one scalar, two lists or two mappings. What a copied list holds stands
for items, and the keys of a copied mapping are keys of the mapping or that of a reference. -/
theorem cases_of_hasCopy {v w : Value} (hasCopy : HasCopy g copied naming root image v w) :
    (∃ s, v = .scalar s ∧ w = .scalar s) ∨
    (∃ items copies, g.items? v = some items ∧ copied.items? w = some copies ∧
      ∀ w ∈ copies, ∃ v ∈ items, HasCopy g copied naming root image v w) ∨
    ∃ entries copies, g.entries? v = some entries ∧ copied.entries? w = some copies ∧
      ∀ copy ∈ copies, copy.1 = .str refKey ∨ ∃ v, (copy.1, v) ∈ entries := by
  obtain ⟨stands, own⟩ := hasCopy
  cases stands with
  | scalar s => exact .inl ⟨s, rfl, rfl⟩
  | @own id unnamed =>
    rcases placed.images id (own id rfl unnamed) with
      ⟨items, copies, found, there, all⟩ | ⟨entries, copies, found, there, _, all⟩
    · refine .inr (.inl ⟨items, copies, ?_, ?_, all⟩)
      · rw [Graph.items?, Graph.node?, found]
      · rw [Graph.items?, Graph.node?, there]
    · refine .inr (.inr ⟨entries, copies, Graph.entries?_of_get? found,
        Graph.entries?_of_get? there, fun copy member => .inr ?_⟩)
      obtain ⟨v, present, _⟩ := all copy member fun same => by
        rw [same, placed.named] at unnamed
        cases unnamed
      exact ⟨v, present⟩
  | @reference id _ name isNamed held _ =>
    obtain ⟨entries, found⟩ := placed.exists_entries_of_idOf? isNamed
    refine .inr (.inr ⟨entries, referenceTo name, Graph.entries?_of_get? found,
      Graph.entries?_of_get? held, fun copy member => .inl ?_⟩)
    rw [referenceTo, List.mem_singleton] at member
    rw [member]

omit placed in
/-- The items of a list that holds scalars alone are copied as they are. -/
theorem scalars_of_items {items copies : List Value}
    (all : ∀ w ∈ copies, ∃ v ∈ items, HasCopy g copied naming root image v w)
    (scalars : ∀ item ∈ items, ∃ s, item = .scalar s) : ∀ w ∈ copies, ∃ s, w = .scalar s := by
  intro w member
  obtain ⟨item, isItem, stands, _⟩ := all w member
  obtain ⟨s, rfl⟩ := scalars item isItem
  cases stands
  exact ⟨s, rfl⟩

section

variable {v w : Value} (hasCopy : HasCopy g copied naming root image v w)
include hasCopy

/-- What counts as true is the copy of what counts as true, or a mapping. -/
theorem truthy_or_mapping (truthy : copied.isTruthy w = true) :
    g.isTruthy v = true ∨ g.isMapping v = true := by
  rcases placed.cases_of_hasCopy hasCopy with ⟨s, rfl, rfl⟩ |
    ⟨items, list, isItems, isList, all⟩ | ⟨inside, list, isEntries, isList, _⟩
  · exact .inl truthy
  · rw [isTruthy_of_items? isList] at truthy
    cases list with
    | nil => cases truthy
    | cons first _ =>
      obtain ⟨item, isItem, _⟩ := all first List.mem_cons_self
      rw [isTruthy_of_items? isItems]
      cases items with
      | nil => cases isItem
      | cons _ _ => exact .inl rfl
  · exact .inr (by rw [Graph.isMapping, isEntries]; rfl)

/-- What counts as false or is a mapping is copied as such. -/
theorem falsy_or_mapping (fits : g.isTruthy v = false ∨ g.isMapping v = true) :
    copied.isTruthy w = false ∨ copied.isMapping w = true := by
  cases truthy : copied.isTruthy w with
  | false => exact .inl rfl
  | true =>
    have isMapping : g.isMapping v = true := by
      rcases placed.truthy_or_mapping hasCopy truthy with wasTruthy | isMapping
      · exact fits.resolve_left (by simp [wasTruthy])
      · exact isMapping
    rcases placed.cases_of_hasCopy hasCopy with ⟨s, rfl, rfl⟩ |
      ⟨items, list, isItems, _, _⟩ | ⟨inside, list, _, isList, _⟩
    · cases isMapping
    · rw [Graph.isMapping, entries?_of_items? isItems] at isMapping
      cases isMapping
    · exact .inr (by rw [Graph.isMapping, isList]; rfl)

theorem loops_image (loops : ∃ values, elements g v = .ok values) :
    ∃ values, elements copied w = .ok values := by
  rcases placed.cases_of_hasCopy hasCopy with ⟨s, rfl, rfl⟩ |
    ⟨items, list, isItems, isList, all⟩ | ⟨inside, list, isEntries, isList, _⟩
  · exact loops
  · exact ⟨_, elements_of_items? isList⟩
  · exact ⟨_, elements_of_entries? isList⟩

theorem loopsOverScalars_image (truthy : copied.isTruthy w = true)
    (loops : g.isTruthy v = true → loopsOverScalars g v = true) :
    loopsOverScalars copied w = true := by
  have either := placed.truthy_or_mapping hasCopy truthy
  rw [loopsOverScalars_iff] at loops ⊢
  rcases placed.cases_of_hasCopy hasCopy with ⟨s, rfl, rfl⟩ |
    ⟨items, list, isItems, isList, all⟩ | ⟨inside, list, isEntries, isList, _⟩
  · exact loops truthy
  · refine ⟨list, elements_of_items? isList, scalars_of_items all ?_⟩
    rcases either with wasTruthy | isMapping
    · obtain ⟨values, looped, scalars⟩ := loops wasTruthy
      rw [elements_of_items? isItems] at looped
      cases looped
      exact scalars
    · rw [Graph.isMapping, entries?_of_items? isItems] at isMapping
      cases isMapping
  · refine ⟨_, elements_of_entries? isList, fun value member => ?_⟩
    obtain ⟨entry, _, rfl⟩ := List.mem_map.1 member
    exact ⟨entry.1, rfl⟩

end

/-- A key of a copied container is a key of the original, or that of a reference. -/
theorem key_of_image {place : Nat} {node : Node} {s : Scalar}
    (there : copied.get? place = some node) (member : s ∈ Display.keys node) {v : Value}
    (hasCopy : HasCopy g copied naming root image v (.node place)) :
    Display.Shows g [] v s ∨ ∃ text, s = .str text := by
  obtain ⟨stands, own⟩ := hasCopy
  cases stands with
  | @own id unnamed =>
    rcases placed.images id (own id rfl unnamed) with
      ⟨_, copies, _, held, _⟩ | ⟨entries, copies, found, held, _, all⟩
    · cases there.symm.trans held
      cases member
    · cases there.symm.trans held
      obtain ⟨copy, inCopies, rfl⟩ := List.mem_map.1 member
      obtain ⟨v, present, _⟩ := all copy inCopies fun same => by
        rw [same, placed.named] at unnamed
        cases unnamed
      exact .inl (.key List.not_mem_nil found (List.mem_map.2 ⟨_, present, rfl⟩))
  | reference _ held _ =>
    cases there.symm.trans held
    exact .inr ⟨refKey, List.mem_singleton.1 member⟩

/-- A value in a copied container is the copy of one in the original, or the text of a reference. -/
theorem value_of_image {place : Nat} {node : Node} {w : Value}
    (there : copied.get? place = some node) (member : w ∈ node.values) {v : Value}
    (hasCopy : HasCopy g copied naming root image v (.node place)) :
    (∃ id original inside, v = .node id ∧ g.get? id = some original ∧ inside ∈ original.values ∧
      HasCopy g copied naming root image inside w) ∨ ∃ text, w = .str text := by
  obtain ⟨stands, own⟩ := hasCopy
  cases stands with
  | @own id unnamed =>
    rcases placed.images id (own id rfl unnamed) with
      ⟨items, copies, found, held, all⟩ | ⟨entries, copies, found, held, _, all⟩
    · cases there.symm.trans held
      obtain ⟨v, present, one⟩ := all w member
      exact .inl ⟨id, _, v, rfl, found, present, one⟩
    · cases there.symm.trans held
      obtain ⟨copy, inCopies, rfl⟩ := List.mem_map.1 member
      obtain ⟨v, present, one⟩ := all copy inCopies fun same => by
        rw [same, placed.named] at unnamed
        cases unnamed
      exact .inl ⟨id, _, v, rfl, found, List.mem_map_of_mem present, one⟩
  | reference _ held _ =>
    cases there.symm.trans held
    exact .inr ⟨_, List.mem_singleton.1 member⟩

/-- What shows in a copied value shows in the value, or is a text of a reference. -/
theorem shows_of_image {w : Value} {s : Scalar} (shows : Display.Shows copied [] w s) {v : Value}
    (hasCopy : HasCopy g copied naming root image v w) :
    Display.Shows g [] v s ∨ ∃ text, s = .str text := by
  induction shows generalizing v with
  | self s =>
    obtain ⟨stands, _⟩ := hasCopy
    cases stands
    exact .inl (.self s)
  | key _ there member => exact placed.key_of_image there member hasCopy
  | inside _ there member shows ih =>
    rcases placed.value_of_image there member hasCopy with
      ⟨id, original, v, rfl, found, present, one⟩ | ⟨text, rfl⟩
    · exact (ih one).imp_left (.inside List.not_mem_nil found present)
    · cases shows
      exact .inr ⟨text, rfl⟩

section

variable {v w : Value} (hasCopy : HasCopy g copied naming root image v w)
include hasCopy

theorem hasLongInteger_image (short : Display.hasLongInteger g v = false) :
    Display.hasLongInteger copied w = false := by
  refine Bool.eq_false_iff.2 fun long => ?_
  obtain ⟨s, shows, isLong⟩ := Display.hasLongInteger_iff.1 long
  rcases placed.shows_of_image shows hasCopy with original | ⟨text, rfl⟩
  · rw [Display.hasLongInteger_iff.2 ⟨s, original, isLong⟩] at short
    cases short
  · cases isLong

omit placed in
theorem isLongInteger_image (short : v.isLongInteger = false) : w.isLongInteger = false := by
  obtain ⟨stands, _⟩ := hasCopy
  cases stands with
  | scalar s => exact short
  | own => rfl
  | reference => rfl

/-- What a loop over a copied value goes through is as short as what one over the value does. -/
theorem short_elements_image {copies : List Value} (read : elements copied w = .ok copies)
    (short : ∀ values, elements g v = .ok values → ∀ value ∈ values, value.isLongInteger = false) :
    ∀ copy ∈ copies, copy.isLongInteger = false := by
  intro copy member
  rcases placed.cases_of_hasCopy hasCopy with ⟨s, rfl, rfl⟩ |
    ⟨items, list, isItems, isList, all⟩ | ⟨inside, list, isEntries, isList, keys⟩
  · exact short copies read copy member
  · cases read.symm.trans (elements_of_items? isList)
    obtain ⟨item, isItem, one⟩ := all copy member
    exact isLongInteger_image one (short items (elements_of_items? isItems) item isItem)
  · cases read.symm.trans (elements_of_entries? isList)
    obtain ⟨entry, isEntry, rfl⟩ := List.mem_map.1 member
    rcases keys entry isEntry with isRef | ⟨value, present⟩
    · rw [isRef]
      rfl
    · exact short _ (elements_of_entries? isEntries) _ (List.mem_map.2 ⟨_, present, rfl⟩)

/-- A mapping under texts is copied as one, or gives way to a reference. -/
theorem textKeys_image (fits : g.isTruthy v = false ∨
      ∃ inside, g.entries? v = some inside ∧ ∀ entry ∈ inside, ∃ text, entry.1 = .str text) :
    copied.isTruthy w = false ∨
      ∃ inside, copied.entries? w = some inside ∧ ∀ entry ∈ inside, ∃ text, entry.1 = .str text := by
  have isMapping : g.isTruthy v = false ∨ g.isMapping v = true :=
    fits.imp_right fun ⟨inside, read, _⟩ => by rw [Graph.isMapping, read]; rfl
  refine (placed.falsy_or_mapping hasCopy isMapping).imp_right fun isMapping => ?_
  rw [Graph.isMapping, Option.isSome_iff_exists] at isMapping
  obtain ⟨list, isList⟩ := isMapping
  refine ⟨list, isList, fun copy member => ?_⟩
  rcases placed.cases_of_hasCopy hasCopy with ⟨s, rfl, rfl⟩ |
    ⟨_, others, _, isOthers, _⟩ | ⟨inside, others, isEntries, isOthers, keys⟩
  · cases isList
  · rw [entries?_of_items? isOthers] at isList
    cases isList
  · rw [isList] at isOthers
    cases isOthers
    rcases keys copy member with isRef | ⟨value, present⟩
    · exact ⟨_, isRef⟩
    · rcases fits with falsy | ⟨declared, read, texts⟩
      · rw [isTruthy_of_entries? isEntries] at falsy
        cases inside with
        | nil => cases present
        | cons _ _ => cases falsy
      · rw [isEntries] at read
        cases read
        exact texts (copy.1, value) present

/-- A word or a list of words is copied as such. -/
theorem words_image (fits : (∃ s, v = .scalar s) ∨
      ∃ words, g.items? v = some words ∧ ∀ word ∈ words, ∃ s, word = .scalar s) :
    (∃ s, w = .scalar s) ∨
      ∃ words, copied.items? w = some words ∧ ∀ word ∈ words, ∃ s, word = .scalar s := by
  rcases placed.cases_of_hasCopy hasCopy with ⟨s, rfl, rfl⟩ |
    ⟨items, list, isItems, isList, all⟩ | ⟨inside, list, isEntries, isList, _⟩
  · exact .inl ⟨s, rfl⟩
  · rcases fits with ⟨s, rfl⟩ | ⟨words, isWords, scalars⟩
    · cases isItems
    · rw [isItems] at isWords
      cases isWords
      exact .inr ⟨list, isList, scalars_of_items all scalars⟩
  · rcases fits with ⟨s, rfl⟩ | ⟨words, isWords, _⟩
    · cases isEntries
    · rw [entries?_of_items? isWords] at isEntries
      cases isEntries

end

/-- The copy of a regular schema is regular. -/
theorem regular_image {id : Nat} (own : KeptOwn g naming root id) {entries copies : Entries}
    (found : g.get? id = some (.mapping entries))
    (held : copied.get? (image id) = some (.mapping copies)) (regular : Regular g entries) :
    Regular copied copies := by
  have original : ∀ key, key ≠ "title" → key ≠ "description" → ∀ w, copies.get? key = some w →
      ∃ v, entries.get? key = some v ∧ HasCopy g copied naming root image v w :=
    fun key untitled undescribed w read =>
      placed.exists_original_under own found held untitled undescribed read
  constructor
  case required =>
    intro w read truthy
    obtain ⟨v, here, hasCopy⟩ := original "required" (by decide) (by decide) w read
    exact placed.loopsOverScalars_image hasCopy truthy (regular.required v here)
  case properties =>
    intro w read
    obtain ⟨v, here, hasCopy⟩ := original "properties" (by decide) (by decide) w read
    exact placed.textKeys_image hasCopy (regular.properties v here)
  case patterns =>
    intro w read
    obtain ⟨v, here, hasCopy⟩ := original "patternProperties" (by decide) (by decide) w read
    exact placed.falsy_or_mapping hasCopy (regular.patterns v here)
  case type =>
    intro w read
    obtain ⟨v, here, hasCopy⟩ := original "type" (by decide) (by decide) w read
    exact placed.words_image hasCopy (regular.type v here)
  case choices =>
    intro w read
    obtain ⟨v, here, hasCopy⟩ := original "enum" (by decide) (by decide) w read
    refine (regular.choices v here).imp (placed.loops_image hasCopy) fun unlisted => ?_
    cases listed : (copies.get? "tsEnumNames").bind copied.items? with
    | none => rfl
    | some names =>
      obtain ⟨others, wasListed, _⟩ :=
        placed.exists_original_item own found held (by decide) (by decide) listed
      rw [unlisted] at wasListed
      cases wasListed
  case raw =>
    intro w read
    obtain ⟨v, here, hasCopy⟩ := original "tsType" (by decide) (by decide) w read
    exact placed.hasLongInteger_image hasCopy (regular.raw v here)
  case constant =>
    intro w read
    obtain ⟨v, here, hasCopy⟩ := original "const" (by decide) (by decide) w read
    exact isLongInteger_image hasCopy (regular.constant v here)
  case values =>
    intro w read list isList
    obtain ⟨v, here, hasCopy⟩ := original "enum" (by decide) (by decide) w read
    exact placed.short_elements_image hasCopy isList (regular.values v here)
  case names =>
    intro list listed name member
    obtain ⟨names, wasListed, all⟩ :=
      placed.exists_original_item own found held (by decide) (by decide) listed
    obtain ⟨one, isName, hasCopy⟩ := all name member
    exact placed.hasLongInteger_image hasCopy (regular.names names wasListed one isName)

end Typewright.Standalone.Placed
