import Typewright.Proofs.Document.Entries
import Typewright.Proofs.Text.Blank
import Typewright.Proofs.Toml.Lines
import Typewright.Toml.Reader

/-!
# Tables of texts

A table whose values are texts is written entry by entry (`Toml.write_texts`), and if its texts
survive in literals it is read as it was written (`Toml.read_tableText`).
-/

namespace Typewright.Toml

open Text

/-- The entries of a table of texts. -/
def textEntries (entries : List (String × String)) : Entries :=
  entries.map fun e => (.str e.1, .str e.2)

/-! ## Writing -/

namespace Write

theorem name_of_isBareName {name : String} (isName : IsBareName name) :
    Write.name name = .ok name := by
  have filled : name ≠ "" := by
    rintro rfl
    exact isName.inhabited rfl
  have bare : name.toList.all (fun c => c.isAlphanum || c == '_' || c == '-') = true :=
    List.all_eq_true.2 isName.bare
  rw [Write.name, bare]
  simp [filled]

/-- Going through entries that each add their line adds the text of the table. -/
theorem foldlM_lines {step : Parts → Scalar × Value → Except Fault Parts}
    {entries : List (String × String)}
    (each : ∀ (found : Parts), ∀ e ∈ entries, step found (.str e.1, .str e.2) =
      .ok { found with lines := found.lines ++ String.ofList (entryLine e.1 e.2 ++ ['\n']) })
    (found : Parts) :
    (textEntries entries).foldlM step found =
      .ok { found with lines := found.lines ++ String.ofList (tableText entries) } := by
  induction entries generalizing found with
  | nil =>
    rw [tableText, List.flatMap_nil, String.ofList_nil, String.append_empty]
    rfl
  | cons e entries ih =>
    have text : String.ofList (tableText (e :: entries)) =
        String.ofList (entryLine e.1 e.2 ++ ['\n']) ++ String.ofList (tableText entries) := by
      rw [tableText, List.flatMap_cons, String.ofList_append]
      rfl
    rw [textEntries, List.map_cons, List.foldlM_cons, each found e List.mem_cons_self, text,
      ← String.append_assoc]
    exact ih (fun found f member => each found f (List.mem_cons_of_mem _ member)) _

/-- What is found in a table of texts are its lines. -/
theorem parts_texts (g : Graph) (fuel : Nat) (outer : String) {entries : List (String × String)}
    (names : ∀ e ∈ entries, IsBareName e.1)
    (writable : ∀ e ∈ entries, ∀ c ∈ e.2.toList, isWritable c = true)
    (noCode : ∀ e ∈ entries, ¬ ['\\', 'x'] <:+: e.2.toList) :
    parts g (fuel + 1) outer (textEntries entries) =
      .ok { lines := String.ofList (tableText entries) } := by
  rw [parts, foldlM_lines fun found e member => ?_]
  · rw [String.empty_append]
  · have line : e.1 ++ " = " ++ String.ofList ('"' :: written e.2.toList ++ ['"']) ++ "\n" =
        String.ofList (entryLine e.1 e.2 ++ ['\n']) := by
      apply String.toList_inj.1
      simp [entryLine]
    have mapping : g.isMapping (.str e.2) = false := rfl
    have array : isTableArray g (.str e.2) = false := rfl
    have shown : valueText g (g.size + 1) (.str e.2) =
        .ok (String.ofList ('"' :: written e.2.toList ++ ['"'])) := by
      have isLiteral : valueText g (g.size + 1) (.str e.2) = literal e.2 := rfl
      rw [isLiteral, literal_eq (writable e member) (noCode e member)]
    dsimp only
    rw [Display.scalar, name_of_isBareName (names e member), mapping, array, shown, ← line]
    rfl

end Write

theorem write_texts (g : Graph) {entries : List (String × String)}
    (names : ∀ e ∈ entries, IsBareName e.1)
    (writable : ∀ e ∈ entries, ∀ c ∈ e.2.toList, isWritable c = true)
    (noCode : ∀ e ∈ entries, ¬ ['\\', 'x'] <:+: e.2.toList) :
    write g (textEntries entries) = .ok (String.ofList (tableText entries)) := by
  rw [write, Write.parts_texts g _ _ names writable noCode]
  change Write.addTables g (g.size + 1 + 1) (String.ofList (tableText entries) ++ "") [] = _
  rw [Write.addTables, String.append_empty]

/-! ## The parts of an entry -/

section

variable {name text : String}

theorem trim_bare {name : List Char} (bare : ∀ c ∈ name, isBare c = true) :
    trim (name ++ [' ']) = name :=
  trim_surrounded [] name [' '] (by simp) (by simp [isBlank])
    (fun c first => isBlank_of_isBare (bare c (List.mem_of_head? first)))
    (fun c last => isBlank_of_isBare (bare c (List.mem_of_getLast? last)))

theorem trim_entryLine (isName : IsBareName name) :
    trim (entryLine name text) = entryLine name text := by
  have whole := trim_surrounded [] (entryLine name text) [] (by simp) (by simp) ?_ ?_
  · rwa [List.nil_append, List.append_nil] at whole
  · obtain ⟨c, rest, parts⟩ := List.exists_cons_of_ne_nil isName.inhabited
    intro d first
    rw [entryLine, parts] at first
    cases first
    exact isBlank_of_isBare (isName.bare c (by rw [parts]; exact List.mem_cons_self))
  · intro d last
    rw [entryLine, ← List.append_assoc, ← List.append_assoc, List.getLast?_concat] at last
    cases last
    rfl

theorem trim_literal (text : List Char) :
    trim (' ' :: '"' :: (text ++ ['"'])) = '"' :: (text ++ ['"']) := by
  have whole := trim_surrounded [' '] ('"' :: (text ++ ['"'])) [] (by simp [isBlank]) (by simp) ?_ ?_
  · rwa [List.append_nil] at whole
  · intro d first
    cases first
    rfl
  · intro d last
    rw [← List.cons_append, List.getLast?_concat] at last
    cases last
    rfl

theorem not_mem_of_isBareName {c : Char} (isName : IsBareName name) (other : isBare c = false)
    {more : List Char} (absent : c ∉ more) : c ∉ name.toList ++ more := by
  intro member
  rcases List.mem_append.1 member with inName | inMore
  · exact ne_of_isBare (isName.bare c inName) other rfl
  · exact absent inMore

/-- The equals sign of an entry stands before its first quote. -/
theorem countQuoted_entryLine (isName : IsBareName name) :
    countQuoted ['='] (entryLine name text) = 0 := by
  have noEquals : '=' ∉ name.toList ++ [' '] := not_mem_of_isBareName isName rfl (by decide)
  have noDouble : '"' ∉ name.toList ++ [' ', '=', ' '] :=
    not_mem_of_isBareName isName rfl (by decide)
  have noSingle : '\'' ∉ name.toList ++ [' ', '=', ' '] :=
    not_mem_of_isBareName isName rfl (by decide)
  have key : name.toList ++ [' ', '=', ' '] = (name.toList ++ [' ']) ++ '=' :: [' '] := by simp
  have pieces : quotePieces (entryLine name text) =
      (name.toList ++ [' ', '=', ' ']) :: splitAtChar '"' (written text.toList ++ ['"']) := by
    have split := splitAtChar_append (written text.toList ++ ['"']) noDouble
    have line : entryLine name text =
        (name.toList ++ [' ', '=', ' ']) ++ '"' :: (written text.toList ++ ['"']) := by
      simp [entryLine]
    rw [quotePieces, line, split]
    dsimp only
    rw [List.contains_eq_mem, decide_eq_false noSingle, Bool.and_false, if_neg Bool.false_ne_true,
      quotePieces.outside, splitAtChar_of_not_mem noSingle]
    rfl
  have separators : (Literal.splitAtText ['='] (name.toList ++ [' ', '=', ' ']).length
      (name.toList ++ [' ', '=', ' '])).length - 1 ≠ 0 := by
    rw [List.length_append]
    change (Literal.splitAtText ['='] (name.toList.length + 2 + 1) _).length - 1 ≠ 0
    rw [Literal.splitAtText, key, cut?_append noEquals]
    dsimp only
    rw [Literal.splitAtText]
    exact Nat.one_ne_zero
  rw [countQuoted, pieces, countQuoted.count, Bool.not_false, Bool.true_and, if_pos (by simpa using separators)]

/-- The key and the text of an entry are told apart by its equals sign. -/
theorem keyAndValue_entryLine (text : String) (isName : IsBareName name) :
    ∃ strict, keyAndValue (entryLine name text) =
      .ok (name.toList, '"' :: (written text.toList ++ ['"']), strict) := by
  have noEquals : '=' ∉ name.toList ++ [' '] := not_mem_of_isBareName isName rfl (by decide)
  have line : entryLine name text =
      (name.toList ++ [' ']) ++ '=' :: (' ' :: '"' :: (written text.toList ++ ['"'])) := by
    simp [entryLine]
  have split : splitFirst ['='] 1 (entryLine name text) =
      [name.toList ++ [' '], ' ' :: '"' :: (written text.toList ++ ['"'])] := by
    rw [line, splitFirst, cut?_append noEquals]
    rfl
  have last : (splitFirst ['='] 1 (entryLine name text)).getLastD [] =
      ' ' :: '"' :: (written text.toList ++ ['"']) := by
    rw [split]
    rfl
  have entry (fuel : Nat) (strict : Bool) :
      splitEntry (entryLine name text) (fuel + 1) 1 strict
        (' ' :: '"' :: (written text.toList ++ ['"'])) =
      .ok ([name.toList ++ [' '], ' ' :: '"' :: (written text.toList ++ ['"'])], strict) := by
    have isValue : isValueText (' ' :: '"' :: (written text.toList ++ ['"'])) = true := rfl
    rw [splitEntry, if_pos isValue, split]
    rfl
  refine ⟨Scalars.isStrict (' ' :: '"' :: (written text.toList ++ ['"'])), ?_⟩
  rw [keyAndValue, countQuoted_entryLine isName]
  dsimp only
  rw [last, List.head?_cons, Option.any_some, if_neg (by decide), entry]
  change Except.ok (trim (['='].intercalate [name.toList ++ [' ']]), trim _, _) = _
  rw [List.intercalate_singleton, trim_bare isName.bare]
  change Except.ok (_, trim (' ' :: '"' :: _), _) = _
  rw [trim_literal]

/-- A bare name leads to an entry of the table itself. -/
theorem place_bare (isName : IsBareName name) (table : Value) (g : Graph) :
    (place table name.toList).run g = .ok ((table, name), g) := by
  have noDot : name.toList.contains '.' = false := by
    rw [List.contains_eq_mem, decide_eq_false_iff_not]
    exact fun member => ne_of_isBare (isName.bare _ member) (by decide) rfl
  obtain ⟨c, rest, chars⟩ := List.exists_cons_of_ne_nil isName.inhabited
  obtain ⟨d, last⟩ : ∃ d, (c :: rest).getLast? = some d := ⟨_, List.getLast?_eq_some_getLast (by simp)⟩
  have bare : isBare c = true := isName.bare c (by rw [chars]; exact List.mem_cons_self)
  have noQuotes : ¬(c = d ∧ (c = '"' ∨ c = '\'')) := by
    rintro ⟨_, rfl | rfl⟩
    · cases bare
    · cases bare
  rw [place, noDot, chars, if_neg Bool.false_ne_true, List.head?_cons, last]
  dsimp only
  rw [if_neg noQuotes, ← chars, String.ofList_toList]
  rfl

/-- A literal of a single line is not open. -/
theorem isOpen_literal {text : List Char} (writable : ∀ c ∈ text, isWritable c = true) :
    isOpen ('"' :: (written text ++ ['"'])) = .ok false := by
  cases text with
  | nil => rfl
  | cons c text =>
    obtain ⟨d, more, form, noQuote⟩ :=
      Literal.exists_written_cons (writable c List.mem_cons_self) text
    have long : ¬('"' :: (d :: more ++ ['"'])).length < 3 := by simp
    rw [form, isOpen, if_neg long, literalPart, if_neg fun both => by cases both.1]
    exact if_pos noQuote

theorem value_literal {text : String} (survives : Literal.Survives text.toList) (fuel : Nat)
    (strict : Bool) (g : Graph) :
    (value (fuel + 1) strict ('"' :: (written text.toList ++ ['"']))).run g =
      .ok ((.str text, .string), g) := by
  have apart (word : List Char) (other : word.head? ≠ some '"') :
      '"' :: (written text.toList ++ ['"']) ≠ word := by
    rintro rfl
    exact other rfl
  have lower : ["true".toList, "false".toList].contains
      (('"' :: (written text.toList ++ ['"'])).map Char.toLower) = false := rfl
  rw [value, if_neg (apart _ (by decide)), if_neg (apart _ (by decide)), lower,
    if_neg Bool.false_ne_true, if_pos (Or.inl rfl), Literal.value_written survives,
    String.ofList_toList]
  rfl

end

/-! ## Reading -/

/-- A step that gives a result is followed by the next one. -/
theorem TableM.run_bind {α β : Type} {x : TableM α} {next : α → TableM β} {a : α} {g g' : Graph}
    (done : x.run g = .ok (a, g')) : (x >>= next).run g = (next a).run g' := by
  rw [StateT.run_bind, done]
  rfl

section

variable {name : String} {id : Nat} {g : Graph} {entries : Entries}
  (found : g.entries? (.node id) = some entries) (fresh : entries.has name = false)

include found fresh

theorem run_checkFree : (checkFree (.node id) name).run g = .ok ((), g) := by
  rw [checkFree]
  refine (TableM.run_bind (a := g) rfl).trans ?_
  rw [found]
  dsimp only
  rw [fresh]
  rfl

theorem run_put (v : Value) :
    (TableM.put (.node id) name v).run g =
      .ok ((), g.set id (.mapping (entries ++ [(.str name, v)]))) := by
  have lacks : entries.Lacks (.str name) := by
    intro e member
    rw [Bool.eq_false_iff, ne_eq, Scalar.sameKey_str]
    exact Entries.has_eq_false_iff.1 fresh e member
  rw [TableM.put]
  refine (TableM.run_bind (a := g) rfl).trans ?_
  rw [found]
  dsimp only
  rw [Entries.put_of_lacks v lacks]
  rfl

/-- An entry with a new name is added to a table. -/
theorem run_entry {text : String} (isName : IsBareName name)
    (survives : Literal.Survives text.toList) (fuel : Nat) :
    (entry (fuel + 2) (.node id) (entryLine name text)).run g =
      .ok (none, g.set id (.mapping (entries ++ [(.str name, .str text)]))) := by
  obtain ⟨strict, parts⟩ := keyAndValue_entryLine text isName
  rw [entry, parts]
  refine (TableM.run_bind (a := (name.toList, _, strict)) rfl).trans ?_
  refine (TableM.run_bind (place_bare isName (.node id) g)).trans ?_
  dsimp only
  rw [isOpen_literal survives.writable]
  refine (TableM.run_bind (a := false) rfl).trans ?_
  refine (TableM.run_bind (value_literal survives fuel strict g)).trans ?_
  refine (TableM.run_bind (run_checkFree found fresh)).trans ?_
  refine (TableM.run_bind (run_put found fresh _)).trans ?_
  rfl

/-- A line of a table adds its entry. -/
theorem run_line {text : String} (isName : IsBareName name)
    (survives : Literal.Survives text.toList) (fuel : Nat) {s : Reading} (closed : s.pending = none)
    (table : s.table = .node id) :
    (s.line (fuel + 2) (entryLine name text)).run g =
      .ok (s, g.set id (.mapping (entries ++ [(.str name, .str text)]))) := by
  have equals : (entryLine name text).contains '=' = true := by simp [entryLine]
  obtain ⟨c, rest, line, bare⟩ : ∃ c rest, entryLine name text = c :: rest ∧ isBare c = true := by
    obtain ⟨c, rest, chars⟩ := List.exists_cons_of_ne_nil isName.inhabited
    refine ⟨c, rest ++ (" = \"".toList ++ (written text.toList ++ ['"'])), ?_, ?_⟩
    · rw [entryLine, chars]
      rfl
    · exact isName.bare c (by rw [chars]; exact List.mem_cons_self)
  rw [Reading.line, closed, trim_entryLine isName]
  dsimp only
  split
  · next empty => cases line.symm.trans empty
  · next bracket =>
    cases line.symm.trans bracket
    cases bare
  · next brace =>
    cases line.symm.trans brace
    cases bare
  · rw [equals, if_pos rfl, table]
    refine (TableM.run_bind (run_entry found fresh isName survives fuel)).trans ?_
    rw [← table, ← closed]
    rfl

end

theorem has_textEntries {done : List (String × String)} {name : String}
    (fresh : name ∉ done.map (·.1)) : (textEntries done).has name = false := by
  rw [Entries.has_eq_false_iff]
  intro entry member same
  obtain ⟨e, inDone, rfl⟩ := List.mem_map.1 member
  exact fresh (List.mem_map.2 ⟨e, inDone, Scalar.str.inj same⟩)

/-- The document of a table of texts. -/
def textDocument (entries : List (String × String)) : Document :=
  ⟨⟨#[.mapping (textEntries entries)]⟩, .node 0⟩

/-- Lines add their entries one after another. -/
theorem run_lines (fuel : Nat) {s : Reading} (closed : s.pending = none) (table : s.table = .node 0)
    {entries : List (String × String)} (done : List (String × String))
    (names : ∀ e ∈ entries, IsBareName e.1) (distinct : ((done ++ entries).map (·.1)).Nodup)
    (survives : ∀ e ∈ entries, Literal.Survives e.2.toList) :
    ((entries.map fun e => entryLine e.1 e.2).foldlM (Reading.line (fuel + 2)) s).run
        (textDocument done).graph =
      .ok (s, (textDocument (done ++ entries)).graph) := by
  induction entries generalizing done with
  | nil =>
    rw [List.append_nil]
    rfl
  | cons e entries ih =>
    have whole : done ++ e :: entries = (done ++ [e]) ++ entries := by simp
    have fresh : e.1 ∉ done.map (·.1) := by
      rw [List.map_append, List.nodup_append] at distinct
      exact fun member => distinct.2.2 _ member _ (by simp) rfl
    have held : (textDocument done).graph.entries? (.node 0) = some (textEntries done) := rfl
    have first := run_line held (has_textEntries fresh) (names e List.mem_cons_self) (survives e List.mem_cons_self) fuel closed table
    have added : (textDocument done).graph.set 0
        (.mapping (textEntries done ++ [(.str e.1, .str e.2)])) =
          (textDocument (done ++ [e])).graph := by
      simp only [textDocument, textEntries, List.map_append]
      rfl
    rw [added] at first
    rw [List.map_cons, List.foldlM_cons, whole]
    rw [whole] at distinct
    exact (TableM.run_bind first).trans (ih (done ++ [e])
      (fun f member => names f (List.mem_cons_of_mem _ member)) distinct
      fun f member => survives f (List.mem_cons_of_mem _ member))

/-- A table of texts is read as it was written if its texts survive. -/
theorem read_tableText {entries : List (String × String)} (names : ∀ e ∈ entries, IsBareName e.1)
    (distinct : (entries.map (·.1)).Nodup)
    (survives : ∀ e ∈ entries, Literal.Survives e.2.toList) :
    read (String.ofList (tableText entries)) = .ok (textDocument entries) := by
  have lines := Layout.lines_tableText names fun e member => (survives e member).writable
  have run := run_lines (4 * (tableText entries).length + 6)
    (s := { root := .node 0, table := .node 0 }) rfl rfl [] names distinct survives
  rw [read, String.toList_ofList, lines]
  change ((List.foldlM (Reading.line (4 * (tableText entries).length + 6 + 2))
    { root := .node 0, table := .node 0 } (_ ++ [[]])).run (textDocument []).graph >>= _) = _
  rw [List.foldlM_append, TableM.run_bind run]
  rfl

end Typewright.Toml
