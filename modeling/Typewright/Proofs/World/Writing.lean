import Typewright.Proofs.World.Lookup

/-!
# Writing files

A file that was written is read at its path as it was written (`World.read_of_write`), and can be
written again (`World.exists_write_of_write`). Writing leaves every directory in place, so the path
leads where it did.
-/

namespace Typewright

open Text

namespace World

variable {w w' : World} {path : String} {bytes : List UInt8}

/-! ## Along directories -/

/-- A segment that leads on does so in every world in which it begins in a directory. -/
theorem exists_next_of_lookUpFrom {here rest : List (List Char)} {segment : List Char}
    {found : List (List Char) × Entry}
    (given : w.lookUpFrom here (segment :: rest) = .ok found) :
    w.entryAt? here = some .directory ∧ ∃ next, w.lookUpFrom next rest = .ok found ∧
      ∀ (other : World) (more : List (List Char)), other.entryAt? here = some .directory →
        other.lookUpFrom here (segment :: more) = other.lookUpFrom next more := by
  have directory := (lookUpFrom_cons_ok given).1
  refine ⟨directory, ?_⟩
  rw [lookUpFrom, directory] at given
  dsimp only at given
  split at given
  · next stays =>
    refine ⟨here, given, fun other more same => ?_⟩
    rw [lookUpFrom, same]
    exact if_pos stays
  · next moves =>
    split at given
    · next up =>
      refine ⟨here.dropLast, given, fun other more same => ?_⟩
      rw [lookUpFrom, same]
      exact (if_neg moves).trans (if_pos up)
    · next on =>
      split at given
      · cases given
      · next short =>
        refine ⟨here ++ [segment], given, fun other more same => ?_⟩
        rw [lookUpFrom, same]
        exact (if_neg moves).trans ((if_neg on).trans (if_neg short))

/-- A path goes on from where its first segments lead. -/
theorem lookUpFrom_append {here front place : List (List Char)} {entry : Entry}
    (given : w.lookUpFrom here front = .ok (place, entry)) (rest : List (List Char)) :
    w.lookUpFrom here (front ++ rest) = w.lookUpFrom place rest := by
  induction front generalizing here with
  | nil =>
    rw [lookUpFrom] at given
    split at given
    · cases given
      rfl
    · cases given
  | cons segment front ih =>
    obtain ⟨directory, next, given, leads⟩ := exists_next_of_lookUpFrom given
    rw [List.cons_append, leads w _ directory, ih given]

/-- Every directory of the first world is one of the second. -/
def KeepsDirectories (w w' : World) : Prop :=
  ∀ segments, w.entryAt? segments = some .directory → w'.entryAt? segments = some .directory

/-- What leads to a directory still does where all directories are kept. -/
theorem lookUpFrom_of_keepsDirectories (keeps : KeepsDirectories w w')
    {here along place : List (List Char)}
    (given : w.lookUpFrom here along = .ok (place, .directory)) :
    w'.lookUpFrom here along = .ok (place, .directory) := by
  induction along generalizing here with
  | nil =>
    rw [lookUpFrom] at given ⊢
    split at given
    · next entry found =>
      cases given
      rw [keeps _ found]
    · cases given
  | cons segment along ih =>
    obtain ⟨directory, next, given, leads⟩ := exists_next_of_lookUpFrom given
    rw [leads w' _ (keeps _ directory), ih given]

theorem entryAt?_of_lookUpFrom {here along place : List (List Char)} {entry : Entry}
    (given : w.lookUpFrom here along = .ok (place, entry)) : w.entryAt? place = some entry := by
  induction along generalizing here with
  | nil =>
    rw [lookUpFrom] at given
    split at given
    · next found =>
      cases given
      exact found
    · cases given
  | cons segment along ih =>
    obtain ⟨_, next, given, _⟩ := exists_next_of_lookUpFrom given
    exact ih given

/-! ## The place of a file -/

/-- A path leads to a name in a directory. -/
structure LeadsInto (w : World) (path : String) (directory : List (List Char)) (name : List Char) :
    Prop where
  inhabited : path ≠ ""
  reached : w.lookUpFrom (w.origin path.toList).1 (splitAtChar '/' path.toList).dropLast =
    .ok (directory, .directory)
  last : (splitAtChar '/' path.toList).getLast? = some name
  notEmpty : name ≠ []
  notHere : name ≠ ['.']
  notUp : name ≠ ['.', '.']
  short : (Utf8.encode (String.ofList name)).length ≤ 255

theorem leadsInto_of_placeOf {directory : List (List Char)} {name : List Char}
    (given : w.placeOf path = .ok (directory, name)) (notEmpty : name ≠ []) :
    LeadsInto w path directory name := by
  have inhabited : path ≠ "" := by
    rintro rfl
    cases given
  obtain ⟨front, last, pieces⟩ : ∃ front last, splitAtChar '/' path.toList = front ++ [last] := by
    obtain ⟨piece, pieces, split⟩ := exists_splitAtChar '/' path.toList
    rw [split]
    exact ⟨_, _, (List.dropLast_concat_getLast (by simp)).symm⟩
  rw [placeOf, if_neg inhabited, origin, pieces] at given
  dsimp only at given
  rw [List.dropLast_concat, List.getLastD_concat] at given
  obtain ⟨⟨place, entry⟩, reached, given⟩ := exists_of_bind_ok given
  cases entry with
  | file bytes => cases given
  | directory =>
    dsimp only at given
    split at given
    · cases given
      exact absurd rfl notEmpty
    · next noDots =>
      rw [not_or] at noDots
      split at given
      · cases given
      · next short =>
        cases given
        exact ⟨inhabited, by rwa [origin, pieces, List.dropLast_concat],
          by rw [pieces, List.getLast?_concat], notEmpty, noDots.1, noDots.2, by omega⟩

section

variable {directory : List (List Char)} {name : List Char} (leads : LeadsInto w path directory name)

include leads

theorem LeadsInto.placeOf : w.placeOf path = .ok (directory, name) := by
  have last : (splitAtChar '/' path.toList).getLastD [] = name := by
    rw [List.getLastD_eq_getLast?, leads.last, Option.getD_some]
  have short := leads.short
  rw [World.placeOf, if_neg leads.inhabited]
  change (w.lookUpFrom (w.origin path.toList).1 (splitAtChar '/' path.toList).dropLast >>= _) = _
  rw [leads.reached]
  change (if (splitAtChar '/' path.toList).getLastD [] = ['.'] ∨ _ then _ else _) = _
  rw [last, if_neg (not_or.2 ⟨leads.notHere, leads.notUp⟩), if_neg (by omega)]
  rfl

theorem LeadsInto.lookUp (held : w.entryAt? (directory ++ [name]) = some (.file bytes)) :
    w.lookUp path = .ok (pathOf (directory ++ [name]), .file bytes) := by
  have pieces := List.dropLast_append_getLast? name leads.last
  have inside := entryAt?_of_lookUpFrom leads.reached
  have short := leads.short
  have reached : w.lookUpFrom (w.origin path.toList).1 (splitAtChar '/' path.toList) =
      .ok (directory ++ [name], .file bytes) := by
    rw [← pieces, lookUpFrom_append leads.reached, lookUpFrom, inside]
    dsimp only
    rw [if_neg (by simp [leads.notEmpty, leads.notHere]), if_neg leads.notUp, if_neg (by omega),
      lookUpFrom, held]
  rw [World.lookUp, if_neg leads.inhabited]
  change Except.map _ (w.lookUpFrom (w.origin path.toList).1 (splitAtChar '/' path.toList)) = _
  rw [reached]
  rfl

end

/-! ## Writing -/

theorem pathOf_concat_ne_root (directory : List (List Char)) {name : List Char}
    (notEmpty : name ≠ []) : pathOf (directory ++ [name]) ≠ pathOf [] := by
  intro same
  have chars := congrArg String.toList same
  rw [toList_pathOf, toList_pathOf, List.cons.injEq] at chars
  cases directory with
  | nil => exact notEmpty (by simpa using chars.2)
  | cons first rest =>
    rw [List.cons_append, List.intercalate_cons_of_ne_nil (by simp)] at chars
    simp at chars

/-- A directory is found by its path alone, apart from the root. -/
theorem entryAt?_congr {segments others : List (List Char)} (same : pathOf segments = pathOf others)
    (left : segments ≠ []) (right : others ≠ []) : w.entryAt? segments = w.entryAt? others := by
  rw [entryAt?, entryAt?, same, List.isEmpty_eq_false_iff.2 left, List.isEmpty_eq_false_iff.2 right]

/-- The first file with a path is what stands there. -/
theorem entryAt?_eq_file_iff {segments : List (List Char)} :
    w.entryAt? segments = some (.file bytes) ↔
      ∃ file, w.files.find? (·.1 == pathOf segments) = some file ∧ file.2 = bytes := by
  rw [entryAt?]
  cases w.files.find? (·.1 == pathOf segments) with
  | some file => simp
  | none =>
    simp only [reduceCtorEq, false_and, exists_false, iff_false]
    rw [Option.ite_none_right_eq_some]
    rintro ⟨_, same⟩
    cases Option.some.inj same

theorem find?_of_entryAt?_eq_none {segments : List (List Char)} (missing : w.entryAt? segments = none) :
    w.files.find? (·.1 == pathOf segments) = none := by
  cases found : w.files.find? (·.1 == pathOf segments) with
  | none => rfl
  | some file =>
    have filed := entryAt?_eq_file_iff.2 ⟨file, found, rfl⟩
    rw [missing] at filed
    cases filed

section

variable {directory : List (List Char)} {name : List Char} (notEmpty : name ≠ [])

include notEmpty

/-- Where there is no directory, nothing that is one has the same path. -/
theorem pathOf_ne_of_directory (noDirectory : w.entryAt? (directory ++ [name]) ≠ some .directory)
    {segments : List (List Char)} (is : w.entryAt? segments = some .directory) :
    pathOf segments ≠ pathOf (directory ++ [name]) := by
  intro same
  have inside : segments ≠ [] := by
    rintro rfl
    exact pathOf_concat_ne_root directory notEmpty same.symm
  rw [entryAt?_congr same inside (by simp)] at is
  exact noDirectory is

/-- A file more, in a place where there is no directory, leaves all directories as they are. -/
theorem keepsDirectories_of_files (noDirectory : w.entryAt? (directory ++ [name]) ≠ some .directory)
    (files : List (String × List UInt8))
    (old : ∀ file ∈ w.files, ∃ file' ∈ files, file'.1 = file.1)
    (new : ∀ file' ∈ files, file'.1 = pathOf (directory ++ [name]) ∨
      ∃ file ∈ w.files, file.1 = file'.1) :
    KeepsDirectories w { w with files } := by
  intro segments directory
  have other := pathOf_ne_of_directory notEmpty noDirectory directory
  have more (p : String → Bool) (held : w.files.any (fun file => p file.1) = true) :
      files.any (fun file => p file.1) = true := by
    obtain ⟨file, member, holds⟩ := List.any_eq_true.1 held
    obtain ⟨file', member', same⟩ := old file member
    exact List.any_eq_true.2 ⟨file', member', by rwa [same]⟩
  rw [entryAt?] at directory ⊢
  dsimp only at directory ⊢
  cases found : w.files.find? (·.1 == pathOf segments) with
  | some file =>
    rw [found] at directory
    cases directory
  | none =>
    rw [found] at directory
    have unnamed : files.find? (·.1 == pathOf segments) = none := by
      rw [List.find?_eq_none] at found ⊢
      intro file' member same
      rw [beq_iff_eq] at same
      rcases new file' member with here | ⟨file, inOld, path⟩
      · exact other (same.symm.trans here)
      · exact found file inOld (by rw [beq_iff_eq, path, same])
    rw [unnamed]
    dsimp only at directory ⊢
    obtain ⟨holds, -⟩ := Option.ite_none_right_eq_some.1 directory
    rw [Bool.or_eq_true, Bool.or_eq_true] at holds
    refine if_pos ?_
    rw [Bool.or_eq_true, Bool.or_eq_true]
    exact holds.imp_left (Or.imp_right (more fun path => List.isPrefixOf _ path.toList))

/-- A new file stands at its place, and every directory stays. -/
theorem keeps_and_holds_added (missing : w.entryAt? (directory ++ [name]) = none)
    (bytes : List UInt8) :
    KeepsDirectories w { w with files := w.files ++ [(pathOf (directory ++ [name]), bytes)] } ∧
      entryAt? { w with files := w.files ++ [(pathOf (directory ++ [name]), bytes)] }
        (directory ++ [name]) = some (.file bytes) := by
  have noDirectory : w.entryAt? (directory ++ [name]) ≠ some .directory := by
    rw [missing]
    intro same
    cases same
  constructor
  · refine keepsDirectories_of_files notEmpty noDirectory _
      (fun file member => ⟨file, List.mem_append_left _ member, rfl⟩) fun file member => ?_
    rcases List.mem_append.1 member with old | new
    · exact Or.inr ⟨file, old, rfl⟩
    · exact Or.inl (by rw [List.mem_singleton.1 new])
  · refine entryAt?_eq_file_iff.2 ⟨(pathOf (directory ++ [name]), bytes), ?_, rfl⟩
    rw [List.find?_append, find?_of_entryAt?_eq_none missing]
    simp

/-- A file with other bytes stands at its place, and every directory stays. -/
theorem keeps_and_holds_overwritten {before : List UInt8}
    (filed : w.entryAt? (directory ++ [name]) = some (.file before)) (bytes : List UInt8) :
    KeepsDirectories w { w with files := w.files.map fun file =>
        (file.1, if file.1 = pathOf (directory ++ [name]) then bytes else file.2) } ∧
      entryAt? { w with files := w.files.map fun file =>
        (file.1, if file.1 = pathOf (directory ++ [name]) then bytes else file.2) }
        (directory ++ [name]) = some (.file bytes) := by
  have noDirectory : w.entryAt? (directory ++ [name]) ≠ some .directory := by
    rw [filed]
    intro same
    cases Option.some.inj same
  constructor
  · refine keepsDirectories_of_files notEmpty noDirectory _
      (fun file member => ⟨_, List.mem_map.2 ⟨file, member, rfl⟩, rfl⟩) fun file' member => ?_
    obtain ⟨file, old, rfl⟩ := List.mem_map.1 member
    exact Or.inr ⟨file, old, rfl⟩
  · obtain ⟨file, first, -⟩ := entryAt?_eq_file_iff.1 filed
    have same : file.1 = pathOf (directory ++ [name]) := by simpa using List.find?_some first
    refine entryAt?_eq_file_iff.2 ⟨(file.1, bytes), ?_, rfl⟩
    rw [List.find?_map]
    change Option.map _ (w.files.find? (·.1 == pathOf (directory ++ [name]))) = _
    rw [first, Option.map_some, if_pos same]

end

/-- What keeps the directories keeps the place of a path. -/
theorem LeadsInto.of_keeps {directory : List (List Char)} {name : List Char}
    (leads : LeadsInto w path directory name) (keeps : KeepsDirectories w w')
    (same : w'.directory = w.directory) : LeadsInto w' path directory name where
  inhabited := leads.inhabited
  reached := by
    rw [origin, same]
    exact lookUpFrom_of_keepsDirectories keeps leads.reached
  last := leads.last
  notEmpty := leads.notEmpty
  notHere := leads.notHere
  notUp := leads.notUp
  short := leads.short

/-- A file that was written stands at its place, which the path still leads to. -/
theorem exists_leadsInto_of_write (written : w.write path bytes = .ok w') :
    ∃ directory name, LeadsInto w path directory name ∧ LeadsInto w' path directory name ∧
      w'.entryAt? (directory ++ [name]) = some (.file bytes) := by
  rw [write] at written
  obtain ⟨⟨directory, name⟩, placed, written⟩ := exists_of_bind_ok written
  dsimp only at written
  have notEmpty : name ≠ [] := by
    rintro rfl
    cases written
  have filled : name.isEmpty = false := List.isEmpty_eq_false_iff.2 notEmpty
  have leads := leadsInto_of_placeOf placed notEmpty
  rw [filled, if_neg Bool.false_ne_true] at written
  refine ⟨directory, name, leads, ?_⟩
  split at written
  · cases written
  · next before found =>
    cases written
    obtain ⟨keeps, held⟩ := keeps_and_holds_overwritten notEmpty found bytes
    exact ⟨leads.of_keeps keeps rfl, held⟩
  · next found =>
    cases written
    obtain ⟨keeps, held⟩ := keeps_and_holds_added notEmpty found bytes
    exact ⟨leads.of_keeps keeps rfl, held⟩

/-- A file that was written is read as it was written. -/
theorem read_of_write (written : w.write path bytes = .ok w') : w'.read path = .ok bytes := by
  obtain ⟨directory, name, _, leads, held⟩ := exists_leadsInto_of_write written
  rw [read, leads.lookUp held]

theorem kindOf_of_write (written : w.write path bytes = .ok w') :
    w'.kindOf path = some .file := by
  obtain ⟨directory, name, _, leads, held⟩ := exists_leadsInto_of_write written
  rw [kindOf, leads.lookUp held]

/-- A file that was written can be written again. -/
theorem exists_write_of_write (written : w.write path bytes = .ok w') (more : List UInt8) :
    ∃ w'', w'.write path more = .ok w'' := by
  obtain ⟨directory, name, _, leads, held⟩ := exists_leadsInto_of_write written
  have filled : name.isEmpty = false := List.isEmpty_eq_false_iff.2 leads.notEmpty
  rw [write, leads.placeOf]
  dsimp only [bind, Except.bind]
  rw [filled, held]
  exact ⟨_, rfl⟩

end World

/-! ## In a session -/

namespace Session

variable {α β : Type} {session after : Session} {directory path : String} {toml : TomlCodec}

/-- A step that gives a result is followed by the next one. -/
theorem run_bind {x : Loading (StateM Session) α} {next : α → Loading (StateM Session) β} {a : α}
    (done : x.run.run session = (.ok a, after)) :
    (x >>= next).run.run session = (next a).run.run after := by
  rw [ExceptT.run_bind, StateT.run_bind, done]
  rfl

theorem run_kindOf (session : Session) (directory path : String) (toml : TomlCodec) :
    (ExceptT.lift ((shell directory toml).kindOf path) :
      Loading (StateM Session) (Option PathKind)).run.run session =
        (.ok (session.world.kindOf path), session) := rfl

theorem run_readFile (session : Session) (directory path : String) (toml : TomlCodec) :
    (ExceptT.lift ((shell directory toml).readFile path) :
      Loading (StateM Session) (Except FileFault (List UInt8))).run.run session =
        (.ok (session.world.read path), session) := rfl

/-- Writing a text leaves its bytes in the file. -/
theorem run_writeText {text : String} (noNull : Char.ofNat 0 ∉ path.toList) {w : World}
    (written : session.world.write path (Utf8.encode text) = .ok w) :
    ((shell directory toml).writeText path text).run.run session =
      (.ok (), { session with world := w }) := by
  have absent : path.toList.contains (Char.ofNat 0) = false := by simpa using noNull
  have changed : (ExceptT.lift ((shell directory toml).writeFile path (Utf8.encode text)) :
      Loading (StateM Session) (Except FileFault Unit)).run.run session =
        (.ok (.ok ()), { session with world := w }) := by
    have step : change (·.write path (Utf8.encode text)) session =
        (.ok (), { session with world := w }) := by
      rw [change, written]
    change (match change (·.write path (Utf8.encode text)) session with
      | (a, s) => (Except.ok a, s)) = _
    rw [step]
  rw [Shell.writeText, absent]
  exact run_bind changed

end Session

end Typewright
