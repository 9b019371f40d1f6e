import Typewright.Proofs.Outcome
import Typewright.Proofs.Text.Search
import Typewright.World.Simulated

/-!
# Looking up paths

Going along a path ends at its normal form, every directory on the way being there
(`World.lookUpFrom_spec`); and whatever can be reached can be reached along its normal form
(`World.lookUpFrom_of_passable`). So a path from the root and its absolute form lead to the same file
(`World.read_absolute`).
-/

namespace Typewright

open Text

/-! ## Normal paths -/

namespace Path

/-- The segments of a path that goes on with one more: an empty one and a dot stay where they are,
and two dots go up. -/
def goOn (kept : List (List Char)) (segment : List Char) : List (List Char) :=
  if segment.isEmpty || segment == ['.'] then kept
  else if segment == ['.', '.'] then kept.dropLast
  else kept ++ [segment]

theorem normalSegments_eq_foldl (path : List Char) :
    normalSegments path = (splitAtChar '/' path).foldl goOn [] := rfl

/-- Segments that stand for themselves in a path. -/
structure IsName (segment : List Char) : Prop where
  inhabited : segment ≠ []
  notHere : segment ≠ ['.']
  notUp : segment ≠ ['.', '.']
  whole : '/' ∉ segment

instance : DecidablePred IsName := fun segment =>
  decidable_of_iff (segment ≠ [] ∧ segment ≠ ['.'] ∧ segment ≠ ['.', '.'] ∧ '/' ∉ segment)
    ⟨fun ⟨inhabited, notHere, notUp, whole⟩ => ⟨inhabited, notHere, notUp, whole⟩,
      fun name => ⟨name.inhabited, name.notHere, name.notUp, name.whole⟩⟩

theorem goOn_of_isName {segment : List Char} (name : IsName segment) (kept : List (List Char)) :
    goOn kept segment = kept ++ [segment] := by
  have filled : segment.isEmpty = false := by
    rw [List.isEmpty_eq_false_iff]
    exact name.inhabited
  rw [goOn, filled, Bool.false_or, if_neg (by simpa using name.notHere),
    if_neg (by simpa using name.notUp)]

theorem foldl_goOn_of_isName {segments : List (List Char)} (names : ∀ s ∈ segments, IsName s)
    (kept : List (List Char)) : segments.foldl goOn kept = kept ++ segments := by
  induction segments generalizing kept with
  | nil => rw [List.foldl_nil, List.append_nil]
  | cons s segments ih =>
    rw [List.foldl_cons, goOn_of_isName (names s List.mem_cons_self),
      ih fun t member => names t (List.mem_cons_of_mem _ member), List.append_assoc,
      List.singleton_append]

/-- A segment stays where it is, goes up or is a name. -/
theorem goOn_cases {segment : List Char} (whole : '/' ∉ segment) (kept : List (List Char)) :
    goOn kept segment = kept ∧ (segment = [] ∨ segment = ['.']) ∨
    goOn kept segment = kept.dropLast ∧ segment = ['.', '.'] ∨
    goOn kept segment = kept ++ [segment] ∧ IsName segment := by
  by_cases stays : segment = [] ∨ segment = ['.']
  · refine Or.inl ⟨?_, stays⟩
    rcases stays with rfl | rfl <;> rfl
  by_cases up : segment = ['.', '.']
  · refine Or.inr (Or.inl ⟨?_, up⟩)
    rw [up]
    rfl
  · rw [not_or] at stays
    have name : IsName segment := ⟨stays.1, stays.2, up, whole⟩
    exact Or.inr (Or.inr ⟨goOn_of_isName name kept, name⟩)

/-- The segments of a normal form are names. -/
theorem isName_of_mem_foldl_goOn {along kept : List (List Char)}
    (whole : ∀ s ∈ along, '/' ∉ s) (names : ∀ s ∈ kept, IsName s) :
    ∀ s ∈ along.foldl goOn kept, IsName s := by
  induction along generalizing kept with
  | nil => exact names
  | cons segment along ih =>
    rw [List.foldl_cons]
    refine ih (fun s member => whole s (List.mem_cons_of_mem _ member)) ?_
    rcases goOn_cases (whole segment List.mem_cons_self) kept with
      ⟨stays, _⟩ | ⟨up, _⟩ | ⟨on, name⟩
    · rwa [stays]
    · rw [up]
      exact fun s member => names s (List.mem_of_mem_dropLast member)
    · rw [on]
      intro s member
      rcases List.mem_append.1 member with old | new
      · exact names s old
      · rwa [List.mem_singleton.1 new]

theorem isName_of_mem_normalSegments {path s : List Char} (member : s ∈ normalSegments path) :
    IsName s :=
  isName_of_mem_foldl_goOn (fun _ => not_mem_of_mem_splitAtChar) (by simp) s member

end Path

namespace World

open Typewright.Path

theorem toList_pathOf (segments : List (List Char)) :
    (pathOf segments).toList = '/' :: ['/'].intercalate segments := by
  rw [pathOf, String.toList_append, String.toList_ofList, String.toList_ofList]
  rfl

/-- A normal path falls into its segments. -/
theorem splitAtChar_pathOf {segments : List (List Char)} (inhabited : segments ≠ [])
    (names : ∀ s ∈ segments, IsName s) :
    splitAtChar '/' (pathOf segments).toList = [] :: segments := by
  rw [toList_pathOf, splitAtChar, if_pos rfl,
    splitAtChar_intercalate inhabited fun s member => (names s member).whole]

/-- A normal path is its own normal form. -/
theorem normalSegments_pathOf {segments : List (List Char)} (names : ∀ s ∈ segments, IsName s) :
    normalSegments (pathOf segments).toList = segments := by
  by_cases inhabited : segments = []
  · rw [inhabited]
    rfl
  · rw [normalSegments_eq_foldl, splitAtChar_pathOf inhabited names, List.foldl_cons,
      foldl_goOn_of_isName names]
    rfl

/-- The absolute form of a path from the root. -/
theorem absolute_of_rooted {path : String} (rooted : path.toList.head? = some '/')
    (directory : String) : absolute directory path = pathOf (normalSegments path.toList) := by
  rw [absolute, if_pos rooted]
  rfl

/-! ## Going along -/

variable {w : World}

/-- Segments that can be gone along from the root: names that are not too long, with directories
before the last of them. -/
structure Passable (w : World) (segments : List (List Char)) : Prop where
  names : ∀ s ∈ segments, IsName s
  short : ∀ s ∈ segments, (Utf8.encode (String.ofList s)).length ≤ 255
  inside : ∀ n < segments.length, w.entryAt? (segments.take n) = some .directory

theorem Passable.nil (w : World) : Passable w [] :=
  ⟨by simp, by simp, by simp⟩

theorem Passable.dropLast {segments : List (List Char)} (passable : Passable w segments) :
    Passable w segments.dropLast where
  names s member := passable.names s (List.mem_of_mem_dropLast member)
  short s member := passable.short s (List.mem_of_mem_dropLast member)
  inside n lower := by
    rw [List.length_dropLast] at lower
    have within := passable.inside n (by omega)
    rwa [List.dropLast_eq_take, List.take_take, Nat.min_eq_left (by omega)]

theorem Passable.append {segments : List (List Char)} {s : List Char}
    (passable : Passable w segments) (here : w.entryAt? segments = some .directory)
    (name : IsName s) (short : (Utf8.encode (String.ofList s)).length ≤ 255) :
    Passable w (segments ++ [s]) where
  names t member := by
    rcases List.mem_append.1 member with old | new
    · exact passable.names t old
    · rwa [List.mem_singleton.1 new]
  short t member := by
    rcases List.mem_append.1 member with old | new
    · exact passable.short t old
    · rwa [List.mem_singleton.1 new]
  inside n lower := by
    rw [List.length_append, List.length_singleton] at lower
    rw [List.take_append_of_le_length (by omega)]
    rcases Nat.lt_or_eq_of_le (Nat.le_of_lt_succ lower) with less | rfl
    · exact passable.inside n less
    · rwa [List.take_length]

/-- Going along one segment more needs a directory, and a name that is not too long. -/
theorem lookUpFrom_cons_ok {here rest : List (List Char)} {segment : List Char}
    {found : List (List Char) × Entry}
    (given : w.lookUpFrom here (segment :: rest) = .ok found) :
    w.entryAt? here = some .directory ∧
      (IsName segment → (Utf8.encode (String.ofList segment)).length ≤ 255) ∧
      w.lookUpFrom (goOn here segment) rest = .ok found := by
  rw [lookUpFrom] at given
  cases entry : w.entryAt? here with
  | none =>
    rw [entry] at given
    cases given
  | some e =>
    cases e with
    | file bytes =>
      rw [entry] at given
      cases given
    | directory =>
      rw [entry] at given
      refine ⟨rfl, ?_⟩
      dsimp only at given
      split at given
      · next stays =>
        refine ⟨fun name => ?_, ?_⟩
        · rcases stays with empty | dot
          · exact absurd (List.isEmpty_iff.1 empty) name.inhabited
          · exact absurd dot name.notHere
        · rwa [goOn, if_pos (by simpa using stays)]
      · next moves =>
        have goes : ¬((segment.isEmpty || segment == ['.']) = true) := by simpa using moves
        split at given
        · next up =>
          refine ⟨fun name => absurd up name.notUp, ?_⟩
          rwa [goOn, if_neg goes, if_pos (by simpa using up)]
        · next on =>
          split at given
          · cases given
          · next short =>
            refine ⟨fun _ => by omega, ?_⟩
            rwa [goOn, if_neg goes, if_neg (by simpa using on)]

/-- Going along a path leads to its normal form, through directories. -/
theorem lookUpFrom_spec {here along segments : List (List Char)} {entry : Entry}
    (passable : Passable w here) (whole : ∀ s ∈ along, '/' ∉ s)
    (given : w.lookUpFrom here along = .ok (segments, entry)) :
    segments = along.foldl goOn here ∧ Passable w segments ∧ w.entryAt? segments = some entry := by
  induction along generalizing here with
  | nil =>
    rw [lookUpFrom] at given
    cases found : w.entryAt? here with
    | none =>
      rw [found] at given
      cases given
    | some e =>
      rw [found] at given
      cases given
      exact ⟨rfl, passable, found⟩
  | cons segment along ih =>
    obtain ⟨directory, short, given⟩ := lookUpFrom_cons_ok given
    rw [List.foldl_cons]
    refine ih ?_ (fun s member => whole s (List.mem_cons_of_mem _ member)) given
    rcases goOn_cases (whole segment List.mem_cons_self) here with
      ⟨stays, _⟩ | ⟨up, _⟩ | ⟨on, name⟩
    · rwa [stays]
    · rw [up]
      exact passable.dropLast
    · rw [on]
      exact passable.append directory name (short name)

/-- What stands at the end of passable segments is reached along them. -/
theorem lookUpFrom_of_passable {here along : List (List Char)} {entry : Entry}
    (passable : Passable w (here ++ along)) (found : w.entryAt? (here ++ along) = some entry) :
    w.lookUpFrom here along = .ok (here ++ along, entry) := by
  induction along generalizing here with
  | nil =>
    rw [List.append_nil] at found
    rw [lookUpFrom, found, List.append_nil]
  | cons segment along ih =>
    have directory := passable.inside here.length (by simp)
    rw [List.take_left] at directory
    have name := passable.names segment (by simp)
    have short := passable.short segment (by simp)
    have whole : here ++ segment :: along = (here ++ [segment]) ++ along := by simp
    rw [whole] at passable found
    have rest := ih passable found
    rw [lookUpFrom, directory]
    dsimp only
    rw [if_neg (by simp [name.inhabited, name.notHere]), if_neg name.notUp, if_neg (by omega), rest,
      whole]

/-! ## Reading -/

theorem read_eq_ok_iff {path : String} {bytes : List UInt8} (rooted : path.toList.head? = some '/') :
    w.read path = .ok bytes ↔
      ∃ segments, w.lookUpFrom [] (splitAtChar '/' path.toList) = .ok (segments, .file bytes) := by
  have inhabited : path ≠ "" := by
    rintro rfl
    cases rooted
  rw [read, lookUp, if_neg inhabited, origin, if_pos rooted]
  dsimp only
  cases w.lookUpFrom [] (splitAtChar '/' path.toList) with
  | error fault => simp [Except.map]
  | ok found =>
    obtain ⟨segments, entry⟩ := found
    cases entry <;> simp [Except.map]

/-- A path from the root and its absolute form lead to the same file. -/
theorem read_absolute {path : String} {bytes : List UInt8} (directory : String)
    (rooted : path.toList.head? = some '/') (given : w.read path = .ok bytes) :
    w.read (absolute directory path) = .ok bytes := by
  obtain ⟨segments, reached⟩ := (read_eq_ok_iff rooted).1 given
  obtain ⟨same, passable, found⟩ :=
    lookUpFrom_spec (.nil w) (fun _ => not_mem_of_mem_splitAtChar) reached
  rw [← normalSegments_eq_foldl] at same
  -- the first segment of the path is empty, so that the root is a directory
  have root : w.entryAt? [] = some .directory := by
    obtain ⟨rest, pieces⟩ : ∃ rest, splitAtChar '/' path.toList = [] :: rest := by
      cases chars : path.toList with
      | nil =>
        rw [chars] at rooted
        cases rooted
      | cons c rest =>
        rw [chars] at rooted
        cases rooted
        exact ⟨_, rfl⟩
    rw [pieces] at reached
    exact (lookUpFrom_cons_ok reached).1
  have inhabited : segments ≠ [] := by
    rintro rfl
    rw [root] at found
    cases found
  have rooted' : (pathOf segments).toList.head? = some '/' := by rw [toList_pathOf]; rfl
  rw [absolute_of_rooted rooted, ← same, read_eq_ok_iff rooted',
    splitAtChar_pathOf inhabited passable.names, lookUpFrom, root]
  exact ⟨_, lookUpFrom_of_passable passable found⟩

/-! ## A single file -/

/-- The world with one file and the directories that lead to it. -/
def holding (segments : List (List Char)) (bytes : List UInt8) : World where
  directory := "/"
  files := [(pathOf segments, bytes)]
  directories := (List.range segments.length).map fun n => pathOf (segments.take n)
  web := []

/-- Any names that are not too long lead to a file in some world. -/
theorem read_holding {segments : List (List Char)} {bytes : List UInt8}
    (inhabited : segments ≠ []) (names : ∀ s ∈ segments, IsName s)
    (short : ∀ s ∈ segments, (Utf8.encode (String.ofList s)).length ≤ 255) :
    (holding segments bytes).read (pathOf segments) = .ok bytes := by
  have inside : ∀ n < segments.length,
      (holding segments bytes).entryAt? (segments.take n) = some .directory := by
    intro n lower
    have apart : pathOf segments ≠ pathOf (segments.take n) := by
      intro same
      have normal := normalSegments_pathOf names
      rw [same, normalSegments_pathOf fun s member => names s (List.mem_of_mem_take member)]
        at normal
      have lengths := congrArg List.length normal
      rw [List.length_take] at lengths
      omega
    have unfiled : (holding segments bytes).files.find? (·.1 == pathOf (segments.take n)) = none :=
      List.find?_eq_none.2 (by simpa [holding] using apart)
    have listed : (holding segments bytes).directories.contains (pathOf (segments.take n)) = true :=
      List.contains_iff_mem.2 (List.mem_map.2 ⟨n, List.mem_range.2 lower, rfl⟩)
    rw [entryAt?, unfiled, listed]
    simp
  have filed : (holding segments bytes).entryAt? segments = some (.file bytes) := by
    rw [entryAt?]
    simp [holding]
  have root : (holding segments bytes).entryAt? [] = some .directory := by
    have first := inside 0 (List.length_pos_iff.2 inhabited)
    rwa [List.take_zero] at first
  rw [read_eq_ok_iff (by rw [toList_pathOf]; rfl), splitAtChar_pathOf inhabited names, lookUpFrom,
    root]
  exact ⟨_, lookUpFrom_of_passable ⟨names, short, inside⟩ filed⟩

end World

end Typewright
