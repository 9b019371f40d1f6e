import Mathlib.Data.List.Induction
import Typewright.Proofs.Document.Search

/-!
# Lists with one entry for each key

Setting an entry replaces the one with the same key in its place; an entry with a new key goes last
(`Keyed.put`). Of entries that are set one after the other (`Keyed.ofList`), the last one with a key
stays (`Keyed.find?_ofList`, `Keyed.exists_last_of_mem`), and the keys stand in the order in which
they came up (`Keyed.keys_ofList`). Entries with keys of their own all stay
(`Keyed.ofList_of_nodup`).

The responses of an operation by status, the index of endpoints and the models of a result are made
in this way.
-/

namespace Typewright.Keyed

variable {α κ : Type} [DecidableEq κ] {key : α → κ} {l : List α} {new a : α}

/-- Sets an entry. One with the same key is replaced in its place. -/
def put (key : α → κ) : List α → α → List α
  | [], new => [new]
  | old :: rest, new => if key old = key new then new :: rest else old :: put key rest new

/-- What is there once entries have been set one after the other. -/
def ofList (key : α → κ) (l : List α) : List α :=
  l.foldl (put key) []

theorem ofList_concat (key : α → κ) (l : List α) (new : α) :
    ofList key (l ++ [new]) = put key (ofList key l) new := by
  rw [ofList, List.foldl_concat, ofList]

/-! ## Entries -/

theorem mem_put (member : a ∈ put key l new) : a = new ∨ a ∈ l := by
  induction l with
  | nil => exact Or.inl (List.mem_singleton.1 member)
  | cons old rest ih =>
    rw [put] at member
    split at member
    · exact (List.mem_cons.1 member).imp id (List.mem_cons_of_mem _)
    · rcases List.mem_cons.1 member with here | later
      · exact Or.inr (List.mem_cons.2 (Or.inl here))
      · exact (ih later).imp id (List.mem_cons_of_mem _)

theorem mem_of_mem_ofList (member : a ∈ ofList key l) : a ∈ l := by
  induction l using List.reverseRecOn with
  | nil => exact member
  | append_singleton l new ih =>
    rw [ofList_concat] at member
    rcases mem_put member with here | old
    · exact List.mem_append_right _ (List.mem_singleton.2 here)
    · exact List.mem_append_left _ (ih old)

/-! ## Keys -/

theorem keys_put (key : α → κ) (l : List α) (new : α) :
    (put key l new).map key =
      if key new ∈ l.map key then l.map key else l.map key ++ [key new] := by
  induction l with
  | nil => rfl
  | cons old rest ih =>
    rw [put]
    by_cases same : key old = key new
    · simp [same]
    · have other : ¬ key new = key old := fun back => same back.symm
      rw [if_neg same, List.map_cons, ih, List.map_cons]
      by_cases later : key new ∈ rest.map key
      · simp [later]
      · simp [later, other]

/-- The keys are those of the entries that were set, in the order in which they came up. -/
theorem keys_ofList (key : α → κ) (l : List α) : (ofList key l).map key = (l.map key).eraseDups := by
  induction l using List.reverseRecOn with
  | nil => rfl
  | append_singleton l new ih =>
    rw [ofList_concat, keys_put, ih, List.map_append, List.eraseDups_append, List.map_singleton]
    generalize l.map key = keys
    by_cases early : key new ∈ keys
    · simp [List.removeAll, early]
    · simp [List.removeAll, List.eraseDups_cons, early]

theorem keys_nodup (key : α → κ) (l : List α) : ((ofList key l).map key).Nodup := by
  rw [keys_ofList]
  exact Search.nodup_eraseDups _

/-- Some entry has a key exactly if some entry that was set has it. -/
theorem exists_mem_ofList_iff {k : κ} : (∃ a ∈ ofList key l, key a = k) ↔ ∃ a ∈ l, key a = k := by
  rw [← List.mem_map, keys_ofList, List.mem_eraseDups, List.mem_map]

/-! ## The last entry with a key -/

theorem find?_put (key : α → κ) (l : List α) (new : α) (k : κ) :
    (put key l new).find? (key · == k) =
      if key new = k then some new else l.find? (key · == k) := by
  induction l with
  | nil => by_cases here : key new = k <;> simp [put, here]
  | cons old rest ih =>
    rw [put]
    by_cases replaces : key old = key new
    · by_cases here : key new = k <;> simp [replaces, here]
    · rw [if_neg replaces]
      by_cases here : key old = k
      · have other : ¬ key new = k := fun same => replaces (here.trans same.symm)
        simp [here, other]
      · rw [List.find?_cons_of_neg (by simpa using here), ih,
          List.find?_cons_of_neg (by simpa using here)]

/-- Under a key is the last entry with it that was set. -/
theorem find?_ofList (key : α → κ) (l : List α) (k : κ) :
    (ofList key l).find? (key · == k) = l.reverse.find? (key · == k) := by
  induction l using List.reverseRecOn with
  | nil => rfl
  | append_singleton l new ih =>
    rw [ofList_concat, find?_put, ih, List.reverse_concat]
    by_cases here : key new = k
    · rw [if_pos here, List.find?_cons_of_pos (by simpa using here)]
    · rw [if_neg here, List.find?_cons_of_neg (by simpa using here)]

/-- An entry that is there was set after all others with its key. -/
theorem exists_last_of_mem (member : a ∈ ofList key l) :
    ∃ earlier later, l = earlier ++ a :: later ∧ ∀ other ∈ later, key other ≠ key a := by
  have found : (ofList key l).find? (key · == key a) = some a := by
    have once := keys_nodup key l
    generalize ofList key l = kept at member once
    induction kept with
    | nil => cases member
    | cons first kept ih =>
      rw [List.map_cons, List.nodup_cons] at once
      rcases List.mem_cons.1 member with rfl | later
      · simp
      · have other : key first ≠ key a := fun same => once.1 (same ▸ List.mem_map_of_mem later)
        rw [List.find?_cons_of_neg (by simpa using other)]
        exact ih later once.2
  rw [find?_ofList, List.find?_eq_some_iff_append] at found
  obtain ⟨_, later, earlier, whole, last⟩ := found
  refine ⟨earlier.reverse, later.reverse, ?_, fun other inside => ?_⟩
  · simpa using congrArg List.reverse whole
  · simpa using last other (List.mem_reverse.1 inside)

/-! ## Keys of their own -/

theorem put_of_fresh (fresh : key new ∉ l.map key) : put key l new = l ++ [new] := by
  induction l with
  | nil => rfl
  | cons old rest ih =>
    rw [List.map_cons, List.mem_cons, not_or] at fresh
    rw [put, if_neg fun same => fresh.1 same.symm, ih fresh.2]
    rfl

/-- Entries with keys of their own all stay. -/
theorem ofList_of_nodup (once : (l.map key).Nodup) : ofList key l = l := by
  induction l using List.reverseRecOn with
  | nil => rfl
  | append_singleton l new ih =>
    rw [List.map_append, List.map_singleton, List.nodup_append] at once
    rw [ofList_concat, ih once.1]
    exact put_of_fresh fun taken => once.2.2 _ taken _ (List.mem_singleton_self _) rfl

/-- Setting entries under other names for what they hold. -/
theorem ofList_map {β : Type} (other : β → κ) {f : α → β} (same : ∀ a, other (f a) = key a)
    (l : List α) : ofList other (l.map f) = (ofList key l).map f := by
  have one : ∀ (l : List α) (new : α), put other (l.map f) (f new) = (put key l new).map f := by
    intro l new
    induction l with
    | nil => rfl
    | cons old rest ih =>
      rw [List.map_cons, put, put, same, same, ih]
      split <;> rfl
  induction l using List.reverseRecOn with
  | nil => rfl
  | append_singleton l new ih =>
    rw [List.map_append, List.map_singleton, ofList_concat, ofList_concat, ih, one]

end Typewright.Keyed
