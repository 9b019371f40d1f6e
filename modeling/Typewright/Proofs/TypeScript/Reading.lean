import Typewright.Proofs.Text.Search
import Typewright.TypeScript.Braces
import Typewright.TypeScript.Split

/-!
# Reading over text

How the two readers of source text pass over a piece of it: the reader of braces, inside braces,
from one place to another (`Source.Crosses`), and the search for a head, from the middle or the beginning
of a line (`Source.Skips`). Both compose. Text that both pass over from code in the middle of a line
to the same is inert (`Source.Inert`), and what stands between braces in such text is, too.

What a text holds of code depends on the place from which it is read (`Source.codeFrom`). Inside
literals and comments it holds none (`Source.Silent`), so the reader of braces passes over it.

No head begins in a text of which no line begins with the first letter of one (`Source.Quiet`).
-/

namespace Typewright.Source

variable {place middle next : Place} {text more : List Char} {c : Char}

/-! ## The reader of braces -/

/-- Inside braces, reading a text leads from one place to another and keeps the depth. -/
def Crosses (place : Place) (text : List Char) (next : Place) : Prop :=
  ∀ (first : Nat) (depth : Int) (offset : Nat) (rest : List Char), 0 < depth →
    bracePairFrom? place (some first) depth offset (text ++ rest) =
      bracePairFrom? next (some first) depth (offset + text.length) rest

theorem Crosses.nil (place : Place) : Crosses place [] place :=
  fun _ _ _ _ _ => rfl

theorem Crosses.append (front : Crosses place text middle) (back : Crosses middle more next) :
    Crosses place (text ++ more) next := by
  intro first depth offset rest inside
  rw [List.append_assoc, front first depth offset _ inside, back first depth _ rest inside,
    List.length_append, Nat.add_assoc]

theorem Crosses.cons (one : Crosses place [c] middle) (back : Crosses middle text next) :
    Crosses place (c :: text) next :=
  one.append back

/-- The reader's step, once there was an opening brace. -/
theorem bracePairFrom?_cons (place : Place) (first : Nat) (depth : Int) (offset : Nat) (c : Char)
    (rest : List Char) :
    bracePairFrom? place (some first) depth offset (c :: rest) =
      if place.isCode = true ∧ c = '\x7d' ∧ depthAfter depth c = 0 then some (first, offset)
      else bracePairFrom? (place.after c) (some first)
        (if place.isCode then depthAfter depth c else depth) (offset + 1) rest := by
  rw [bracePairFrom?]
  cases place.isCode with
  | false => simp
  | true => simp [Option.or]

/-- A character moves the reader on, unless it is a brace in code. -/
theorem crosses_char (inert : place.isCode = true → c ≠ '\x7b' ∧ c ≠ '\x7d') :
    Crosses place [c] (place.after c) := by
  intro first depth offset rest inside
  rw [List.singleton_append, bracePairFrom?_cons]
  cases code : place.isCode with
  | false => simp
  | true =>
    obtain ⟨opening, closing⟩ := inert code
    simp [depthAfter, opening, closing]

/-- Braces around a text that keeps the depth. -/
theorem Crosses.braced (inside : Crosses .code text .code) :
    Crosses .code ('\x7b' :: text ++ ['\x7d']) .code := by
  intro first depth offset rest positive
  have deeper : depthAfter depth '\x7b' = depth + 1 := rfl
  have back : depthAfter (depth + 1) '\x7d' = depth := Int.add_sub_cancel depth 1
  have apart : ¬ depth = 0 := by omega
  rw [List.cons_append, List.cons_append, List.append_assoc, bracePairFrom?_cons, if_neg (by simp)]
  change bracePairFrom? .code (some first) (depthAfter depth '\x7b') _ (text ++ '\x7d' :: rest) = _
  rw [deeper, inside first (depth + 1) _ _ (by omega), bracePairFrom?_cons, back,
    if_neg fun closed => apart closed.2.2]
  change bracePairFrom? .code (some first) depth _ rest = _
  simp only [List.length_cons, List.length_append, List.length_nil]
  congr 1
  omega

/-! ## Text without code -/

/-- The code of a text that is read from a place: what stands outside literals and comments, and the
marks that open them. -/
def codeFrom : Place → List Char → List Char
  | _, [] => []
  | place, c :: rest =>
    if place.isCode then c :: codeFrom (place.after c) rest else codeFrom (place.after c) rest

theorem codeFrom_append (place : Place) (text more : List Char) :
    codeFrom place (text ++ more) =
      codeFrom place text ++ codeFrom (text.foldl Place.after place) more := by
  induction text generalizing place with
  | nil => rfl
  | cons c text ih =>
    rw [List.cons_append, codeFrom, codeFrom, ih, List.foldl_cons]
    split <;> rfl

/-- Reading a text leads from one place to another, and none of it is code. -/
structure Silent (place : Place) (text : List Char) (next : Place) : Prop where
  leads : text.foldl Place.after place = next
  noCode : codeFrom place text = []

namespace Silent

theorem nil (place : Place) : Silent place [] place :=
  ⟨rfl, rfl⟩

theorem append (front : Silent place text middle) (back : Silent middle more next) :
    Silent place (text ++ more) next := by
  refine ⟨by rw [List.foldl_append, front.leads, back.leads], ?_⟩
  rw [codeFrom_append, front.noCode, front.leads, back.noCode, List.nil_append]

theorem cons (one : Silent place [c] middle) (back : Silent middle text next) :
    Silent place (c :: text) next :=
  one.append back

/-- The reader of braces passes over text without code. -/
theorem crosses (silent : Silent place text next) : Crosses place text next := by
  induction text generalizing place with
  | nil =>
    obtain ⟨rfl, _⟩ := silent
    exact .nil _
  | cons c text ih =>
    obtain ⟨leads, noCode⟩ := silent
    rw [codeFrom] at noCode
    split at noCode
    · cases noCode
    · next outside =>
      exact (crosses_char fun code => absurd code outside).cons (ih ⟨leads, noCode⟩)

end Silent

theorem silent_char (outside : place.isCode = false) : Silent place [c] (place.after c) := by
  refine ⟨rfl, ?_⟩
  rw [codeFrom, outside]
  rfl

/-- The inside of a comment that does not close it. It may leave an asterisk behind. -/
theorem silent_comment (opened : ¬ ['*', '/'] <:+: text) :
    Silent .blockComment text .blockComment ∨ Silent .blockComment text .star := by
  have general : ∀ (l : List Char) (star : Bool), ¬ ['*', '/'] <:+: l →
      (star = true → l.head? ≠ some '/') →
      Silent (if star then .star else .blockComment) l .blockComment ∨
        Silent (if star then .star else .blockComment) l .star := by
    intro l
    induction l with
    | nil =>
      intro star _ _
      cases star with
      | false => exact .inl (.nil _)
      | true => exact .inr (.nil _)
    | cons c rest ih =>
      intro star inside border
      rw [Text.pair_infix_cons_iff, not_or] at inside
      have later := ih (c == '*') inside.2 fun closes first =>
        inside.1 ⟨beq_iff_eq.1 closes, first⟩
      have one : Silent (if star then .star else .blockComment) [c]
          (if c == '*' then .star else .blockComment) := by
        cases star with
        | false =>
          have step := @silent_char .blockComment c rfl
          simpa [Place.after] using step
        | true =>
          have other : c ≠ '/' := fun same => border rfl (by rw [same, List.head?_cons])
          have step := @silent_char .star c rfl
          simpa [Place.after, other] using step
      exact later.imp one.cons one.cons
  exact general text false opened (by simp)

/-- A line inside a comment that does not close it. -/
theorem silent_commentLine (opened : ¬ ['*', '/'] <:+: text) :
    Silent .blockComment (text ++ ['\n']) .blockComment := by
  rcases silent_comment opened with plain | star
  · exact plain.append (@silent_char .blockComment '\n' rfl)
  · exact star.append (@silent_char .star '\n' rfl)

/-- What follows the mark of a comment on its first line. -/
theorem silent_opening : Silent .blockComment ['*', '\n'] .blockComment :=
  (@silent_char .blockComment '*' rfl).cons (@silent_char .star '\n' rfl)

theorem silent_closing : Silent .blockComment [' ', '*', '/'] .code :=
  (@silent_char .blockComment ' ' rfl).cons
    ((@silent_char .blockComment '*' rfl).cons (@silent_char .star '/' rfl))

theorem silent_spaces (spaces : ∀ c ∈ text, c = ' ') :
    Silent .blockComment text .blockComment := by
  induction text with
  | nil => exact .nil _
  | cons c rest ih =>
    have blank := spaces c List.mem_cons_self
    subst blank
    exact (@silent_char .blockComment ' ' rfl).cons
      (ih fun c member => spaces c (List.mem_cons_of_mem _ member))

theorem crosses_opening : Crosses .code ['/', '*', '*', '\n'] .blockComment :=
  (@crosses_char .code '/' (by decide)).cons
    ((@crosses_char .slash '*' (by decide)).cons silent_opening.crosses)

theorem crosses_closing : Crosses .blockComment [' ', '*', '/', '\n'] .code :=
  silent_closing.crosses.append (@crosses_char .code '\n' (by decide))

/-! ## The search for a head -/

/-- No head begins in a text. The flags say whether the text begins a line and whether what follows
it does. -/
def Skips (start : Bool) (text : List Char) (stop : Bool) : Prop :=
  ∀ rest, findHead? start (text ++ rest) =
    (findHead? stop rest).map fun found => (found.1 + text.length, found.2)

section

variable {start between stop : Bool}

theorem Skips.nil (start : Bool) : Skips start [] start := by
  intro rest
  simp

theorem Skips.append (front : Skips start text between) (back : Skips between more stop) :
    Skips start (text ++ more) stop := by
  intro rest
  rw [List.append_assoc, front, back, Option.map_map, List.length_append]
  congr 1
  funext found
  simp only [Function.comp]
  congr 1
  omega

theorem Skips.cons (one : Skips start [c] between) (back : Skips between text stop) :
    Skips start (c :: text) stop :=
  one.append back

theorem head?_eq_none (other : c ≠ 'e') (rest : List Char) : head? (c :: rest) = none := by
  have apart : (['e', 'x', 'p', 'o', 'r', 't'].isPrefixOf (c :: rest)) = false := by
    simp [List.isPrefixOf, Ne.symm other]
  simp [head?, afterWord?, apart]

/-- A character that is no first letter of a head, or that stands in the middle of a line. -/
theorem skips_char (silent : start = true → c ≠ 'e') : Skips start [c] (c == '\n') := by
  intro rest
  rw [List.singleton_append, findHead?]
  cases start with
  | false => simp
  | true => simp [head?_eq_none (silent rfl)]

/-- If no head begins in a text, none begins in the end of it. -/
theorem Skips.exists_of_append {front : List Char} (skips : Skips start (front ++ text) stop) :
    ∃ middle, Skips middle text stop := by
  induction front generalizing start with
  | nil => exact ⟨start, skips⟩
  | cons c front ih =>
    refine @ih (c == '\n') fun rest => ?_
    have whole := skips rest
    rw [List.cons_append, List.cons_append, findHead?] at whole
    generalize (if start = true then head? (c :: (front ++ text ++ rest)) else none) = here at whole
    cases here with
    | some found =>
      cases later : findHead? stop rest with
      | none =>
        rw [later] at whole
        cases whole
      | some found =>
        rw [later] at whole
        simp at whole
    | none =>
      have shifted := congrArg (Option.map fun found : Nat × Head => (found.1 - 1, found.2)) whole
      simpa [Option.map_map, Function.comp_def, ← Nat.add_assoc] using shifted

end

/-! ## Quiet text -/

/-- A text in which no line begins with the first letter of a head. The flags say whether the text
begins a line and whether what follows it does. -/
inductive Quiet : Bool → List Char → Bool → Prop
  | nil (start : Bool) : Quiet start [] start
  | step {start stop : Bool} {c : Char} {text : List Char} (silent : start = true → c ≠ 'e')
      (later : Quiet (c == '\n') text stop) : Quiet start (c :: text) stop

section

variable {start between stop : Bool}

theorem Quiet.append (front : Quiet start text between) (back : Quiet between more stop) :
    Quiet start (text ++ more) stop := by
  induction front with
  | nil => exact back
  | step silent _ ih => exact .step silent (ih back)

theorem Quiet.cons (one : Quiet start [c] between) (back : Quiet between text stop) :
    Quiet start (c :: text) stop :=
  one.append back

/-- A character that is no first letter of a head, or that stands in the middle of a line. -/
theorem quiet_char (silent : start = true → c ≠ 'e') : Quiet start [c] (c == '\n') :=
  .step silent (.nil _)

/-- No head begins in a quiet text. -/
theorem Quiet.skips (quiet : Quiet start text stop) : Skips start text stop := by
  induction quiet with
  | nil => exact .nil _
  | step silent _ ih => exact (skips_char silent).cons ih

theorem quiet_line (oneLine : ∀ c ∈ text, c ≠ '\n') : Quiet false text false := by
  induction text with
  | nil => exact .nil false
  | cons c rest ih =>
    have one : Quiet false [c] false := by
      have step := @quiet_char c false (by simp)
      rwa [beq_eq_false_iff_ne.2 (oneLine c List.mem_cons_self)] at step
    exact one.cons (ih fun c member => oneLine c (List.mem_cons_of_mem _ member))

/-- Whole lines that begin with another letter than a head. -/
theorem quiet_lines {l : List (List Char)}
    (each : ∀ line ∈ l, (∀ c ∈ line, c ≠ '\n') ∧ line.head? ≠ some 'e') :
    Quiet true (l.flatMap (· ++ ['\n'])) true := by
  induction l with
  | nil => exact .nil true
  | cons line l ih =>
    obtain ⟨oneLine, other⟩ := each line List.mem_cons_self
    refine Quiet.append ?_ (ih fun line member => each line (List.mem_cons_of_mem _ member))
    cases line with
    | nil => exact @quiet_char '\n' true (by decide)
    | cons c rest =>
      have first : Quiet true [c] false := by
        have step := @quiet_char c true fun _ same => other (by rw [same, List.head?_cons])
        rwa [beq_eq_false_iff_ne.2 (oneLine c List.mem_cons_self)] at step
      have inside := quiet_line fun c member => oneLine c (List.mem_cons_of_mem _ member)
      exact (first.cons inside).append (@quiet_char '\n' false (by simp))

end

end Typewright.Source
