import Typewright.Proofs.Text.Hexadecimal

/-!
# Escaped characters

A character of a quoted text has a short escape, or stands for itself, or is given by one UTF-16
unit or by two (`Text.escapeChar_cases`).
-/

namespace Typewright.Text

/-- The characters that have a short escape, with its letter. -/
def shortEscapes : List (Char × Char) :=
  [('"', '"'), ('\\', '\\'), ('\n', 'n'), ('\r', 'r'), ('\t', 't'), ('\x08', 'b'), ('\x0c', 'f')]

variable {c e : Char}

theorem escapeChar_of_short (short : (c, e) ∈ shortEscapes) : escapeChar c = ['\\', e] := by
  simp only [shortEscapes, List.mem_cons, Prod.mk.injEq, List.not_mem_nil, or_false] at short
  rcases short with ⟨rfl, rfl⟩ | ⟨rfl, rfl⟩ | ⟨rfl, rfl⟩ | ⟨rfl, rfl⟩ | ⟨rfl, rfl⟩ | ⟨rfl, rfl⟩ |
    ⟨rfl, rfl⟩ <;> rfl

theorem escapeChar_of_long (long : ∀ e, (c, e) ∉ shortEscapes) : escapeChar c =
    if 32 ≤ c.toNat ∧ c.toNat < 127 then [c]
    else if c.toNat < 0x10000 then escapeUnit c.toNat
    else escapeUnit (0xD800 + (c.toNat - 0x10000) / 0x400) ++
      escapeUnit (0xDC00 + (c.toNat - 0x10000) % 0x400) := by
  have other (d e : Char) (short : (d, e) ∈ shortEscapes) : c ≠ d := fun same =>
    long e (same ▸ short)
  have code (n : Nat) (e : Char) (short : (Char.ofNat n, e) ∈ shortEscapes) : c.toNat ≠ n :=
    fun same => other _ e short (by rw [← same, Char.ofNat_toNat])
  rw [escapeChar, if_neg (other '"' '"' (by decide)), if_neg (other '\\' '\\' (by decide)),
    if_neg (other '\n' 'n' (by decide)), if_neg (other '\r' 'r' (by decide)),
    if_neg (other '\t' 't' (by decide)), if_neg (code 8 'b' (by decide)),
    if_neg (code 12 'f' (by decide))]

theorem escapeChar_cases (c : Char) :
    (∃ e, (c, e) ∈ shortEscapes ∧ escapeChar c = ['\\', e]) ∨
    (c ≠ '"' ∧ c ≠ '\\' ∧ 32 ≤ c.toNat ∧ escapeChar c = [c]) ∨
    (¬(32 ≤ c.toNat ∧ c.toNat < 127) ∧ c.toNat < 0x10000 ∧ escapeChar c = escapeUnit c.toNat) ∨
    ∃ offset, c.toNat = 0x10000 + offset ∧ offset < 0x100000 ∧ escapeChar c =
      escapeUnit (0xD800 + offset / 0x400) ++ escapeUnit (0xDC00 + offset % 0x400) := by
  by_cases short : ∃ e, (c, e) ∈ shortEscapes
  · obtain ⟨e, member⟩ := short
    exact Or.inl ⟨e, member, escapeChar_of_short member⟩
  have long := not_exists.1 short
  rw [escapeChar_of_long long]
  by_cases visible : 32 ≤ c.toNat ∧ c.toNat < 127
  · refine Or.inr (Or.inl ⟨?_, ?_, visible.1, if_pos visible⟩) <;> rintro rfl
    · exact long '"' (by decide)
    · exact long '\\' (by decide)
  rw [if_neg visible]
  by_cases small : c.toNat < 0x10000
  · exact Or.inr (Or.inr (Or.inl ⟨visible, small, if_pos small⟩))
  · have bound : c.toNat < 0x110000 := by
      rcases c.valid with low | high
      · exact Nat.lt_trans low (by decide)
      · exact high.2
    exact Or.inr (Or.inr (Or.inr ⟨c.toNat - 0x10000, by omega, by omega, if_neg small⟩))

end Typewright.Text
