import ProjectScript.Yaml.ScalarText
import ProjectScript.Yaml.Write

/-!
# Passing over written text

What a reading position becomes when characters that were written are passed over: some characters
(`skipN_append`), a line break (`skipLine_break`), and a gap between two parts of a scalar, which
consists of blanks, or of breaks and the indentation behind them. Of the line breaks only those are
written that stand for themselves (`eq_of_isBreak`).
-/

namespace ProjectScript.Yaml

/-- A text does not start with a blank, a tab or a break. -/
def Solid (rest : List Char) : Prop := ∀ a ∈ rest.head?, isSpace a = false

/-- Passing over blanks, comments and breaks ends here. -/
structure Starts (rest : List Char) : Prop where
  solid : Solid rest
  noComment : ∀ a ∈ rest.head?, a ≠ '#' ∧ a ≠ '\ufeff'

@[simp] theorem length_indentation (n : Nat) : (indentation n).length = n := List.length_replicate

section Characters

variable {c : Char} {i l k : Nat} {rest : List Char}

/-- The line breaks that are written stand for themselves. -/
theorem eq_of_isBreak (hb : isBreak c = true) (hw : isWritable c = true) :
    c = '\n' ∨ c = '\u2028' ∨ c = '\u2029' := by
  simp only [isBreak, Bool.or_eq_true, decide_eq_true_eq] at hb
  rcases hb with (((rfl | rfl) | rfl) | rfl) | rfl
  · exact .inl rfl
  · exact absurd hw (by decide)
  · exact absurd hw (by decide)
  · exact .inr (.inl rfl)
  · exact .inr (.inr rfl)

/-- The blanks that are written are no tabs. -/
theorem eq_of_isBlank (hb : isBlank c = true) (hw : isWritable c = true) : c = ' ' := by
  simp only [isBlank, Bool.or_eq_true, decide_eq_true_eq] at hb
  rcases hb with rfl | rfl
  · rfl
  · exact absurd hw (by decide)

theorem not_isBlank_of_isBreak (hb : isBreak c = true) (hw : isWritable c = true) :
    isBlank c = false := by
  rcases eq_of_isBreak hb hw with rfl | rfl | rfl <;> rfl

theorem isSpace_eq_false_iff : isSpace c = false ↔ isBlank c = false ∧ isBreak c = false := by
  rw [isSpace, Bool.or_eq_false_iff]

theorem lineBreak_break (hb : isBreak c = true) (hw : isWritable c = true) :
    (⟨c :: rest, i, l, k⟩ : Cursor).lineBreak = [c] := by
  rcases eq_of_isBreak hb hw with rfl | rfl | rfl <;> rfl

theorem skipLine_break (hb : isBreak c = true) (hw : isWritable c = true) :
    (⟨c :: rest, i, l, k⟩ : Cursor).skipLine = ⟨rest, i + 1, l + 1, 0⟩ := by
  rcases eq_of_isBreak hb hw with rfl | rfl | rfl <;> rfl

theorem skipN_append (cs rest : List Char) (i l k : Nat) :
    (⟨cs ++ rest, i, l, k⟩ : Cursor).skipN cs.length =
      ⟨rest, i + cs.length, l, k + cs.length⟩ := by
  induction cs generalizing i k with
  | nil => rfl
  | cons a cs ih =>
    rw [List.length_cons, Cursor.skipN, List.cons_append, Cursor.skip, List.tail_cons, ih,
      Nat.add_assoc, Nat.add_comm 1, Nat.add_assoc, Nat.add_comm 1]

/-- In the middle of a line no document ends. -/
theorem atDocumentMark_of_column (hk : k ≠ 0) :
    (⟨rest, i, l, k⟩ : Cursor).atDocumentMark = false := by
  simp [Cursor.atDocumentMark, Cursor.atMarks, hk]

end Characters

/-! ## Gaps -/

namespace Gap

variable {indent : Int} {fuel i l k : Nat} {rest : List Char} {g : Gap}

theorem read_solid (h : Solid rest) :
    read indent (fuel + 1) g ⟨rest, i, l, k⟩ = some (g, ⟨rest, i, l, k⟩) := by
  rw [read]
  cases rest with
  | nil => rfl
  | cons a rest =>
    obtain ⟨hblank, hbreak⟩ := isSpace_eq_false_iff.1 (h a rfl)
    simp [hblank, hbreak]

/-- A blank before any break belongs to the gap. -/
theorem read_blank (hg : g.broken = false) :
    read indent (fuel + 1) g ⟨' ' :: rest, i, l, k⟩ =
      read indent fuel { g with blanks := g.blanks ++ [' '] } ⟨rest, i + 1, l, k + 1⟩ := by
  rw [read]
  simp [isBlank, hg, Cursor.skip]

/-- A blank behind a break is indentation. -/
theorem read_indentation (hg : g.broken = true) :
    read indent (fuel + 1) g ⟨' ' :: rest, i, l, k⟩ =
      read indent fuel g ⟨rest, i + 1, l, k + 1⟩ := by
  rw [read]
  simp [isBlank, hg, Cursor.skip]

/-- The first break drops the blanks before it. -/
theorem read_break {c : Char} (hb : isBreak c = true) (hw : isWritable c = true)
    (hg : g.broken = false) :
    read indent (fuel + 1) g ⟨c :: rest, i, l, k⟩ =
      read indent fuel ⟨[], true, [c], []⟩ ⟨rest, i + 1, l + 1, 0⟩ := by
  rw [read]
  simp [not_isBlank_of_isBreak hb hw, hb, hg, lineBreak_break hb hw, skipLine_break hb hw]

theorem read_breaks {c : Char} (hb : isBreak c = true) (hw : isWritable c = true)
    (hg : g.broken = true) :
    read indent (fuel + 1) g ⟨c :: rest, i, l, k⟩ =
      read indent fuel { g with others := g.others ++ [c] } ⟨rest, i + 1, l + 1, 0⟩ := by
  rw [read]
  simp [not_isBlank_of_isBreak hb hw, hb, hg, lineBreak_break hb hw, skipLine_break hb hw]

/-- A gap of blanks, up to what follows it. -/
theorem read_blanks {n : Nat} (hg : g.broken = false) (h : Solid rest) (hf : n < fuel) :
    read indent fuel g ⟨List.replicate n ' ' ++ rest, i, l, k⟩ =
      some ({ g with blanks := g.blanks ++ List.replicate n ' ' }, ⟨rest, i + n, l, k + n⟩) := by
  induction n generalizing g i k fuel with
  | zero =>
    obtain ⟨fuel, rfl⟩ := Nat.exists_eq_succ_of_ne_zero (Nat.ne_of_gt hf)
    simpa using read_solid h
  | succ n ih =>
    obtain ⟨fuel, rfl⟩ := Nat.exists_eq_succ_of_ne_zero (Nat.ne_zero_of_lt hf)
    have hg' : ({ g with blanks := g.blanks ++ [' '] } : Gap).broken = false := hg
    rw [List.replicate_succ, List.cons_append, read_blank hg, ih hg' (Nat.lt_of_succ_lt_succ hf)]
    simp only [List.append_assoc, List.cons_append, List.nil_append, Nat.add_assoc,
      Nat.add_comm 1]

/-- The indentation behind a break, up to what follows it. -/
theorem read_indented {n : Nat} (hg : g.broken = true) (h : Solid rest) (hf : n < fuel) :
    read indent fuel g ⟨List.replicate n ' ' ++ rest, i, l, k⟩ =
      some (g, ⟨rest, i + n, l, k + n⟩) := by
  induction n generalizing i k fuel with
  | zero =>
    obtain ⟨fuel, rfl⟩ := Nat.exists_eq_succ_of_ne_zero (Nat.ne_of_gt hf)
    exact read_solid h
  | succ n ih =>
    obtain ⟨fuel, rfl⟩ := Nat.exists_eq_succ_of_ne_zero (Nat.ne_zero_of_lt hf)
    rw [List.replicate_succ, List.cons_append, read_indentation hg,
      ih (Nat.lt_of_succ_lt_succ hf)]
    simp only [Nat.add_assoc, Nat.add_comm 1]

end Gap

end ProjectScript.Yaml
