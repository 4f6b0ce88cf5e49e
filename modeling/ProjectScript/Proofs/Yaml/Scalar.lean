import ProjectScript.Proofs.Yaml.Next
import ProjectScript.Proofs.Yaml.Styled

/-!
# Scalars behind their keys

A text that was written as a scalar is the next token behind its key, whatever style it was given
(`read_scalar`), and behind it a key may start in the line that follows. The styles differ in where
the reader stops: behind the closing quote, or at the first character of the next line.
-/

namespace ProjectScript.Yaml.Scanner

variable {s : Scanner} {v : String} {t : Token} {i l k column parent : Nat} {rest : List Char}

/-- A scalar is read, and the next token stands at a column of a later line. -/
def GivesScalar (r : Option Scanner) (s : Scanner) (t : Token) (column : Nat)
    (rest : List Char) : Prop :=
  ∃ c allowed i l,
    r = some { s with cursor := c, keyAllowed := allowed, held := s.held ++ [t] } ∧
      skipSpace false (c.rest.length + 1) allowed c = (true, ⟨rest, i, l, column⟩)

/-- Behind the closing quote stands the line break. -/
theorem givesScalar_beforeBreak (hr : Starts rest) :
    GivesScalar (some { s with
      cursor := ⟨'\n' :: (indentation column ++ rest), i, l, k⟩
      keyAllowed := false
      held := s.held ++ [t] }) s t column rest := by
  refine ⟨_, _, _, _, rfl, skipSpace_line hr ?_⟩
  rw [List.length_cons, List.length_append, length_indentation]
  omega

/-- The other scalars end where the next token starts. -/
theorem givesScalar_behindBreak (hr : Starts rest) :
    GivesScalar (some { s with
      cursor := ⟨rest, i, l, column⟩
      keyAllowed := true
      held := s.held ++ [t] }) s t column rest :=
  ⟨_, _, _, _, rfl, skipSpace_starts hr⟩

theorem saveCandidate_none (h : s.keyAllowed = false) : s.saveCandidate = some s := by
  rw [saveCandidate, h]
  rfl

section Styles

variable (hs : s.candidates = [none]) (ha : s.keyAllowed = false) (hr : Starts rest)

include hs hr in
theorem givesScalar_literal (hcol : column ≤ parent) (hi : s.indent = parent) (hk : k ≠ 0)
    (hf : fitsLiteral v.toList = true) (hb : '\n' ∈ v.toList)
    (hc : s.cursor = ⟨literal (parent + literalIndent) v.toList ++ lastBreak v.toList ++
      (indentation column ++ rest), i, l, k⟩) :
    GivesScalar s.next s (.scalar v .literal) column rest := by
  have hnext : s.next = s.readBlock true := by
    rw [next, hc, literal]
    simp [Cursor.atMarks, hk, inFlow, hs]
  have hcol' : column < parent + literalIndent :=
    Nat.lt_of_le_of_lt hcol (Nat.lt_add_of_pos_right (by decide))
  obtain ⟨i', l', hblock⟩ :=
    block_literal hcol' hr.solid (isWritable_of_fitsLiteral hf) (List.ne_nil_of_mem hb) i l k
  rw [← hc, ← hi] at hblock
  rw [hnext, readBlock, dropCandidate_calm hs]
  simp only [bind, Option.bind, hblock]
  rw [String.ofList_toList]
  exact givesScalar_behindBreak hr

include ha hr in
theorem givesScalar_quoted {double : Bool} (hnext : s.next = s.readQuoted double)
    (h : Gives (quoted double s.cursor) v.toList ('\n' :: (indentation column ++ rest))) :
    GivesScalar s.next s (.scalar v (if double then .double else .single)) column rest := by
  obtain ⟨i', l', k', hquoted⟩ := h
  rw [hnext, readQuoted, saveCandidate_none ha]
  simp only [bind, Option.bind, hquoted]
  rw [String.ofList_toList]
  exact givesScalar_beforeBreak hr

include ha hr in
theorem givesScalar_single {n : Nat} (hn : n ≠ 0) (hk : k ≠ 0) (hf : fitsSingle v.toList = true)
    (hb : '\n' ∉ v.toList)
    (hc : s.cursor = ⟨single n v.toList ++ '\n' :: (indentation column ++ rest), i, l, k⟩) :
    GivesScalar s.next s (.scalar v .single) column rest := by
  have hnext : s.next = s.readQuoted false := by
    rw [next, hc, single]
    simp [Cursor.atMarks, hk]
  have hgives : Gives (quoted false s.cursor) v.toList ('\n' :: (indentation column ++ rest)) := by
    rw [hc]
    exact quoted_single hn (by simp) hf hb i l k
  exact givesScalar_quoted ha hr hnext hgives

include ha hr in
theorem givesScalar_double (hk : k ≠ 0)
    (hc : s.cursor = ⟨Yaml.double v.toList ++ '\n' :: (indentation column ++ rest), i, l, k⟩) :
    GivesScalar s.next s (.scalar v .double) column rest := by
  have hnext : s.next = s.readQuoted true := by
    rw [next, hc, Yaml.double]
    simp [Cursor.atMarks, hk]
  have hgives : Gives (quoted true s.cursor) v.toList ('\n' :: (indentation column ++ rest)) := by
    rw [hc]
    exact quoted_double (by simp) i l k
  exact givesScalar_quoted ha hr hnext hgives

theorem startsPlain_words {a : Char} {cs : List Char} (t : List Char)
    (h : fitsPlain (a :: cs) = true) :
    StartsPlain a (cs ++ '\n' :: t) := by
  have hwords := words_of_fitsPlain h (List.cons_ne_nil a cs)
  simp only [fitsPlain, hasIndicator, Bool.and_eq_true, Bool.not_eq_true', Bool.or_eq_false_iff,
    Bool.and_eq_false_iff] at h
  obtain ⟨-, ⟨⟨-, hmark⟩, hopen⟩, -⟩ := h
  have hsolid : Solid (a :: cs ++ t) := solid_words hwords
  refine ⟨hsolid a rfl, hmark, fun ha => ?_⟩
  rw [isSpaceOrEnd_append rfl]
  rcases ha with rfl | rfl | rfl
  · simpa using hopen
  · simpa using hopen
  · simpa using (hasMark_cons hwords.marks).1

include hs ha hr in
theorem givesScalar_plain (hcol : column ≤ parent) (hi : s.indent = parent) (hk : parent < k)
    (hf : fitsPlain v.toList = true) (hne : v.toList ≠ [])
    (hc : s.cursor = ⟨v.toList ++ '\n' :: (indentation column ++ rest), i, l, k⟩) :
    GivesScalar s.next s (.scalar v .plain) column rest := by
  have hmark : s.cursor.atDocumentMark = false := by
    rw [hc]
    exact atDocumentMark_of_column (Nat.ne_zero_of_lt hk)
  have hnext : s.next = s.readPlain := by
    obtain ⟨a, cs, hsplit⟩ := List.exists_cons_of_ne_nil hne
    rw [hsplit] at hf hc
    refine next_plain hs ?_ (startsPlain_words (indentation column ++ rest) hf) hmark
    rw [hc]
    rfl
  have hlen : v.toList.length < s.cursor.rest.length + 1 := by
    rw [hc, List.length_append]
    omega
  have hcol' : (column : Int) < s.indent + 1 := by omega
  have hk' : s.indent + 1 ≤ k := by omega
  obtain ⟨i', l', hplain⟩ := plain_text hr.solid hcol' hk' hf hne hlen
  rw [← hc] at hplain
  rw [hnext, readPlain, saveCandidate_none ha]
  simp only [bind, Option.bind, inFlow_single hs, hplain]
  rw [String.ofList_toList]
  exact givesScalar_behindBreak hr

/-- A scalar is read in the style that was chosen for it. -/
theorem givesScalar_next (hs : s.candidates = [none]) (ha : s.keyAllowed = false) (hr : Starts rest)
    (hcol : column ≤ parent) (hi : s.indent = parent) (hk : parent < k)
    (hc : s.cursor = ⟨scalar (parent + literalIndent) v ++ (indentation column ++ rest), i, l, k⟩) :
    GivesScalar s.next s (.scalar v (styleOf v)) column rest := by
  have hk0 : k ≠ 0 := Nat.ne_zero_of_lt hk
  have hstyled := styled v
  rw [scalar] at hc
  generalize styleOf v = style at hc hstyled ⊢
  cases hstyled with
  | literal hb hf => exact givesScalar_literal hs hr hcol hi hk0 hf hb hc
  | plain hv hf =>
    simp only [List.append_assoc, List.cons_append, List.nil_append] at hc
    exact givesScalar_plain hs ha hr hcol hi hk hf (ne_nil_of_standsForItself hv) hc
  | single hb hf =>
    simp only [List.append_assoc, List.cons_append, List.nil_append] at hc
    exact givesScalar_single ha hr (Nat.add_one_ne_zero _) hk0 hf hb hc
  | double =>
    simp only [List.append_assoc, List.cons_append, List.nil_append] at hc
    exact givesScalar_double ha hr hk0 hc

end Styles

theorem starts_scalar (n : Nat) (v : String) (rest : List Char) : Starts (scalar n v ++ rest) := by
  have hstyled := styled v
  rw [scalar]
  generalize styleOf v = style at hstyled ⊢
  cases hstyled with
  | literal hb hf => exact starts_cons rfl (by decide)
  | plain hv hf =>
    have hne := ne_nil_of_standsForItself hv
    have hwords := words_of_fitsPlain hf hne
    have hsolid : Solid (v.toList ++ ['\n'] ++ rest) := by
      rw [List.append_assoc]
      exact solid_words hwords
    have hw := isWritable_of_fitsPlain hf
    obtain ⟨a, cs, hsplit⟩ := List.exists_cons_of_ne_nil hne
    refine ⟨hsolid, ?_⟩
    rw [hsplit] at hw hwords ⊢
    rintro b hb
    cases hb
    refine ⟨fun ha => (hasMark_cons hwords.marks).2.1 ⟨ha, rfl⟩, ?_⟩
    rintro rfl
    exact absurd (hw _ (List.mem_cons_self ..)) (by decide)
  | single hb hf => exact starts_cons rfl (by decide)
  | double => exact starts_cons rfl (by decide)

/-- A scalar is the next token behind the blank that follows its key. -/
theorem read_scalar (hs : s.candidates = [none]) (ha : s.keyAllowed = false) (hr : Starts rest)
    (hcol : column ≤ parent) (hi : s.indent = parent) (hk : parent ≤ k)
    (hc : s.cursor =
      ⟨' ' :: (scalar (parent + literalIndent) v ++ (indentation column ++ rest)), i, l, k⟩) :
    GivesScalar s.read s (.scalar v (styleOf v)) column rest := by
  let c : Cursor :=
    ⟨scalar (parent + literalIndent) v ++ (indentation column ++ rest), i + 1, l, k + 1⟩
  let s' : Scanner := { s with cursor := c, keyAllowed := false }
  have hs' : s'.candidates = [none] := hs
  have hlead : s.Leads false c := by
    rw [Leads, ha, inFlow_single hs, hc]
    exact skipSpace_blanks (n := 1) (starts_scalar ..) (by simp)
  have hle : s.indent ≤ c.column := by
    rw [hi]
    exact Int.ofNat_le.2 (Nat.le_succ_of_le hk)
  rw [read_calm hs hlead hle]
  obtain ⟨c', allowed, i', l', hread, hskip⟩ :=
    givesScalar_next hs' rfl hr hcol hi (Nat.lt_succ_of_le hk) rfl
  exact ⟨c', allowed, i', l', hread, hskip⟩

end ProjectScript.Yaml.Scanner
