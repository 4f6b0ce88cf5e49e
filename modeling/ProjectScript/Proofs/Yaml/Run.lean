import ProjectScript.Proofs.Yaml.Scalar

/-!
# Runs over a written mapping

Readings are put together to runs (`Yields`): a key with its colon (`yields_key`), the scalar
behind it (`yields_scalar`), the dash before an entry (`yields_dash`), and the end of the text
(`run_end`). Between them the scanner is in one of two states. It `Rests` before a token that may be
a key, or it `Expects` the value of the key that it has just given away.
-/

namespace ProjectScript.Yaml.Scanner

/-- The tokens `ts` come first, within `n` steps, and then those of another state. -/
def Yields (s : Scanner) (n : Nat) (ts : List Token) (s' : Scanner) : Prop :=
  ∃ m ≤ n, ∀ fuel, run (m + fuel) s = (ts ++ (run fuel s').1, (run fuel s').2)

variable {s s' s'' : Scanner} {m n : Nat} {ts ts' : List Token} {t : Token}

theorem Yields.trans (h : s.Yields n ts s') (h' : s'.Yields m ts' s'') :
    s.Yields (n + m) (ts ++ ts') s'' := by
  obtain ⟨a, ha, hrun⟩ := h
  obtain ⟨b, hb, hrun'⟩ := h'
  refine ⟨a + b, Nat.add_le_add ha hb, fun fuel => ?_⟩
  rw [Nat.add_assoc, hrun, hrun', List.append_assoc]

theorem Yields.mono (h : s.Yields n ts s') (hle : n ≤ m) : s.Yields m ts s' := by
  obtain ⟨a, ha, hrun⟩ := h
  exact ⟨a, Nat.le_trans ha hle, hrun⟩

theorem Yields.refl (s : Scanner) : s.Yields 0 [] s :=
  ⟨0, Nat.le_refl 0, fun fuel => by rw [Nat.zero_add, List.nil_append]⟩

/-- Where no token is held back, one is read. -/
theorem yields_read (hheld : s.held = []) (h : s.read = some s') : s.Yields 1 [] s' := by
  refine ⟨1, Nat.le_refl 1, fun fuel => ?_⟩
  rw [Nat.add_comm, run, hheld]
  simp only [h, List.nil_append]

/-- Where the token held back may be a key, the next one is read. -/
theorem yields_read_open {k : Candidate} (hs : s.candidates = [some k])
    (hfresh : isStale s.cursor k = false) (htoken : k.token = s.given) (hheld : s.held = [t])
    (h : s.read = some s') : s.Yields 1 [] s' := by
  have hopen : s.headIsOpen = true := by
    simp [headIsOpen, hs, htoken]
  refine ⟨1, Nat.le_refl 1, fun fuel => ?_⟩
  rw [Nat.add_comm, run, hheld]
  simp only [dropStale_fresh hs hfresh, hopen, h, if_true, List.nil_append]

/-- Tokens held back are given away, one in each step. -/
theorem yields_held {front back : List Token} (hs : s.candidates = [none])
    (hheld : s.held = front ++ back) (h : Token.streamEnd ∉ front) :
    s.Yields front.length front { s with held := back, given := s.given + front.length } := by
  obtain ⟨cursor, indent, outer, candidates, keyAllowed, held, given⟩ := s
  obtain rfl : candidates = [none] := hs
  obtain rfl : held = front ++ back := hheld
  induction front generalizing given with
  | nil => exact .refl _
  | cons t front ih =>
    have ht : t ≠ .streamEnd := fun ht => h (ht ▸ List.mem_cons_self ..)
    have hgive :
        Yields ⟨cursor, indent, outer, [none], keyAllowed, t :: (front ++ back), given⟩ 1 [t]
          ⟨cursor, indent, outer, [none], keyAllowed, front ++ back, given + 1⟩ := by
      refine ⟨1, Nat.le_refl 1, fun fuel => ?_⟩
      rw [Nat.add_comm, run]
      simp only [dropStale_calm]
      simp [headIsOpen, ht]
    have hrest := ih (fun hmem => h (List.mem_cons_of_mem t hmem)) (given + 1)
    have hboth := hgive.trans hrest
    simp only [List.length_cons, Nat.add_comm, Nat.add_left_comm] at hboth ⊢
    exact hboth

/-- Tokens are read and given away. -/
theorem yields_of_read {front back : List Token} (hheld : s.held = []) (h : s.read = some s')
    (hs' : s'.candidates = [none]) (hheld' : s'.held = front ++ back)
    (hend : Token.streamEnd ∉ front) :
    s.Yields (1 + front.length) front
      { s' with held := back, given := s'.given + front.length } :=
  (yields_read hheld h).trans (yields_held hs' hheld' hend)

theorem run_streamEnd (hs : s.candidates = [none]) (hheld : s.held = [.streamEnd]) (fuel : Nat) :
    run (fuel + 1) s = ([.streamEnd], true) := by
  have hopen : s.headIsOpen = false := by
    simp [headIsOpen, hs]
  rw [run, hheld]
  simp [dropStale_calm hs, hopen]

/-! ## Before a token and before a value -/

/-- The next token stands at a column, and may be a key. `indent` and `outer` are the columns of the
block collections around it. -/
structure Rests (s : Scanner) (indent : Int) (outer : List Int) (rest : List Char)
    (column : Nat) : Prop where
  candidates : s.candidates = [none]
  held : s.held = []
  indent_eq : s.indent = indent
  outer_eq : s.outer = outer
  leads : ∃ i l, s.Leads true ⟨rest, i, l, column⟩

/-- What follows in this line is the value of a key. -/
structure Expects (s : Scanner) (indent : Int) (outer : List Int) (rest : List Char) : Prop where
  candidates : s.candidates = [none]
  held : s.held = []
  indent_eq : s.indent = indent
  outer_eq : s.outer = outer
  keyAllowed : s.keyAllowed = false
  place : ∃ i l k : Nat, s.cursor = ⟨rest, i, l, k⟩ ∧ indent ≤ k

section Key

variable {indent : Int} {outer : List Int} {name rest : List Char} {column : Nat}

/-- A key that is deeper than the mapping around it starts a mapping. -/
theorem yields_key (h : s.Rests indent outer (name ++ ':' :: rest) column) (hname : Letters name)
    (hlen : name.length ≤ 1024) (hr : Cursor.isSpaceOrEnd rest = true) (hle : indent ≤ column) :
    ∃ s', s.Yields 6 ((if (column : Int) ≤ indent then [] else [.blockMappingStart]) ++
        [.key, .scalar (String.ofList name) .plain, .value]) s' ∧
      s'.Expects column (if (column : Int) ≤ indent then outer else indent :: outer) rest := by
  obtain ⟨i, l, hlead⟩ := h.leads
  obtain rfl := h.indent_eq
  obtain rfl := h.outer_eq
  have hpos : 0 < name.length := List.length_pos_iff.2 hname.1
  let k : Candidate := ⟨s.indent == (column : Int), s.given + s.held.length, i, l, column⟩
  let s₁ : Scanner := { s with
    cursor := ⟨':' :: rest, i + name.length, l, column + name.length⟩
    candidates := [some k]
    keyAllowed := false
    held := s.held ++ [.scalar (String.ofList name) .plain] }
  let s₂ : Scanner := { s with
    cursor := ⟨rest, i + name.length + 1, l, column + name.length + 1⟩
    indent := if (column : Int) ≤ s.indent then s.indent else column
    outer := if (column : Int) ≤ s.indent then s.outer else s.indent :: s.outer
    candidates := [none]
    keyAllowed := false
    held := (if (column : Int) ≤ s.indent then [] else [.blockMappingStart]) ++
      [.key, .scalar (String.ofList name) .plain, .value] }
  have hkey : s.read = some s₁ := read_key h.candidates hlead hle hname hr
  have hheld : s₁.held = [.scalar (String.ofList name) .plain] := by
    simp [s₁, h.held]
  have htoken : k.token = s₁.given := by
    simp [s₁, k, h.held]
  have hfresh : isStale s₁.cursor k = false := by
    simp [isStale, s₁, k]
    omega
  have hindent : s.indent ≤ (column + name.length : Nat) := by
    omega
  have hcolon : s₁.read = some s₂ := read_colon rfl hheld rfl hr (by omega) hindent hfresh htoken
  have hboth := (yields_read h.held hkey).trans (yields_read_open rfl hfresh htoken hheld hcolon)
  have hend : Token.streamEnd ∉ s₂.held := by
    simp only [s₂]
    split <;> simp
  have hlength : s₂.held.length ≤ 4 := by
    simp only [s₂]
    split <;> simp
  have hall := hboth.trans (yields_held rfl (List.append_nil _).symm hend)
  refine ⟨_, hall.mono (by omega), rfl, rfl, ?_, rfl, rfl, _, _, _, rfl, ?_⟩
  · change (if (column : Int) ≤ s.indent then s.indent else column) = column
    split <;> omega
  · omega

/-- The value of a key is a scalar, behind which the next line starts. -/
theorem yields_scalar (parent : Nat) {v : String}
    (h : s.Expects parent outer
      (' ' :: (scalar (parent + literalIndent) v ++ (indentation column ++ rest))))
    (hr : Starts rest) (hcol : column ≤ parent) :
    ∃ s', s.Yields 2 [.scalar v (styleOf v)] s' ∧ s'.Rests parent outer rest column := by
  obtain ⟨i, l, k, hc, hk⟩ := h.place
  obtain ⟨c, allowed, i', l', hread, hskip⟩ :=
    read_scalar h.candidates h.keyAllowed hr hcol h.indent_eq (Int.ofNat_le.1 hk) hc
  rw [h.held, List.nil_append] at hread
  have hgiven := yields_of_read h.held hread h.candidates (List.append_nil _).symm (by simp)
  exact ⟨_, hgiven, h.candidates, rfl, h.indent_eq, h.outer_eq, i', l',
    leads_of_skipSpace h.candidates hskip⟩

end Key

/-! ## At the left margin -/

/-- The scanner is at the left margin, in a mapping there or in a deeper collection in it, which
`closing` would end. -/
structure AtMargin (s : Scanner) (closing : List Token) (rest : List Char) : Prop where
  within : s.Within closing
  candidates : s.candidates = [none]
  held : s.held = []
  leads : ∃ i l, s.Leads true ⟨rest, i, l, 0⟩

section Margin

variable {closing : List Token} {rest : List Char}

theorem Within.closing_length (h : s.Within closing) : closing.length ≤ 1 := by
  cases h <;> simp

theorem Within.streamEnd_notMem (h : s.Within closing) : Token.streamEnd ∉ closing := by
  cases h <;> simp

theorem Rests.atMargin_deeper {k : Nat} (h : s.Rests k [0, -1] rest 0) (hk : k ≠ 0) :
    s.AtMargin [.blockEnd] rest :=
  ⟨.deeper hk h.indent_eq h.outer_eq, h.candidates, h.held, h.leads⟩

/-- A value may start in the line behind its key. -/
theorem Expects.atMargin (h : s.Expects 0 [-1] ('\n' :: rest)) (hr : Starts rest) :
    s.AtMargin [] rest := by
  obtain ⟨i, l, k, hc, -⟩ := h.place
  refine ⟨.margin h.indent_eq h.outer_eq, h.candidates, h.held, i + 1 + 0, l + 1, ?_⟩
  refine leads_of_skipSpace h.candidates ?_
  rw [hc]
  exact skipSpace_line (n := 0) hr (by simp)

/-- Behind the dash before an entry a key may start. -/
theorem yields_dash (h : s.AtMargin closing ('-' :: ' ' :: rest)) (hr : Starts rest) :
    ∃ s', s.Yields 3 (closing ++ [.blockEntry]) s' ∧ s'.Rests 0 [-1] rest 2 := by
  obtain ⟨i, l, hlead⟩ := h.leads
  have hread := read_dash h.within h.candidates h.held hlead
  have hend : Token.streamEnd ∉ closing ++ [.blockEntry] := by
    simp [h.within.streamEnd_notMem]
  have hlength := h.within.closing_length
  have hskip : skipSpace false ((' ' :: rest).length + 1) true ⟨' ' :: rest, i + 1, l, 1⟩ =
      (true, ⟨rest, i + 1 + 1, l, 1 + 1⟩) := skipSpace_blanks (n := 1) hr (by simp)
  have hgiven := yields_of_read h.held hread h.candidates (List.append_nil _).symm hend
  refine ⟨_, hgiven.mono ?_, h.candidates, rfl, rfl, rfl, i + 1 + 1, l,
    leads_of_skipSpace h.candidates hskip⟩
  simp
  omega

/-- The end of the text. -/
theorem run_end (h : s.AtMargin closing []) {fuel : Nat} (hf : 4 ≤ fuel) :
    run fuel s = (closing ++ [.blockEnd, .streamEnd], true) := by
  obtain ⟨i, l, hlead⟩ := h.leads
  let s' : Scanner := { s with
    cursor := ⟨[], i, l, 0⟩
    keyAllowed := false
    indent := -1
    outer := []
    held := closing ++ [.blockEnd, .streamEnd] }
  have hread : s.read = some s' := read_end h.within h.candidates h.held hlead
  have hs' : s'.candidates = [none] := h.candidates
  have hheld : s'.held = (closing ++ [.blockEnd]) ++ [.streamEnd] := by
    rw [List.append_assoc]
    rfl
  have hend : Token.streamEnd ∉ closing ++ [.blockEnd] := by
    simp [h.within.streamEnd_notMem]
  have hlength := h.within.closing_length
  obtain ⟨m, hm, hrun⟩ := yields_of_read h.held hread hs' hheld hend
  obtain ⟨last, rfl⟩ : ∃ last, fuel = m + (last + 1) := by
    rw [List.length_append, List.length_singleton] at hm
    exact ⟨fuel - m - 1, by omega⟩
  have hlast : run (last + 1) { s' with
      held := [.streamEnd]
      given := s'.given + (closing ++ [Token.blockEnd]).length } = ([.streamEnd], true) := by
    refine run_streamEnd ?_ rfl last
    exact hs'
  rw [hrun, hlast, List.append_assoc]
  rfl

end Margin

end ProjectScript.Yaml.Scanner
