import ProjectScript.Proofs.Yaml.Literal
import ProjectScript.Proofs.Yaml.Plain
import ProjectScript.Proofs.Yaml.Quoted
import ProjectScript.Yaml.Scan

/-!
# The next token

What a scanner reads next in a block mapping that was written: a key (`read_key`) and the colon
behind it (`read_colon`), a scalar in any style (`read_scalar`), the dash before an entry
(`read_dash`) and the end (`read_end`). Before it reads, a scanner passes over blanks and line
breaks (`Leads`), closes the collections that the indentation ends, and looks at one character
(`next`).
-/

namespace ProjectScript.Yaml.Scanner

/-- The next token where it starts, by its first character. -/
def next (s : Scanner) : Option Scanner :=
  match s.cursor.rest with
  | [] => s.readEnd
  | a :: rest =>
    let flow := s.inFlow
    let spaced := Cursor.isSpaceOrEnd rest
    if s.cursor.column = 0 ∧ a = '%' then s.readDirective
    else if s.cursor.atMarks '-' then s.readDocumentMark .documentStart
    else if s.cursor.atMarks '.' then s.readDocumentMark .documentEnd
    else if a = '[' then s.readOpen .flowSequenceStart
    else if a = '\x7b' then s.readOpen .flowMappingStart
    else if a = ']' then s.readClose .flowSequenceEnd
    else if a = '\x7d' then s.readClose .flowMappingEnd
    else if a = ',' then s.readComma
    else if a = '-' ∧ spaced then s.readDash
    else if a = '?' ∧ (flow ∨ spaced) then s.readKey
    else if a = ':' ∧ (flow ∨ spaced) then s.readColon
    else if a = '*' then s.readAnchor .reference
    else if a = '&' then s.readAnchor .anchor
    else if a = '!' then s.readTag
    else if a = '|' ∧ !flow then s.readBlock true
    else if a = '>' ∧ !flow then s.readBlock false
    else if a = '\'' then s.readQuoted false
    else if a = '"' then s.readQuoted true
    else if startsPlain flow a rest then s.readPlain
    else none

variable {s s' : Scanner} {i l k column : Nat} {rest : List Char}

theorem closeBlocks_go_cursor (s : Scanner) (column indent : Int) (outer : List Int)
    (held : List Token) : (closeBlocks.go s column indent outer held).cursor = s.cursor := by
  induction outer generalizing indent held with
  | nil =>
    rw [closeBlocks.go]
    split <;> rfl
  | cons i outer ih =>
    rw [closeBlocks.go]
    split
    · rfl
    · exact ih _ _

theorem closeBlocks_cursor (s : Scanner) (column : Int) :
    (s.closeBlocks column).cursor = s.cursor := by
  rw [closeBlocks]
  split
  · rfl
  · exact closeBlocks_go_cursor ..

/-- Passing over what stands before a token leads to a place where a key may start, or not. -/
def Leads (s : Scanner) (allowed : Bool) (c : Cursor) : Prop :=
  skipSpace s.inFlow (s.cursor.rest.length + 1) s.keyAllowed s.cursor = (allowed, c)

theorem read_eq {allowed : Bool} {c : Cursor} (h : s.Leads allowed c)
    (hd : ({ s with cursor := c, keyAllowed := allowed } : Scanner).dropStale = some s') :
    s.read = (s'.closeBlocks c.column).next := by
  have hc : s'.cursor = c := by
    rw [dropStale] at hd
    split at hd
    · cases hd
    · rw [← Option.some.inj hd]
  rw [read, h, next, closeBlocks_cursor, hc]
  cases hrest : c.rest with
  | nil => simp only [bind, Option.bind, hd, hrest]
  | cons a rest => simp only [bind, Option.bind, hd, hrest, Bool.decide_eq_true]

/-! ## Passing over -/

section Passing

variable {fuel n : Nat} {flow allowed : Bool}

theorem skipSpace_starts (h : Starts rest) :
    skipSpace flow (fuel + 1) allowed ⟨rest, i, l, k⟩ = (allowed, ⟨rest, i, l, k⟩) := by
  rw [skipSpace]
  cases rest with
  | nil => rfl
  | cons a rest =>
    obtain ⟨hblank, hb⟩ := isSpace_eq_false_iff.1 (h.solid a rfl)
    obtain ⟨hcomment, hmark⟩ := h.noComment a rfl
    simp only [isBlank, Bool.or_eq_false_iff, decide_eq_false_iff_not] at hblank
    simp [hblank, hb, hcomment, hmark]

theorem skipSpace_blanks (h : Starts rest) (hf : n < fuel) :
    skipSpace flow fuel allowed ⟨indentation n ++ rest, i, l, k⟩ =
      (allowed, ⟨rest, i + n, l, k + n⟩) := by
  induction n generalizing fuel i k with
  | zero =>
    obtain ⟨fuel, rfl⟩ := Nat.exists_eq_succ_of_ne_zero (Nat.ne_of_gt hf)
    exact skipSpace_starts h
  | succ n ih =>
    obtain ⟨fuel, rfl⟩ := Nat.exists_eq_succ_of_ne_zero (Nat.ne_zero_of_lt hf)
    rw [indentation, List.replicate_succ, List.cons_append, skipSpace]
    simp only [true_or, if_true, Cursor.skip, List.tail_cons]
    rw [← indentation, ih (Nat.lt_of_succ_lt_succ hf), Nat.add_right_comm k, Nat.add_right_comm i,
      Nat.add_assoc, Nat.add_assoc]

/-- Behind a line break a key may start. -/
theorem skipSpace_line (h : Starts rest) (hf : n + 1 < fuel) :
    skipSpace false fuel allowed ⟨'\n' :: (indentation n ++ rest), i, l, k⟩ =
      (true, ⟨rest, i + 1 + n, l + 1, n⟩) := by
  obtain ⟨fuel, rfl⟩ := Nat.exists_eq_succ_of_ne_zero (Nat.ne_zero_of_lt hf)
  have hline : (⟨'\n' :: (indentation n ++ rest), i, l, k⟩ : Cursor).skipLine =
      ⟨indentation n ++ rest, i + 1, l + 1, 0⟩ := rfl
  rw [skipSpace]
  simp only [show isBreak '\n' = true from rfl, hline]
  simp [skipSpace_blanks h (Nat.lt_of_succ_lt_succ hf)]

end Passing

/-! ## Outside of flow collections -/

section Calm

variable {allowed : Bool} {c : Cursor}

theorem dropStale_calm (hs : s.candidates = [none]) : s.dropStale = some s := by
  obtain ⟨cursor, indent, outer, candidates, keyAllowed, held, given⟩ := s
  obtain rfl : candidates = [none] := hs
  rfl

theorem dropCandidate_calm (hs : s.candidates = [none]) : s.dropCandidate = some s := by
  rw [dropCandidate, hs]

theorem inFlow_single {candidate : Option Candidate} (hs : s.candidates = [candidate]) :
    s.inFlow = false := by
  rw [inFlow, hs]
  rfl

theorem leads_of_skipSpace {candidate : Option Candidate} (hs : s.candidates = [candidate])
    (h : skipSpace false (s.cursor.rest.length + 1) s.keyAllowed s.cursor = (allowed, c)) :
    s.Leads allowed c := by
  rw [Leads, inFlow_single hs, h]

section Closing

variable {column indent : Int} {outer : List Int} {held : List Token} {candidate : Option Candidate}

theorem closeBlocks_go_of_le (h : indent ≤ column) :
    closeBlocks.go s column indent outer held =
      { s with indent := indent, outer := outer, held := held } := by
  rw [closeBlocks.go.eq_def]
  simp only [if_pos h]

theorem closeBlocks_go_deeper {i : Int} (h : column < indent) :
    closeBlocks.go s column indent (i :: outer) held =
      closeBlocks.go s column i outer (held ++ [.blockEnd]) := by
  rw [closeBlocks.go.eq_def]
  simp only [if_neg (Int.not_le.2 h)]

theorem closeBlocks_single (hs : s.candidates = [candidate]) :
    s.closeBlocks column = closeBlocks.go s column s.indent s.outer s.held := by
  rw [closeBlocks, inFlow_single hs, if_neg Bool.false_ne_true]

theorem closeBlocks_of_le (hs : s.candidates = [candidate]) (h : s.indent ≤ column) :
    s.closeBlocks column = s := by
  rw [closeBlocks_single hs, closeBlocks_go_of_le h]

end Closing

/-- Where no collection ends, the next token is the one that the scanner is led to. -/
theorem read_calm (hs : s.candidates = [none]) (h : s.Leads allowed c) (hc : s.indent ≤ c.column) :
    s.read = ({ s with cursor := c, keyAllowed := allowed } : Scanner).next := by
  have hs' : ({ s with cursor := c, keyAllowed := allowed } : Scanner).candidates = [none] := hs
  rw [read_eq h (dropStale_calm hs'), closeBlocks_of_le hs' hc]

end Calm

/-! ## Plain scalars -/

/-- A plain scalar starts with a character that has no meaning of its own there. -/
structure StartsPlain (a : Char) (rest : List Char) : Prop where
  solid : isSpace a = false
  noMark : isOpeningMark a = false
  noIndicator : a = '-' ∨ a = '?' ∨ a = ':' → Cursor.isSpaceOrEnd rest = false

theorem isOpeningMark_eq_false_iff {a : Char} : isOpeningMark a = false ↔
    a ≠ '#' ∧ a ≠ ',' ∧ a ≠ '[' ∧ a ≠ ']' ∧ a ≠ '\x7b' ∧ a ≠ '\x7d' ∧ a ≠ '&' ∧ a ≠ '*' ∧ a ≠ '!' ∧
      a ≠ '|' ∧ a ≠ '>' ∧ a ≠ '\'' ∧ a ≠ '"' ∧ a ≠ '%' ∧ a ≠ '@' ∧ a ≠ '\x60' := by
  rw [isOpeningMark, ← Bool.not_eq_true, List.contains_iff_mem]
  simp

theorem isIndicator_of_noMark {a : Char} (h : isOpeningMark a = false) (hdash : a ≠ '-')
    (hkey : a ≠ '?') (hcolon : a ≠ ':') : isIndicator a = false := by
  rw [isOpeningMark_eq_false_iff] at h
  rw [isIndicator, ← Bool.not_eq_true, List.contains_iff_mem]
  simp [h, hdash, hkey, hcolon]

theorem startsPlain_of {a : Char} (h : StartsPlain a rest) : startsPlain false a rest = true := by
  rw [startsPlain]
  by_cases ha : a = '-' ∨ a = '?' ∨ a = ':'
  · have hrest := h.noIndicator ha
    have hblank : rest.head?.any isBlank = false := by
      cases rest with
      | nil => rfl
      | cons b rest => exact (isSpace_eq_false_iff.1 hrest).1
    rcases ha with rfl | rfl | rfl <;> simp [hrest, hblank]
  · simp only [not_or] at ha
    simp [h.solid, isIndicator_of_noMark h.noMark ha.1 ha.2.1 ha.2.2]

theorem StartsPlain.not_indicator {a b : Char} (h : StartsPlain a rest)
    (hb : b = '-' ∨ b = '?' ∨ b = ':') : ¬(a = b ∧ Cursor.isSpaceOrEnd rest = true) := by
  rintro ⟨rfl, hr⟩
  exact Bool.eq_false_iff.1 (h.noIndicator hb) hr

theorem next_plain {a : Char} {candidate : Option Candidate} (hs : s.candidates = [candidate])
    (hrest : s.cursor.rest = a :: rest) (h : StartsPlain a rest)
    (hmark : s.cursor.atDocumentMark = false) : s.next = s.readPlain := by
  obtain ⟨h₁, h₂, h₃, h₄, h₅, h₆, h₇, h₈, h₉, h₁₀, h₁₁, h₁₂, h₁₃, h₁₄, -⟩ :=
    isOpeningMark_eq_false_iff.1 h.noMark
  rw [Cursor.atDocumentMark, Bool.or_eq_false_iff] at hmark
  have hdash : ¬(a = '-' ∧ Cursor.isSpaceOrEnd rest = true) := h.not_indicator (.inl rfl)
  have hkey : ¬(a = '?' ∧ Cursor.isSpaceOrEnd rest = true) := h.not_indicator (.inr (.inl rfl))
  have hcolon : ¬(a = ':' ∧ Cursor.isSpaceOrEnd rest = true) := h.not_indicator (.inr (.inr rfl))
  rw [next, hrest]
  simp only [inFlow_single hs, hmark.1, hmark.2, startsPlain_of h]
  simp [*]

/-! ## Keys -/

section Key

variable {name : List Char}

theorem startsPlain_key {t : List Char} {a : Char} (ha : a.isAlpha = true) : StartsPlain a t := by
  refine ⟨isSpace_of_isAlpha ha, isOpeningMark_eq_false_iff.2 ?_, ?_⟩
  · refine ⟨?_, ?_, ?_, ?_, ?_, ?_, ?_, ?_, ?_, ?_, ?_, ?_, ?_, ?_, ?_, ?_⟩ <;> rintro rfl <;>
      exact absurd ha (by decide)
  · rintro (rfl | rfl | rfl) <;> exact absurd ha (by decide)

theorem saveCandidate_calm (hs : s.candidates = [none]) (ha : s.keyAllowed = true) :
    s.saveCandidate = some { s with candidates := [some ⟨s.indent == (s.cursor.column : Int),
      s.given + s.held.length, s.cursor.index, s.cursor.line, s.cursor.column⟩] } := by
  rw [saveCandidate, if_pos ha, dropCandidate_calm hs]
  simp [inFlow_single hs, hs]

/-- A key is held back, since the colon behind it is not yet read. -/
theorem read_key (hs : s.candidates = [none]) (h : s.Leads true ⟨name ++ ':' :: rest, i, l, k⟩)
    (hk : s.indent ≤ k) (hname : Letters name) (hr : Cursor.isSpaceOrEnd rest = true) :
    s.read = some { s with
      cursor := ⟨':' :: rest, i + name.length, l, k + name.length⟩
      candidates := [some ⟨s.indent == (k : Int), s.given + s.held.length, i, l, k⟩]
      keyAllowed := false
      held := s.held ++ [.scalar (String.ofList name) .plain] } := by
  let s' : Scanner := { s with cursor := ⟨name ++ ':' :: rest, i, l, k⟩, keyAllowed := true }
  have hs' : s'.candidates = [none] := hs
  have hdoc : s'.cursor.atDocumentMark = false := atDocumentMark_key hname
  have hnext : s'.next = s'.readPlain := by
    obtain ⟨a, name', hsplit⟩ := List.exists_cons_of_ne_nil hname.1
    have hrest : s'.cursor.rest = a :: (name' ++ ':' :: rest) := by
      rw [← List.cons_append, ← hsplit]
    refine next_plain hs' hrest (startsPlain_key (hname.2 a ?_)) hdoc
    simp [hsplit]
  rw [read_calm hs h hk, hnext, readPlain, saveCandidate_calm hs' rfl]
  simp only [bind, Option.bind, s']
  rw [inFlow_single rfl, plain_key hname hr]
  rfl

/-! ## Colons -/

theorem dropStale_fresh {k : Candidate} (hs : s.candidates = [some k])
    (h : isStale s.cursor k = false) : s.dropStale = some s := by
  obtain ⟨cursor, indent, outer, candidates, keyAllowed, held, given⟩ := s
  obtain rfl : candidates = [some k] := hs
  have h' : isStale cursor k = false := h
  simp [dropStale, h', Option.filter]

theorem starts_cons {a : Char} {t : List Char} (ha : isSpace a = false)
    (hm : a ≠ '#' ∧ a ≠ '\ufeff') : Starts (a :: t) :=
  ⟨fun _ h => Option.some.inj h ▸ ha, fun _ h => Option.some.inj h ▸ hm⟩

theorem next_colon (hc : s.cursor = ⟨':' :: rest, i, l, k⟩) (hk : k ≠ 0)
    (hr : Cursor.isSpaceOrEnd rest = true) : s.next = s.readColon := by
  rw [next, hc]
  simp [Cursor.atMarks, hk, hr]

/-- The colon makes a key of what was held back, and opens a mapping where the key is deeper than
the mapping around it. -/
theorem read_colon {q : Candidate} {t : Token} (hs : s.candidates = [some q])
    (hheld : s.held = [t]) (hc : s.cursor = ⟨':' :: rest, i, l, k⟩)
    (hr : Cursor.isSpaceOrEnd rest = true) (hk : k ≠ 0) (hindent : s.indent ≤ k)
    (hfresh : isStale s.cursor q = false) (htoken : q.token = s.given) :
    s.read = some { s with
      cursor := ⟨rest, i + 1, l, k + 1⟩
      indent := if (q.column : Int) ≤ s.indent then s.indent else q.column
      outer := if (q.column : Int) ≤ s.indent then s.outer else s.indent :: s.outer
      candidates := [none]
      keyAllowed := false
      held := (if (q.column : Int) ≤ s.indent then [] else [.blockMappingStart]) ++
        [.key, t, .value] } := by
  have hlead : s.Leads s.keyAllowed s.cursor := by
    rw [Leads, hc]
    exact skipSpace_starts (starts_cons rfl (by decide))
  have hcol : s.indent ≤ s.cursor.column := by
    rw [hc]
    exact hindent
  rw [read_eq hlead (dropStale_fresh hs hfresh), closeBlocks_of_le hs hcol,
    next_colon hc hk hr, readColon, hs]
  obtain ⟨cursor, indent, outer, candidates, keyAllowed, held, given⟩ := s
  obtain rfl : cursor = ⟨':' :: rest, i, l, k⟩ := hc
  obtain rfl : candidates = [some q] := hs
  obtain rfl : held = [t] := hheld
  obtain rfl : q.token = given := htoken
  by_cases h : (q.column : Int) ≤ indent <;>
    simp [openBlock, insertAt, inFlow, mark, hold, Cursor.skip, h]

end Key

/-! ## Entries and the end -/

/-- The place is in a mapping at the left margin, or in a deeper collection in it, which `closing`
would end. -/
inductive Within (s : Scanner) : (closing : List Token) → Prop
  | margin (hi : s.indent = 0) (ho : s.outer = [-1]) : Within s []
  | deeper {n : Nat} (hn : n ≠ 0) (hi : s.indent = n) (ho : s.outer = [0, -1]) :
    Within s [.blockEnd]

section Margin

variable {closing : List Token}

theorem closeBlocks_margin (h : s.Within closing) (hs : s.candidates = [none])
    (hheld : s.held = []) :
    s.closeBlocks 0 = { s with indent := 0, outer := [-1], held := closing } := by
  rw [closeBlocks_single hs, hheld]
  cases h with
  | margin hi ho => rw [hi, ho, closeBlocks_go_of_le (Int.le_refl 0)]
  | deeper hn hi ho =>
    rw [hi, ho, closeBlocks_go_deeper (by omega), closeBlocks_go_of_le (Int.le_refl 0)]
    rfl

/-- At the left margin the next token comes behind the ends of the deeper collections. -/
theorem read_margin {c : Cursor} (h : s.Within closing) (hs : s.candidates = [none])
    (hheld : s.held = []) (hlead : s.Leads true c) (hc : c.column = 0) :
    s.read = ({ s with
      cursor := c
      keyAllowed := true
      indent := 0
      outer := [-1]
      held := closing } : Scanner).next := by
  let s' : Scanner := { s with cursor := c, keyAllowed := true }
  have h' : s'.Within closing := by
    cases h with
    | margin hi ho => exact .margin hi ho
    | deeper hn hi ho => exact .deeper hn hi ho
  have hclose := closeBlocks_margin h' hs hheld
  rw [read_eq hlead (dropStale_calm hs), hc]
  exact congrArg next hclose

theorem next_dash (hc : s.cursor = ⟨'-' :: ' ' :: rest, i, l, k⟩) : s.next = s.readDash := by
  have hmarks (mark : Char) : s.cursor.atMarks mark = false := by
    rw [Cursor.atMarks, hc]
    cases rest with
    | nil => simp
    | cons a rest =>
      have : ¬('-' = mark ∧ ' ' = mark) := by
        rintro ⟨rfl, h⟩
        cases h
      simp [this]
  rw [next, hc] at *
  simp [hmarks, Cursor.isSpaceOrEnd, isSpace, isBlank]

/-- The dash before an entry ends the entry before it. -/
theorem read_dash (h : s.Within closing) (hs : s.candidates = [none]) (hheld : s.held = [])
    (hlead : s.Leads true ⟨'-' :: ' ' :: rest, i, l, 0⟩) :
    s.read = some { s with
      cursor := ⟨' ' :: rest, i + 1, l, 1⟩
      keyAllowed := true
      indent := 0
      outer := [-1]
      held := closing ++ [.blockEntry] } := by
  rw [read_margin h hs hheld hlead rfl, next_dash rfl, readDash]
  simp [openBlock, dropCandidate, inFlow, hs, mark, hold, Cursor.skip]

theorem readEnd_margin (hs : s.candidates = [none]) (hi : s.indent = 0) (ho : s.outer = [-1]) :
    s.readEnd = some { s with
      keyAllowed := false
      indent := -1
      outer := []
      held := s.held ++ [.blockEnd] ++ [.streamEnd] } := by
  have hclose : s.closeBlocks (-1) =
      { s with indent := -1, outer := [], held := s.held ++ [.blockEnd] } := by
    rw [closeBlocks_single hs, hi, ho, closeBlocks_go_deeper (by decide),
      closeBlocks_go_of_le (Int.le_refl _)]
  simp only [readEnd, hclose, dropCandidate, hs]
  rfl

/-- The end of the text ends all collections. -/
theorem read_end (h : s.Within closing) (hs : s.candidates = [none]) (hheld : s.held = [])
    (hlead : s.Leads true ⟨[], i, l, 0⟩) :
    s.read = some { s with
      cursor := ⟨[], i, l, 0⟩
      keyAllowed := false
      indent := -1
      outer := []
      held := closing ++ [.blockEnd, .streamEnd] } := by
  let s' : Scanner := { s with
    cursor := ⟨[], i, l, 0⟩
    keyAllowed := true
    indent := 0
    outer := [-1]
    held := closing }
  have hs' : s'.candidates = [none] := hs
  have hnext : s'.next = s'.readEnd := rfl
  rw [read_margin h hs hheld hlead rfl, hnext, readEnd_margin hs' rfl rfl, List.append_assoc]
  rfl

end Margin

end ProjectScript.Yaml.Scanner
