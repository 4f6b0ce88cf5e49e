import ProjectScript.Proofs.Yaml.Passage

/-!
# Quoted scalars

What is written between quotes is read as what it was written for (`quoted_single`,
`quoted_double`). Both styles are one text with holes (`quotedText`): the characters that stand for
themselves as breaks, and the way in which any other one is written. The reader is in a run, which
it reads character by character, or in a gap; the induction is on the text, for both of these at
once (`reads_quotedText`).
-/

namespace ProjectScript.Yaml

variable {double : Bool} {raw : Char → Bool} {char : Char → List Char} {n : Nat}

/-- The quotation mark of a style. -/
def quoteMark (double : Bool) : Char := if double then '"' else '\''

/-- What stands between quotes, and the closing one. A break that stands for itself has `n` blanks
behind it, unless another one follows; `broken` tells whether one stands before. -/
def quotedText (n : Nat) (raw : Char → Bool) (char : Char → List Char) (mark : Char) :
    (broken : Bool) → List Char → List Char
  | broken, [] => (if broken then indentation n else []) ++ [mark]
  | broken, c :: cs =>
    if raw c then c :: quotedText n raw char mark true cs
    else (if broken then indentation n else []) ++ (char c ++ quotedText n raw char mark false cs)

/-- A character is read in a run as it is written. -/
structure ReadsAs (double : Bool) (c : Char) (written : List Char) : Prop where
  ne_nil : written ≠ []
  solid : ∀ rest, Solid (written ++ rest)
  run : ∀ fuel text rest i l k, ∃ i' k', k < k' ∧
    quotedRun double (fuel + 1) text ⟨written ++ rest, i, l, k⟩ =
      quotedRun double fuel (text ++ [c]) ⟨rest, i', l, k'⟩

/-- A style of quotation that holds a text. -/
structure Holds (double : Bool) (raw : Char → Bool) (char : Char → List Char) (cs : List Char) :
    Prop where
  breaks : ∀ c ∈ cs, raw c = true → isBreak c = true ∧ isWritable c = true ∧ c ≠ '\n'
  chars : ∀ c ∈ cs, raw c = false → c ≠ ' ' → ReadsAs double c (char c)
  blank : raw ' ' = false ∧ char ' ' = [' ']
  noBreakBehindBlank : hasPair isGap raw cs = false
  noBlankBehindBreak : hasPair raw isGap cs = false

theorem hasPair_cons_eq_false {p q : Char → Bool} {c : Char} {cs : List Char}
    (h : hasPair p q (c :: cs) = false) :
    (p c = true → ∀ d ∈ cs.head?, q d = false) ∧ hasPair p q cs = false := by
  cases cs with
  | nil => exact ⟨fun _ d hd => (by cases hd), rfl⟩
  | cons d cs =>
    rw [hasPair, Bool.or_eq_false_iff, Bool.and_eq_false_imp] at h
    exact ⟨fun hp e he => Option.some.inj he ▸ h.1 hp, h.2⟩

theorem Holds.tail {c : Char} {cs : List Char} (h : Holds double raw char (c :: cs)) :
    Holds double raw char cs where
  breaks d hd := h.breaks d (List.mem_cons_of_mem c hd)
  chars d hd := h.chars d (List.mem_cons_of_mem c hd)
  blank := h.blank
  noBreakBehindBlank := (hasPair_cons_eq_false h.noBreakBehindBlank).2
  noBlankBehindBreak := (hasPair_cons_eq_false h.noBlankBehindBreak).2

/-! ## Reading on -/

/-- What the reader does behind a gap so far. -/
def readOn (double : Bool) (fuel fuelGap : Nat) (text : List Char) (g : Gap) (c : Cursor) :
    Option (List Char × Cursor) := do
  let (gap, c) ← g.read (-1) fuelGap c
  quotedBody double fuel (text ++ gap.fold) c

/-- What the reader does behind a run. -/
def finish (double : Bool) (fuel : Nat) (run : Option QuotedRun) :
    Option (List Char × Cursor) := do
  let run ← run
  if run.cursor.at? (quoteMark double) then return (run.text, run.cursor.skip)
  else
    readOn double fuel (run.cursor.rest.length + 1) run.text ⟨[], run.joined, [], []⟩ run.cursor

theorem quotedBody_succ {fuel i l k : Nat} {text rest : List Char} (hk : k ≠ 0) (hr : rest ≠ []) :
    quotedBody double (fuel + 1) text ⟨rest, i, l, k⟩ =
      finish double fuel (quotedRun double (rest.length + 1) text ⟨rest, i, l, k⟩) := by
  have hend : (⟨rest, i, l, k⟩ : Cursor).atEnd = false := by
    cases rest with
    | nil => exact (hr rfl).elim
    | cons a rest => rfl
  rw [quotedBody, atDocumentMark_of_column hk, hend]
  rfl

theorem finish_mark {fuel fuelRun i l k : Nat} {text tail : List Char}
    (ht : tail.head? ≠ some '\'') :
    finish double fuel (quotedRun double (fuelRun + 1) text ⟨quoteMark double :: tail, i, l, k⟩) =
      some (text, ⟨tail, i + 1, l, k + 1⟩) := by
  cases double with
  | false =>
    simp [finish, quotedRun, quoteMark, ht, Cursor.at?, Cursor.skip, isSpace, isBlank, isBreak]
  | true => simp [finish, quotedRun, quoteMark, Cursor.at?, Cursor.skip, isSpace, isBlank, isBreak]

theorem finish_space {fuel fuelRun i l k : Nat} {text rest : List Char} {c : Char}
    (hc : isSpace c = true) :
    finish double fuel (quotedRun double (fuelRun + 1) text ⟨c :: rest, i, l, k⟩) =
      readOn double fuel (rest.length + 2) text .none ⟨c :: rest, i, l, k⟩ := by
  have hmark : (⟨c :: rest, i, l, k⟩ : Cursor).at? (quoteMark double) = false := by
    rw [Cursor.at?, List.head?_cons]
    refine decide_eq_false fun h => ?_
    rw [Option.some.inj h] at hc
    cases double <;> exact absurd hc (by decide)
  rw [quotedRun]
  simp only [hc, if_true]
  simp [finish, hmark]
  rfl

/-- What is read of a text: itself, with the place behind the closing quote. -/
def Gives (r : Option (List Char × Cursor)) (cs tail : List Char) : Prop :=
  ∃ i l k, r = some (cs, ⟨tail, i, l, k⟩)

theorem Gives.of_eq {r : Option (List Char × Cursor)} {cs cs' tail : List Char}
    (h : Gives r cs tail) (he : cs = cs') : Gives r cs' tail := he ▸ h

theorem quotedText_ne_nil {mark : Char} {broken : Bool} {cs : List Char} :
    quotedText n raw char mark broken cs ≠ [] := by
  cases cs with
  | nil => simp [quotedText]
  | cons c cs =>
    rw [quotedText]
    split
    · simp
    · have hrest : quotedText n raw char mark false cs ≠ [] := quotedText_ne_nil
      simp [hrest]

/-- What stands between quotes goes on with a solid character, unless a break or a blank comes. -/
theorem solid_quotedText {cs tail : List Char} (h : Holds double raw char cs)
    (hraw : ∀ c ∈ cs.head?, raw c = false) (hblank : ∀ c ∈ cs.head?, isGap c = false) :
    Solid (quotedText n raw char (quoteMark double) false cs ++ tail) := by
  cases cs with
  | nil => cases double <;> simp [quotedText, Solid, quoteMark, isSpace, isBlank, isBreak]
  | cons c cs =>
    have hc : c ≠ ' ' := by simpa [isGap] using hblank c rfl
    rw [quotedText, if_neg (by simp [hraw c rfl]), if_neg (by simp), List.nil_append,
      List.append_assoc]
    exact (h.chars c (List.mem_cons_self ..) (hraw c rfl) hc).solid _

/-- Behind a gap the reader goes on with what follows. -/
theorem readOn_of_read {fuel fuelGap i l k : Nat} {text rest : List Char} {g g' : Gap} {c : Cursor}
    (hr : rest ≠ []) (hk : k ≠ 0) (h : g.read (-1) fuelGap c = some (g', ⟨rest, i, l, k⟩)) :
    readOn double (fuel + 1) fuelGap text g c =
      finish double fuel
        (quotedRun double (rest.length + 1) (text ++ g'.fold) ⟨rest, i, l, k⟩) := by
  rw [readOn, h]
  exact quotedBody_succ hk hr

/-! ## Runs and gaps -/

section

variable {cs tail : List Char} {g : Gap} {c : Char}

/-- What remains of a text in quotes and of what follows it. -/
def remaining (double : Bool) (n : Nat) (raw : Char → Bool) (char : Char → List Char)
    (tail : List Char) (broken : Bool) (cs : List Char) : List Char :=
  quotedText n raw char (quoteMark double) broken cs ++ tail

/-- A text is read from inside a run. -/
def InRun (double : Bool) (n : Nat) (raw : Char → Bool) (char : Char → List Char)
    (tail cs : List Char) : Prop :=
  ∀ fuel fuelRun text i l k, k ≠ 0 →
    (remaining double n raw char tail false cs).length ≤ fuel →
    (remaining double n raw char tail false cs).length < fuelRun →
    Gives (finish double fuel
      (quotedRun double fuelRun text ⟨remaining double n raw char tail false cs, i, l, k⟩))
      (text ++ cs) tail

/-- A text is read from inside a gap. -/
def InGap (double : Bool) (n : Nat) (raw : Char → Bool) (char : Char → List Char)
    (tail cs : List Char) (g : Gap) : Prop :=
  ∀ fuel fuelGap text i l k, (g.broken = false → k ≠ 0) →
    (remaining double n raw char tail g.broken cs).length < fuel →
    (remaining double n raw char tail g.broken cs).length < fuelGap →
    Gives
      (readOn double fuel fuelGap text g ⟨remaining double n raw char tail g.broken cs, i, l, k⟩)
      (text ++ g.fold ++ cs) tail

theorem remaining_ne_nil {broken : Bool} : remaining double n raw char tail broken cs ≠ [] := by
  rw [remaining]
  exact fun h => quotedText_ne_nil (List.append_eq_nil_iff.1 h).1

/-- Behind a break the indentation stands before what is no break. -/
theorem remaining_true (h : ∀ c ∈ cs.head?, raw c = false) :
    remaining double n raw char tail true cs =
      indentation n ++ remaining double n raw char tail false cs := by
  cases cs with
  | nil => simp [remaining, quotedText]
  | cons c cs => simp [remaining, quotedText, h c rfl]

/-- A gap ends where neither a break nor a blank stands. -/
theorem inGap_of_inRun (hn : n ≠ 0) (h : Holds double raw char cs)
    (hraw : ∀ c ∈ cs.head?, raw c = false) (hblank : ∀ c ∈ cs.head?, isGap c = false)
    (hrun : InRun double n raw char tail cs) : InGap double n raw char tail cs g := by
  intro fuel fuelGap text i l k hk hf hfg
  obtain ⟨fuel, rfl⟩ := Nat.exists_eq_succ_of_ne_zero (Nat.ne_zero_of_lt hf)
  obtain ⟨fuelGap, rfl⟩ := Nat.exists_eq_succ_of_ne_zero (Nat.ne_zero_of_lt hfg)
  have hsolid : Solid (remaining double n raw char tail false cs) :=
    solid_quotedText h hraw hblank
  cases hg : g.broken with
  | false =>
    rw [hg] at hf hfg
    have hread : g.read (-1) (fuelGap + 1) ⟨remaining double n raw char tail false cs, i, l, k⟩ =
      some (g, _) := Gap.read_solid hsolid
    rw [readOn_of_read remaining_ne_nil (hk hg) hread]
    exact hrun _ _ _ _ _ _ (hk hg) (Nat.le_of_lt_succ hf) (Nat.lt_succ_self _)
  | true =>
    rw [hg, remaining_true hraw, List.length_append] at hf hfg
    rw [remaining_true hraw]
    have hread : g.read (-1) (fuelGap + 1)
        ⟨indentation n ++ remaining double n raw char tail false cs, i, l, k⟩ =
      some (g, ⟨remaining double n raw char tail false cs, i + n, l, k + n⟩) :=
      Gap.read_indented hg hsolid (by simp [indentation] at hfg; omega)
    rw [readOn_of_read remaining_ne_nil (by omega) hread]
    exact hrun _ _ _ _ _ _ (by omega) (by omega) (Nat.lt_succ_self _)

theorem remaining_raw {broken : Bool} (hc : raw c = true) :
    remaining double n raw char tail broken (c :: cs) =
      c :: remaining double n raw char tail true cs := by
  rw [remaining, quotedText, if_pos hc]
  rfl

theorem remaining_char (hc : raw c = false) :
    remaining double n raw char tail false (c :: cs) =
      char c ++ remaining double n raw char tail false cs := by
  simp [remaining, quotedText, hc]

theorem remaining_blank (h : Holds double raw char (' ' :: cs)) :
    remaining double n raw char tail false (' ' :: cs) =
      ' ' :: remaining double n raw char tail false cs := by
  rw [remaining_char h.blank.1, h.blank.2]
  rfl

theorem inRun_nil (ht : tail.head? ≠ some '\'') : InRun double n raw char tail [] := by
  intro fuel fuelRun text i l k _ _ hf
  obtain ⟨fuelRun, rfl⟩ := Nat.exists_eq_succ_of_ne_zero (Nat.ne_zero_of_lt hf)
  have hrest : remaining double n raw char tail false [] = quoteMark double :: tail := by
    simp [remaining, quotedText]
  rw [hrest, finish_mark ht, List.append_nil]
  exact ⟨_, _, _, rfl⟩

theorem inRun_char (h : Holds double raw char (c :: cs)) (hraw : raw c = false) (hc : c ≠ ' ')
    (hrun : InRun double n raw char tail cs) : InRun double n raw char tail (c :: cs) := by
  intro fuel fuelRun text i l k hk hf hfr
  have hreads := h.chars c (List.mem_cons_self ..) hraw hc
  obtain ⟨fuelRun, rfl⟩ := Nat.exists_eq_succ_of_ne_zero (Nat.ne_zero_of_lt hfr)
  obtain ⟨i', k', hk', hstep⟩ :=
    hreads.run fuelRun text (remaining double n raw char tail false cs) i l k
  have hne := List.length_pos_iff.2 hreads.ne_nil
  rw [remaining_char hraw, List.length_append] at hf hfr
  rw [remaining_char hraw, hstep]
  exact (hrun fuel fuelRun _ i' l k' (by omega) (by omega) (by omega)).of_eq (by simp)

/-- A break makes a gap of a run. -/
theorem inRun_break (h : Holds double raw char (c :: cs)) (hc : raw c = true)
    (hgap : InGap double n raw char tail cs ⟨[], true, [c], []⟩) :
    InRun double n raw char tail (c :: cs) := by
  intro fuel fuelRun text i l k _ hf hfr
  obtain ⟨hb, hw, hne⟩ := h.breaks c (List.mem_cons_self ..) hc
  obtain ⟨fuelRun, rfl⟩ := Nat.exists_eq_succ_of_ne_zero (Nat.ne_zero_of_lt hfr)
  rw [remaining_raw hc] at hf
  rw [remaining_raw hc, finish_space (by simp [isSpace, hb]), readOn, Gap.read_break hb hw rfl,
    ← readOn]
  exact (hgap _ _ _ _ _ _ (fun h => by cases h) hf (Nat.lt_succ_self _)).of_eq
    (by simp [Gap.fold, hne])

/-- A blank makes a gap of a run. -/
theorem inRun_blank (h : Holds double raw char (' ' :: cs))
    (hgap : InGap double n raw char tail cs ⟨[' '], false, [], []⟩) :
    InRun double n raw char tail (' ' :: cs) := by
  intro fuel fuelRun text i l k hk hf hfr
  obtain ⟨fuelRun, rfl⟩ := Nat.exists_eq_succ_of_ne_zero (Nat.ne_zero_of_lt hfr)
  rw [remaining_blank h] at hf
  rw [remaining_blank h, finish_space rfl, readOn, Gap.read_blank rfl, ← readOn]
  exact (hgap _ _ _ _ _ _ (fun _ => Nat.succ_ne_zero k) hf (Nat.lt_succ_self _)).of_eq
    (by simp [Gap.fold])

/-- A gap with a break goes on with a break. -/
theorem inGap_break (h : Holds double raw char (c :: cs)) (hc : raw c = true) {blanks first others}
    (hown : first ≠ ['\n'])
    (hgap : InGap double n raw char tail cs ⟨blanks, true, first, others ++ [c]⟩) :
    InGap double n raw char tail (c :: cs) ⟨blanks, true, first, others⟩ := by
  intro fuel fuelGap text i l k _ hf hfg
  obtain ⟨hb, hw, -⟩ := h.breaks c (List.mem_cons_self ..) hc
  obtain ⟨fuelGap, rfl⟩ := Nat.exists_eq_succ_of_ne_zero (Nat.ne_zero_of_lt hfg)
  rw [remaining_raw hc] at hf hfg
  rw [remaining_raw hc, readOn, Gap.read_breaks hb hw rfl, ← readOn]
  exact (hgap _ _ _ _ _ _ (fun h => by cases h) (Nat.lt_of_succ_lt hf)
    (Nat.lt_of_succ_lt_succ hfg)).of_eq (by simp [Gap.fold, hown])

/-- A gap of blanks goes on with a blank. -/
theorem inGap_blank (h : Holds double raw char (' ' :: cs)) {blanks first others}
    (hgap : InGap double n raw char tail cs ⟨blanks ++ [' '], false, first, others⟩) :
    InGap double n raw char tail (' ' :: cs) ⟨blanks, false, first, others⟩ := by
  intro fuel fuelGap text i l k hk hf hfg
  obtain ⟨fuelGap, rfl⟩ := Nat.exists_eq_succ_of_ne_zero (Nat.ne_zero_of_lt hfg)
  rw [remaining_blank h] at hf hfg
  rw [remaining_blank h, readOn, Gap.read_blank rfl, ← readOn]
  exact (hgap _ _ _ _ _ _ (fun _ => Nat.succ_ne_zero k) (Nat.lt_of_succ_lt hf)
    (Nat.lt_of_succ_lt_succ hfg)).of_eq (by simp [Gap.fold])

/-- A text in quotes is read from inside a run, and from inside a gap that it does not go on with
in another kind of space. By induction on the text. -/
theorem reads_quotedText (hn : n ≠ 0) (ht : tail.head? ≠ some '\'')
    (h : Holds double raw char cs) :
    InRun double n raw char tail cs ∧
      ∀ g : Gap, (g.broken = false → ∀ c ∈ cs.head?, raw c = false) →
        (g.broken = true → g.first ≠ ['\n'] ∧ ∀ c ∈ cs.head?, isGap c = false) →
        InGap double n raw char tail cs g := by
  induction cs with
  | nil =>
    have hrun : InRun double n raw char tail [] := inRun_nil ht
    exact ⟨hrun, fun g _ _ => inGap_of_inRun hn h (by simp) (by simp) hrun⟩
  | cons c cs ih =>
    obtain ⟨ihrun, ihgap⟩ := ih h.tail
    have hbreak := (hasPair_cons_eq_false h.noBreakBehindBlank).1
    have hblank := (hasPair_cons_eq_false h.noBlankBehindBreak).1
    by_cases hraw : raw c = true
    · -- a break
      have hne := (h.breaks c (List.mem_cons_self ..) hraw).2.2
      refine ⟨inRun_break h hraw (ihgap _ (fun h => by cases h) fun _ => ⟨?_, hblank hraw⟩), ?_⟩
      · simpa using hne
      · rintro ⟨blanks, broken, first, others⟩ hopen hclosed
        cases broken with
        | false => cases hraw.symm.trans (hopen rfl c rfl)
        | true =>
          have hfirst := (hclosed rfl).1
          exact inGap_break h hraw hfirst
            (ihgap _ (fun h => by cases h) fun _ => ⟨hfirst, hblank hraw⟩)
    · rw [Bool.not_eq_true] at hraw
      by_cases hc : c = ' '
      · -- a blank
        subst hc
        refine ⟨inRun_blank h (ihgap _ (fun _ => hbreak rfl) fun h => by cases h), ?_⟩
        rintro ⟨blanks, broken, first, others⟩ hopen hclosed
        cases broken with
        | false => exact inGap_blank h (ihgap _ (fun _ => hbreak rfl) fun h => by cases h)
        | true => cases (hclosed rfl).2 ' ' rfl
      · -- any other character, which ends a gap
        have hrun := inRun_char h hraw hc ihrun
        refine ⟨hrun, fun g _ _ => inGap_of_inRun hn h ?_ ?_ hrun⟩
        · rintro d hd
          cases hd
          exact hraw
        · rintro d hd
          cases hd
          simpa [isGap] using hc

/-- A quoted scalar is read as the text that it holds. -/
theorem quoted_quotedText (hn : n ≠ 0) (ht : tail.head? ≠ some '\'')
    (h : Holds double raw char cs) (i l k : Nat) :
    Gives (quoted double
      ⟨quoteMark double :: (quotedText n raw char (quoteMark double) false cs ++ tail), i, l, k⟩)
      cs tail := by
  have hrun := (reads_quotedText hn ht h).1
  let rest := remaining double n raw char tail false cs
  have hbody : quotedBody double (rest.length + 1 + 1) [] ⟨rest, i + 1, l, k + 1⟩ = _ :=
    quotedBody_succ (Nat.succ_ne_zero k) remaining_ne_nil
  change Gives (quotedBody double (rest.length + 1 + 1) [] ⟨rest, i + 1, l, k + 1⟩) cs tail
  rw [hbody]
  exact hrun _ _ _ _ _ _ (Nat.succ_ne_zero k) (Nat.le_succ _) (Nat.lt_succ_self _)

end

/-! ## Single quotes -/

theorem readsAs_single {c : Char} (hc : isSpace c = false) : ReadsAs false c (singleChar c) where
  ne_nil := by
    rw [singleChar]
    split <;> simp
  solid rest := by
    rw [singleChar]
    split
    · rintro a ha
      cases ha
      rfl
    · rintro a ha
      cases ha
      exact hc
  run fuel text rest i l k := by
    by_cases hq : c = '\''
    · subst hq
      refine ⟨i + 2, k + 2, by omega, ?_⟩
      simp [singleChar, quotedRun, isSpace, isBlank, isBreak, Cursor.skipN, Cursor.skip]
    · exact ⟨i + 1, k + 1, by omega, by simp [singleChar, quotedRun, hq, hc, Cursor.skip]⟩

theorem indented_eq_quotedText (n : Nat) (char : Char → List Char) (mark : Char) (broken : Bool)
    (cs : List Char) :
    indented n char broken cs ++
        (if (cs.getLast?.map isBreak).getD broken then indentation n else []) ++ [mark] =
      quotedText n isBreak char mark broken cs := by
  induction cs generalizing broken with
  | nil => rfl
  | cons c cs ih =>
    have hlast : ∀ b, ((c :: cs).getLast?.map isBreak).getD b =
        (cs.getLast?.map isBreak).getD (isBreak c) := by
      intro b
      rw [List.getLast?_cons]
      cases cs.getLast? <;> rfl
    rw [hlast, indented, quotedText]
    split
    · rename_i hb
      rw [← ih, hb]
      simp
    · rename_i hb
      rw [Bool.not_eq_true] at hb
      rw [← ih, hb]
      simp

theorem single_eq (n : Nat) (cs : List Char) :
    single n cs = '\'' :: quotedText n isBreak singleChar '\'' false cs := by
  rw [single, ← indented_eq_quotedText]
  cases cs.getLast? <;> rfl

theorem holds_single {cs : List Char} (h : fitsSingle cs = true) (hn : '\n' ∉ cs) :
    Holds false isBreak singleChar cs := by
  simp only [fitsSingle, isSpecial, Bool.and_eq_true, Bool.not_eq_true', Bool.or_eq_false_iff,
    Bool.not_eq_false', List.all_eq_true] at h
  obtain ⟨⟨hw, hbreak⟩, hblank⟩ := h
  refine ⟨fun c hc hb => ⟨hb, hw c hc, fun he => hn (he ▸ hc)⟩, fun c hc hb hne => ?_,
    ⟨rfl, rfl⟩, hbreak, hblank⟩
  refine readsAs_single (isSpace_eq_false_iff.2 ⟨?_, hb⟩)
  rw [← Bool.not_eq_true]
  exact fun hblank => hne (eq_of_isBlank hblank (hw c hc))

/-- A text in single quotes is read as itself. -/
theorem quoted_single {cs tail : List Char} (hn : n ≠ 0) (ht : tail.head? ≠ some '\'')
    (h : fitsSingle cs = true) (hcs : '\n' ∉ cs) (i l k : Nat) :
    Gives (quoted false ⟨single n cs ++ tail, i, l, k⟩) cs tail := by
  rw [single_eq]
  exact quoted_quotedText hn ht (holds_single h hcs) i l k

/-! ## Double quotes -/

theorem escape?_of_escapeLetter? {c letter : Char} (h : escapeLetter? c = some letter) :
    escape? letter = some c ∧ isBreak letter = false := by
  have hc := Char.ofNat_toNat c
  rw [escapeLetter?] at h
  split at h <;> first | cases h; done | skip
  all_goals
    rename_i hn
    rw [hn] at hc
    cases h
    subst hc
    exact ⟨rfl, rfl⟩

/-- Digits that are read behind others. -/
theorem foldl_hexDigits (k m v : Nat) :
    (hexDigits k m).foldl (fun v c => do return (← v) * 16 + (← Json.hexValue? c)) (some v) =
      some (v * Nat.pow 16 k + m % Nat.pow 16 k) := by
  have hdigit : ∀ d < 16, Json.hexValue? (Nat.digitChar d).toUpper = some d := by decide
  induction k generalizing m with
  | zero => simp [hexDigits, Nat.mod_one]
  | succ k ih =>
    have hmod : m % (16 * Nat.pow 16 k) = m % 16 + 16 * (m / 16 % Nat.pow 16 k) := Nat.mod_mul
    have hv : v * (16 * Nat.pow 16 k) = 16 * (v * Nat.pow 16 k) := Nat.mul_left_comm ..
    have hpow : Nat.pow 16 (k + 1) = 16 * Nat.pow 16 k := Nat.mul_comm ..
    rw [hexDigits, List.foldl_append, ih, hpow, hmod, hv]
    simp only [List.foldl_cons, List.foldl_nil, bind, Option.bind, pure,
      hdigit (m % 16) (Nat.mod_lt _ (by decide)), Option.some.injEq]
    omega

theorem length_hexDigits (k m : Nat) : (hexDigits k m).length = k := by
  induction k generalizing m with
  | zero => rfl
  | succ k ih => simp [hexDigits, ih]

/-- Hexadecimal digits are read as the number that they write. -/
theorem hexValue?_hexDigits {k m : Nat} (hm : m < Nat.pow 16 k) (rest : List Char) :
    hexValue? k (hexDigits k m ++ rest) = some m := by
  have hlen := length_hexDigits k m
  rw [hexValue?, if_neg (by simp [hlen]), List.take_append_of_le_length (Nat.le_of_eq hlen.symm),
    List.take_of_length_le (Nat.le_of_eq hlen), foldl_hexDigits, Nat.mod_eq_of_lt hm,
    Nat.zero_mul, Nat.zero_add]

theorem toNat_valid (c : Char) :
    ¬((0xD800 ≤ c.toNat ∧ c.toNat ≤ 0xDFFF) ∨ 0x10FFFF < c.toNat) := by
  have h : c.toNat < 0xD800 ∨ 0xDFFF < c.toNat ∧ c.toNat < 0x110000 := c.valid
  omega

/-- The letter of a numeric escape and the count of its digits. -/
theorem numericEscape_cases (c : Char) : ∃ letter w, escape? letter = none ∧
    escapeWidth? letter = some w ∧ isBreak letter = false ∧ c.toNat < Nat.pow 16 w ∧
    numericEscape c = letter :: hexDigits w c.toNat := by
  have hvalid := toNat_valid c
  rw [numericEscape]
  split
  · exact ⟨'x', 2, rfl, rfl, rfl, by assumption, rfl⟩
  · split
    · exact ⟨'u', 4, rfl, rfl, rfl, by assumption, rfl⟩
    · exact ⟨'U', 8, rfl, rfl, rfl, Nat.lt_of_lt_of_le (m := 0x110000) (by omega) (by decide), rfl⟩

theorem readsAs_double {c : Char} (hc : c ≠ ' ') : ReadsAs true c (doubleChar c) := by
  have hmark : isSpace '\\' = false := rfl
  rw [doubleChar]
  split
  · -- the character itself
    rename_i h
    obtain ⟨hw, hb, hquote, hslash⟩ := h
    have hspace : isSpace c = false := by
      rw [isSpace_eq_false_iff]
      refine ⟨?_, by simpa using hb⟩
      rw [← Bool.not_eq_true]
      exact fun hblank => hc (eq_of_isBlank hblank hw)
    refine ⟨by simp, fun rest a ha => ?_, fun fuel text rest i l k => ⟨i + 1, k + 1, by omega, ?_⟩⟩
    · cases ha
      exact hspace
    · simp [quotedRun, hspace, hquote, hslash, Cursor.skip]
  · split
    · -- an escape with a letter
      rename_i letter hletter
      obtain ⟨hescape, hb⟩ := escape?_of_escapeLetter? hletter
      refine ⟨by simp, fun rest a ha => by cases ha; rfl,
        fun fuel text rest i l k => ⟨i + 2, k + 2, by omega, ?_⟩⟩
      simp [quotedRun, hmark, hescape, hb, Cursor.skip, Cursor.skipN]
    · -- an escape with a number
      obtain ⟨letter, w, hescape, hwidth, hb, hlt, heq⟩ := numericEscape_cases c
      rw [heq]
      refine ⟨by simp, fun rest a ha => by cases ha; rfl,
        fun fuel text rest i l k => ⟨i + (2 + w), k + (2 + w), by omega, ?_⟩⟩
      have hlen : ('\\' :: letter :: hexDigits w c.toNat).length = 2 + w := by
        rw [List.length_cons, List.length_cons, length_hexDigits]
        omega
      have hskip := skipN_append ('\\' :: letter :: hexDigits w c.toNat) rest i l k
      rw [hlen] at hskip
      simp only [List.cons_append] at hskip ⊢
      rw [quotedRun]
      simp [hmark, hb, hescape, hwidth, hexValue?_hexDigits hlt, toNat_valid c, hskip]

theorem double_eq (n : Nat) (cs : List Char) :
    Yaml.double cs = '"' :: quotedText n (fun _ => false) doubleChar '"' false cs := by
  rw [Yaml.double]
  congr
  induction cs with
  | nil => rfl
  | cons c cs ih => simp [quotedText, ← ih]

theorem hasPair_eq_false {p q : Char → Bool} (h : ∀ a b, (p a && q b) = false) (cs : List Char) :
    hasPair p q cs = false := by
  induction cs with
  | nil => rfl
  | cons a cs ih =>
    cases cs with
    | nil => rfl
    | cons b cs => rw [hasPair, h, ih, Bool.or_self]

theorem holds_double (cs : List Char) : Holds true (fun _ => false) doubleChar cs where
  breaks c _ h := by cases h
  chars c _ _ hc := readsAs_double hc
  blank := ⟨rfl, by decide⟩
  noBreakBehindBlank := hasPair_eq_false (fun _ _ => Bool.and_false _) cs
  noBlankBehindBreak := hasPair_eq_false (fun _ _ => Bool.false_and _) cs

/-- Any text in double quotes is read as itself. -/
theorem quoted_double {cs tail : List Char} (ht : tail.head? ≠ some '\'') (i l k : Nat) :
    Gives (quoted true ⟨Yaml.double cs ++ tail, i, l, k⟩) cs tail := by
  rw [double_eq 1]
  exact quoted_quotedText Nat.one_ne_zero ht (holds_double cs) i l k

end ProjectScript.Yaml
