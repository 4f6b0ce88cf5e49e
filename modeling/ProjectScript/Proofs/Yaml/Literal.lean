import ProjectScript.Proofs.Yaml.Passage

/-!
# Literal blocks

A text with a line feed is written as a literal block, and read as itself (`block_literal`). The
text is taken apart into lines, each with the breaks behind it (`exists_line`). What is read line by
line is the text up to its last line and the breaks at its end (`readsLines`), and the mark
for these breaks says how many of them belong to the text (`chomping_append`).
-/

namespace ProjectScript.Yaml

/-- The mark of what becomes of the breaks at the end of a block. -/
def Chomping.mark : Chomping → List Char
  | strip => ['-']
  | clip => []
  | keep => ['+']

/-- What becomes of the text of a block and of the breaks at its end. -/
def Chomping.apply (b : BlockText) : Chomping → List Char
  | strip => b.text
  | clip => b.text ++ b.last
  | keep => b.text ++ b.last ++ b.breaks

/-- Breaks that stand for themselves. -/
def Breaks (cs : List Char) : Prop := ∀ c ∈ cs, isBreak c = true

/-- The lines of a text that starts with one, each behind `n` blanks but the first. -/
def linesOf (n : Nat) (cs : List Char) : List Char := indented n (fun c => [c]) false cs

/-- The break that is put behind a text that does not end with one. -/
def lastBreak (cs : List Char) : List Char := if cs.getLast?.any isBreak then [] else ['\n']

section Lines

variable {n : Nat} {cs line breaks more : List Char} {broken : Bool}

theorem indented_breaks (h : Breaks breaks) :
    indented n (fun c => [c]) broken (breaks ++ more) =
      breaks ++ indented n (fun c => [c]) (broken || !breaks.isEmpty) more := by
  induction breaks generalizing broken with
  | nil => simp
  | cons c breaks ih =>
    rw [List.cons_append, indented, if_pos (h c (List.mem_cons_self ..)),
      ih fun d hd => h d (List.mem_cons_of_mem c hd)]
    simp

theorem indented_of_breaks (h : Breaks breaks) :
    indented n (fun c => [c]) broken breaks = breaks := by
  induction breaks generalizing broken with
  | nil => rfl
  | cons c breaks ih =>
    rw [indented, if_pos (h c (List.mem_cons_self ..)),
      ih fun d hd => h d (List.mem_cons_of_mem c hd)]

theorem linesOf_line (h : ∀ c ∈ line, isBreak c = false) :
    linesOf n (line ++ more) = line ++ linesOf n more := by
  induction line with
  | nil => rfl
  | cons c line ih =>
    have hline := ih fun d hd => h d (List.mem_cons_of_mem c hd)
    rw [linesOf] at hline ⊢
    rw [List.cons_append, indented, if_neg (by simp [h c (List.mem_cons_self ..)]), hline]
    rfl

/-- Behind a break the indentation stands before a line. -/
theorem indented_true (hne : more ≠ []) (h : ∀ c ∈ more.head?, isBreak c = false) :
    indented n (fun c => [c]) true more = indentation n ++ linesOf n more := by
  obtain ⟨c, more, rfl⟩ := List.exists_cons_of_ne_nil hne
  have hc := h c rfl
  simp [linesOf, indented, hc]

/-- A line, and the breaks and lines behind it. -/
theorem exists_line (cs : List Char) : ∃ line breaks more, cs = line ++ (breaks ++ more) ∧
    (∀ c ∈ line, isBreak c = false) ∧ Breaks breaks ∧ (∀ c ∈ more.head?, isBreak c = false) ∧
    (more ≠ [] → breaks ≠ []) := by
  induction cs with
  | nil => exact ⟨[], [], [], rfl, by simp, by simp [Breaks], by simp, fun h => (h rfl).elim⟩
  | cons c cs ih =>
    obtain ⟨line, breaks, more, rfl, hline, hbreaks, hmore, hne⟩ := ih
    by_cases hc : isBreak c = true
    · cases line with
      | nil =>
        refine ⟨[], c :: breaks, more, rfl, by simp, ?_, hmore, fun _ => List.cons_ne_nil _ _⟩
        exact List.forall_mem_cons.2 ⟨hc, hbreaks⟩
      | cons d line =>
        refine ⟨[], [c], d :: line ++ (breaks ++ more), rfl, by simp, by simpa [Breaks] using hc,
          ?_, fun _ => List.cons_ne_nil _ _⟩
        rintro e he
        cases he
        exact hline d (List.mem_cons_self ..)
    · rw [Bool.not_eq_true] at hc
      exact ⟨c :: line, breaks, more, rfl, List.forall_mem_cons.2 ⟨hc, hline⟩, hbreaks, hmore, hne⟩

end Lines

/-! ## Indentation -/

section Indentation

variable {n fuel widest i l k : Nat} {acc breaks rest : List Char}

theorem blockBreaks_blank {indent : Option Nat} (hk : indent.all (k < ·) = true) :
    blockBreaks indent (fuel + 1) widest acc ⟨' ' :: rest, i, l, k⟩ =
      blockBreaks indent fuel widest acc ⟨rest, i + 1, l, k + 1⟩ := by
  rw [blockBreaks]
  simp [hk, Cursor.skip]

theorem blockBreaks_break {indent : Option Nat} {c : Char} (hb : isBreak c = true)
    (hw : isWritable c = true) :
    blockBreaks indent (fuel + 1) widest acc ⟨c :: rest, i, l, k⟩ =
      blockBreaks indent fuel (max widest k) (acc ++ [c]) ⟨rest, i + 1, l + 1, 0⟩ := by
  have hblank := not_isBlank_of_isBreak hb hw
  simp only [isBlank, Bool.or_eq_false_iff, decide_eq_false_iff_not] at hblank
  rw [blockBreaks]
  simp [hb, hblank, lineBreak_break hb hw, skipLine_break hb hw]

/-- The indentation has been read: it is complete, or something stands in it. -/
def Indented (n column : Nat) (rest : List Char) : Prop :=
  (column = n ∧ ∀ c ∈ rest.head?, isBreak c = false) ∨ (column < n ∧ Solid rest)

theorem Indented.le {column : Nat} (h : Indented n column rest) : column ≤ n := by
  rcases h with ⟨rfl, -⟩ | ⟨h, -⟩
  · exact Nat.le_refl _
  · exact Nat.le_of_lt h

theorem blockBreaks_indented (h : Indented n k rest) :
    blockBreaks (some n) (fuel + 1) widest acc ⟨rest, i, l, k⟩ =
      some (acc, max widest k, ⟨rest, i, l, k⟩) := by
  rw [blockBreaks]
  cases rest with
  | nil => rfl
  | cons a rest =>
    rcases h with ⟨rfl, h⟩ | ⟨h, hsolid⟩
    · simp [h a rfl]
    · obtain ⟨hblank, hb⟩ := isSpace_eq_false_iff.1 (hsolid a rfl)
      simp only [isBlank, Bool.or_eq_false_iff, decide_eq_false_iff_not] at hblank
      simp [hb, hblank]

/-- The blanks before a line, or before what follows a block. -/
theorem blockBreaks_blanks {j : Nat} (h : Indented n (k + j) rest) (hf : j < fuel) :
    blockBreaks (some n) fuel widest acc ⟨indentation j ++ rest, i, l, k⟩ =
      some (acc, max widest (k + j), ⟨rest, i + j, l, k + j⟩) := by
  induction j generalizing fuel i k with
  | zero =>
    obtain ⟨fuel, rfl⟩ := Nat.exists_eq_succ_of_ne_zero (Nat.ne_of_gt hf)
    exact blockBreaks_indented h
  | succ j ih =>
    obtain ⟨fuel, rfl⟩ := Nat.exists_eq_succ_of_ne_zero (Nat.ne_zero_of_lt hf)
    have hk : (some n).all (k < ·) = true := by
      have hle := h.le
      simp only [Option.all_some, decide_eq_true_eq]
      omega
    rw [← Nat.add_assoc, Nat.add_right_comm] at h
    rw [indentation, List.replicate_succ, List.cons_append, blockBreaks_blank hk, ← indentation,
      ih h (Nat.lt_of_succ_lt_succ hf), Nat.add_right_comm k, Nat.add_right_comm i, Nat.add_assoc,
      Nat.add_assoc]

/-- The breaks behind a line, and the blanks before the next one. -/
theorem blockBreaks_breaks {column : Nat} (hbreaks : Breaks breaks)
    (hw : ∀ c ∈ breaks, isWritable c = true) (h : Indented n column rest)
    (hf : breaks.length + column < fuel) (widest i l : Nat) (acc : List Char) :
    ∃ w i' l', blockBreaks (some n) fuel widest acc
      ⟨breaks ++ (indentation column ++ rest), i, l, 0⟩ =
        some (acc ++ breaks, w, ⟨rest, i', l', column⟩) := by
  induction breaks generalizing fuel widest acc i l with
  | nil =>
    rw [List.nil_append, blockBreaks_blanks (by rwa [Nat.zero_add]) (by simpa using hf),
      List.append_nil, Nat.zero_add]
    exact ⟨_, _, _, rfl⟩
  | cons c breaks ih =>
    obtain ⟨fuel, rfl⟩ := Nat.exists_eq_succ_of_ne_zero (Nat.ne_zero_of_lt hf)
    have hc := hbreaks c (List.mem_cons_self ..)
    rw [List.cons_append, blockBreaks_break hc (hw c (List.mem_cons_self ..)),
      List.append_cons acc c breaks]
    rw [List.length_cons] at hf
    exact ih (fun d hd => hbreaks d (List.mem_cons_of_mem c hd))
      (fun d hd => hw d (List.mem_cons_of_mem c hd)) (by omega) _ _ _ _

theorem length_breaks_lt (breaks rest : List Char) (column : Nat) :
    breaks.length + column < (breaks ++ (indentation column ++ rest)).length + 1 := by
  rw [List.length_append, List.length_append, length_indentation]
  omega

/-- Where the indentation is not known it is the one of the first line. -/
theorem blockBreaks_first {c : Char} (hc : isSpace c = false) (hf : n < fuel) :
    blockBreaks none fuel widest acc ⟨indentation n ++ c :: rest, i, l, k⟩ =
      some (acc, max widest (k + n), ⟨c :: rest, i + n, l, k + n⟩) := by
  induction n generalizing fuel i k with
  | zero =>
    obtain ⟨fuel, rfl⟩ := Nat.exists_eq_succ_of_ne_zero (Nat.ne_of_gt hf)
    obtain ⟨hblank, hb⟩ := isSpace_eq_false_iff.1 hc
    simp only [isBlank, Bool.or_eq_false_iff, decide_eq_false_iff_not] at hblank
    simp [indentation, blockBreaks, hblank, hb]
  | succ n ih =>
    obtain ⟨fuel, rfl⟩ := Nat.exists_eq_succ_of_ne_zero (Nat.ne_zero_of_lt hf)
    rw [indentation, List.replicate_succ, List.cons_append, blockBreaks_blank rfl, ← indentation,
      ih (Nat.lt_of_succ_lt_succ hf), Nat.add_right_comm k, Nat.add_right_comm i, Nat.add_assoc,
      Nat.add_assoc]

end Indentation

/-! ## Lines -/

section Block

variable {n column fuel i l k : Nat} {cs line breaks more rest : List Char} {b : BlockText}

/-- Everything is read of a block when the indentation stops short. -/
theorem blockLines_end (hk : k ≠ n) :
    blockLines true n (fuel + 1) b ⟨rest, i, l, k⟩ = some (b, ⟨rest, i, l, k⟩) := by
  rw [blockLines, if_neg fun h => hk h.1]

/-- A line of a block, with the break behind it. -/
theorem blockLines_line {c : Char} (hline : ∀ d ∈ line, isBreak d = false)
    (hb : isBreak c = true) (hw : isWritable c = true) (fuel i l : Nat) (b : BlockText)
    (rest : List Char) : ∃ blank, blockLines true n (fuel + 1) b ⟨line ++ c :: rest, i, l, n⟩ =
      (blockBreaks (some n) (rest.length + 1) 0 []
        ⟨rest, i + line.length + 1, l + 1, 0⟩).bind fun (breaks, _, cursor) =>
          blockLines true n fuel ⟨b.text ++ (b.last ++ b.breaks) ++ line, [c], breaks, blank⟩
            cursor := by
  have hend : (⟨line ++ c :: rest, i, l, n⟩ : Cursor).atEnd = false := by
    cases line <;> rfl
  have hstop : ∀ d ∈ line, (!isBreak d) = true := fun d hd => by rw [hline d hd]; rfl
  have htake : (line ++ c :: rest).takeWhile (!isBreak ·) = line := by
    rw [List.takeWhile_append_of_pos hstop]
    simp [hb]
  have hdrop : (line ++ c :: rest).dropWhile (!isBreak ·) = c :: rest := by
    rw [List.dropWhile_append_of_pos hstop]
    simp [hb]
  refine ⟨(⟨line ++ c :: rest, i, l, n⟩ : Cursor).sees isBlank, ?_⟩
  rw [blockLines, if_pos ⟨rfl, by simp [hend]⟩]
  simp only [Cursor.takeWhile, Cursor.skipWhile, htake, hdrop, lineBreak_break hb hw,
    skipLine_break hb hw]
  simp

/-- A text is its lines and the breaks at its end. -/
structure EndsWith (cs core ending : List Char) : Prop where
  eq : cs = core ++ ending
  last : ∀ c ∈ core.getLast?, isBreak c = false
  ne_nil : core ≠ []
  breaks : Breaks ending

/-- What is read of the lines of a block. -/
def ReadsLines (n column : Nat) (cs rest : List Char) : Prop :=
  ∃ core ending, EndsWith cs core ending ∧ ∀ fuel b i l,
    (linesOf n cs ++ lastBreak cs ++ (indentation column ++ rest)).length < fuel →
    ∃ i' l' blank, blockLines true n fuel b
      ⟨linesOf n cs ++ lastBreak cs ++ (indentation column ++ rest), i, l, n⟩ =
        some (⟨b.text ++ (b.last ++ b.breaks) ++ core, [ending.headD '\n'], ending.tail, blank⟩,
          ⟨rest, i', l', column⟩)

theorem lastBreak_append (hne : more ≠ []) : lastBreak (cs ++ more) = lastBreak more := by
  have hlast : (cs ++ more).getLast? = more.getLast? := by
    rw [List.getLast?_append]
    obtain ⟨c, hc⟩ := Option.isSome_iff_exists.1 (List.getLast?_isSome.2 hne)
    rw [hc]
    rfl
  rw [lastBreak, lastBreak, hlast]

/-- The last line is written with the breaks behind it, or with one of its own. -/
theorem linesOf_last (hne : line ≠ []) (hline : ∀ c ∈ line, isBreak c = false)
    (hbreaks : Breaks breaks) :
    linesOf n (line ++ breaks) ++ lastBreak (line ++ breaks) =
      line ++ breaks.headD '\n' :: breaks.tail := by
  rw [linesOf_line hline, linesOf, indented_of_breaks hbreaks]
  cases breaks with
  | nil =>
    have hlast : line.getLast?.any isBreak = false := by
      rw [List.getLast?_eq_some_getLast hne]
      exact hline _ (List.getLast_mem hne)
    rw [List.append_nil, lastBreak, hlast]
    rfl
  | cons c breaks =>
    have hlast : (c :: breaks).getLast?.any isBreak = true := by
      rw [List.getLast?_eq_some_getLast (List.cons_ne_nil c breaks)]
      exact hbreaks _ (List.getLast_mem _)
    rw [lastBreak_append (List.cons_ne_nil c breaks), lastBreak, hlast]
    simp

/-- A line of a block, with the breaks behind it and the indentation behind these. -/
theorem blockLines_next {c : Char} (hline : ∀ d ∈ line, isBreak d = false)
    (hbreaks : Breaks (c :: breaks)) (hw : ∀ d ∈ c :: breaks, isWritable d = true)
    (h : Indented n column rest) (fuel i l : Nat) (b : BlockText) :
    ∃ i' l' blank, blockLines true n (fuel + 1) b
      ⟨line ++ c :: (breaks ++ (indentation column ++ rest)), i, l, n⟩ =
        blockLines true n fuel ⟨b.text ++ (b.last ++ b.breaks) ++ line, [c], breaks, blank⟩
          ⟨rest, i', l', column⟩ := by
  obtain ⟨hb, hbreaks⟩ := List.forall_mem_cons.1 hbreaks
  obtain ⟨hc, hw⟩ := List.forall_mem_cons.1 hw
  obtain ⟨blank, hstep⟩ := blockLines_line hline hb hc fuel i l b
    (breaks ++ (indentation column ++ rest))
  obtain ⟨w, i', l', hread⟩ :=
    blockBreaks_breaks hbreaks hw h (length_breaks_lt breaks rest column) 0
      (i + line.length + 1) (l + 1) []
  refine ⟨i', l', blank, ?_⟩
  rw [hstep, hread]
  rfl

/-- The last line of a block, with the breaks at its end. -/
theorem readsLines_last (hcol : column < n) (hr : Solid rest) (hne : line ≠ [])
    (hline : ∀ c ∈ line, isBreak c = false) (hbreaks : Breaks breaks)
    (hw : ∀ c ∈ breaks, isWritable c = true) :
    ReadsLines n column (line ++ breaks) rest := by
  refine ⟨line, breaks, ⟨rfl, fun c hc => hline c (List.mem_of_getLast? hc), hne, hbreaks⟩,
    fun fuel b i l hf => ?_⟩
  rw [linesOf_last hne hline hbreaks, List.append_assoc, List.cons_append] at hf ⊢
  have hbreaks' : Breaks (breaks.headD '\n' :: breaks.tail) := by
    cases breaks with
    | nil => simp [Breaks, isBreak]
    | cons c breaks => exact hbreaks
  have hw' : ∀ c ∈ breaks.headD '\n' :: breaks.tail, isWritable c = true := by
    cases breaks with
    | nil => simp [isWritable]
    | cons c breaks => exact hw
  obtain ⟨fuel, rfl⟩ : ∃ f, fuel = f + 1 + 1 := by
    simp only [List.length_append, List.length_cons] at hf
    exact ⟨fuel - 2, by omega⟩
  obtain ⟨i', l', blank, hread⟩ :=
    blockLines_next hline hbreaks' hw' (.inr ⟨hcol, hr⟩) (fuel + 1) i l b
  refine ⟨i', l', blank, ?_⟩
  rw [hread, blockLines_end (Nat.ne_of_lt hcol)]

/-- A line before others. -/
theorem readsLines_cons {c : Char} (hline : ∀ c ∈ line, isBreak c = false)
    (hbreaks : Breaks (c :: breaks)) (hw : ∀ d ∈ c :: breaks, isWritable d = true)
    (hne : more ≠ []) (hmore : ∀ c ∈ more.head?, isBreak c = false)
    (h : ReadsLines n column more rest) :
    ReadsLines n column (line ++ (c :: breaks ++ more)) rest := by
  obtain ⟨core, ending, ⟨rfl, hlast, hcore, hending⟩, hread⟩ := h
  refine ⟨line ++ (c :: breaks ++ core), ending, ⟨by simp, ?_, by simp, hending⟩,
    fun fuel b i l hf => ?_⟩
  · intro d hd
    rw [List.getLast?_append, List.getLast?_append] at hd
    obtain ⟨e, he⟩ := Option.isSome_iff_exists.1 (List.getLast?_isSome.2 hcore)
    rw [he] at hd hlast
    cases hd
    exact hlast _ rfl
  · have hlines : linesOf n (line ++ (c :: breaks ++ (core ++ ending))) =
        line ++ (c :: breaks ++ (indentation n ++ linesOf n (core ++ ending))) := by
      rw [linesOf_line hline, linesOf, indented_breaks hbreaks, ← indented_true hne hmore]
      rfl
    rw [hlines, lastBreak_append (by simp), lastBreak_append hne] at hf ⊢
    let next := linesOf n (core ++ ending) ++ lastBreak (core ++ ending) ++
      (indentation column ++ rest)
    have hnext : ∀ d ∈ next.head?, isBreak d = false := by
      obtain ⟨d, core, rfl⟩ := List.exists_cons_of_ne_nil hcore
      have hd := hmore d rfl
      simp [next, linesOf, indented, hd]
    have hsplit : line ++ (c :: breaks ++ (indentation n ++ linesOf n (core ++ ending))) ++
        lastBreak (core ++ ending) ++ (indentation column ++ rest) =
          line ++ c :: (breaks ++ (indentation n ++ next)) := by
      simp [next]
    rw [hsplit] at hf ⊢
    obtain ⟨fuel, rfl⟩ := Nat.exists_eq_succ_of_ne_zero (Nat.ne_zero_of_lt hf)
    obtain ⟨i₁, l₁, blank₁, hstep⟩ :=
      blockLines_next hline hbreaks hw (.inl ⟨rfl, hnext⟩) fuel i l b
    have hlen : next.length < fuel := by
      simp only [List.length_append, List.length_cons] at hf
      omega
    obtain ⟨i', l', blank, hend⟩ := hread fuel _ i₁ l₁ hlen
    refine ⟨i', l', blank, ?_⟩
    rw [hstep, hend]
    simp

/-- The lines of a block are read one at a time. -/
theorem readsLines (hcol : column < n) (hr : Solid rest) (hw : ∀ c ∈ cs, isWritable c = true)
    (hne : cs ≠ []) (hhead : ∀ c ∈ cs.head?, isBreak c = false) : ReadsLines n column cs rest := by
  induction hm : cs.length using Nat.strongRecOn generalizing cs with
  | _ m ih =>
  subst hm
  obtain ⟨line, breaks, more, rfl, hline, hbreaks, hmore, hbefore⟩ := exists_line cs
  simp only [List.forall_mem_append] at hw
  obtain ⟨-, hwbreaks, hwmore⟩ := hw
  by_cases hmne : more = []
  · subst hmne
    rw [List.append_nil] at hne hhead ⊢
    refine readsLines_last hcol hr ?_ hline hbreaks hwbreaks
    rintro rfl
    obtain ⟨c, breaks, rfl⟩ := List.exists_cons_of_ne_nil hne
    cases (hbreaks c (List.mem_cons_self ..)).symm.trans (hhead c rfl)
  · obtain ⟨c, breaks, rfl⟩ := List.exists_cons_of_ne_nil (hbefore hmne)
    refine readsLines_cons hline hbreaks hwbreaks hmne hmore
      (ih more.length ?_ hwmore hmne hmore rfl)
    simp
    omega

/-! ## The marks of a block -/

theorem chomping_concat (cs : List Char) {a b : Char} :
    chomping (cs ++ [b, a]) =
      if isBreak a then if isBreak b then ['+'] else [] else ['-'] := by
  simp [chomping]

theorem exists_eq_append_pair (a b : Char) (cs : List Char) :
    ∃ init d e, a :: b :: cs = init ++ [d, e] := by
  induction cs generalizing a b with
  | nil => exact ⟨[], a, b, rfl⟩
  | cons c cs ih =>
    obtain ⟨init, d, e, h⟩ := ih b c
    exact ⟨a :: init, d, e, by rw [h, List.cons_append]⟩

/-- The mark tells how many of the breaks at the end belong to the text. -/
theorem chomping_append (front : List Char) {core ending : List Char} (hcore : core ≠ [])
    (hlast : ∀ c ∈ core.getLast?, isBreak c = false) (hending : Breaks ending) :
    ∃ chomp : Chomping, chomping (front ++ (core ++ ending)) = chomp.mark ∧
      ∀ text blank, chomp.apply ⟨text, [ending.headD '\n'], ending.tail, blank⟩ =
        text ++ ending := by
  obtain ⟨init, c, rfl⟩ : ∃ init c, core = init ++ [c] :=
    ⟨_, _, (List.dropLast_concat_getLast hcore).symm⟩
  have hc : isBreak c = false := hlast c (by simp)
  rcases ending with _ | ⟨a, _ | ⟨b, ending⟩⟩
  · refine ⟨.strip, ?_, fun text blank => by simp [Chomping.apply]⟩
    rcases (front ++ init).eq_nil_or_concat with hnil | ⟨front', d, hfront⟩
    · rw [List.append_nil, ← List.append_assoc, hnil]
      simp [chomping, hc, Chomping.mark]
    · rw [List.append_nil, ← List.append_assoc, hfront, List.concat_eq_append, List.append_assoc]
      rw [List.singleton_append, chomping_concat, if_neg (by simp [hc])]
      rfl
  · refine ⟨.clip, ?_, fun text blank => by simp [Chomping.apply]⟩
    rw [List.append_assoc, ← List.append_assoc, List.singleton_append, chomping_concat,
      if_pos (hending a (List.mem_cons_self ..)), if_neg (by simp [hc])]
    rfl
  · refine ⟨.keep, ?_, fun text blank => by simp [Chomping.apply]⟩
    obtain ⟨init', d, e, hend⟩ := exists_eq_append_pair a b ending
    rw [hend] at hending ⊢
    rw [← List.append_assoc, ← List.append_assoc, chomping_concat,
      if_pos (hending e (by simp)), if_pos (hending d (by simp))]
    rfl

theorem chomping_breaks (hne : breaks ≠ []) (h : Breaks breaks) :
    chomping breaks = Chomping.keep.mark := by
  rcases breaks with _ | ⟨a, _ | ⟨b, breaks⟩⟩
  · exact (hne rfl).elim
  · simp [chomping, h a (List.mem_cons_self ..), Chomping.mark]
  · obtain ⟨init, d, e, hend⟩ := exists_eq_append_pair a b breaks
    rw [hend] at h ⊢
    rw [chomping_concat, if_pos (h e (by simp)), if_pos (h d (by simp))]
    rfl

theorem blockHeader_marks (hint : Bool) (chomp : Chomping) (i l k : Nat) (rest : List Char) :
    ∃ i' k', blockHeader ⟨(if hint then ['2'] else []) ++ chomp.mark ++ '\n' :: rest, i, l, k⟩ =
      some (chomp, if hint then some 2 else none, ⟨'\n' :: rest, i', l, k'⟩) := by
  let count := (if hint then 1 else 0) + chomp.mark.length
  refine ⟨i + count, k + count, ?_⟩
  cases hint <;> cases chomp <;>
    simp [blockHeader, Chomping.mark, Cursor.at?, Cursor.skip, count, Json.digitValue]

/-- What stands behind the marks of a block is read with the indentation that the marks or the first
line give. -/
theorem block_eq (parent i l k : Nat) (hint : Bool) (chomp : Chomping) (body : List Char) :
    ∃ i' l', block true parent
      ⟨'|' :: ((if hint then ['2'] else []) ++ chomp.mark ++ '\n' :: body), i, l, k⟩ = (do
        let known := if hint then some (parent + literalIndent) else none
        let (breaks, widest, c) ← blockBreaks known (body.length + 1) 0 [] ⟨body, i', l', 0⟩
        let indent := known.getD (max widest (max (parent + 1) 1))
        let (b, c) ← blockLines true indent (c.rest.length + 1) ⟨[], [], breaks, false⟩ c
        return (chomp.apply b, c)) := by
  obtain ⟨i', k', hheader⟩ := blockHeader_marks hint chomp (i + 1) l (k + 1) body
  refine ⟨i' + 1, l + 1, ?_⟩
  rw [block, Cursor.skip, List.tail_cons, hheader]
  have hblank :
      (⟨'\n' :: body, i', l, k'⟩ : Cursor).skipWhile isBlank = ⟨'\n' :: body, i', l, k'⟩ :=
    rfl
  have hmark : (⟨'\n' :: body, i', l, k'⟩ : Cursor).at? '#' = false := rfl
  have hline : (⟨'\n' :: body, i', l, k'⟩ : Cursor).skipLine = ⟨body, i' + 1, l + 1, 0⟩ := rfl
  have hleast : (max ((parent : Int) + 1) 1).toNat = max (parent + 1) 1 := by omega
  have hdeep : ((parent : Int) + 2).toNat = parent + literalIndent := rfl
  simp only [bind, Option.bind, hblank, hmark, hline, hleast, Bool.false_eq_true, if_false]
  cases hint <;> cases chomp <;> simp [Cursor.isBreakOrEnd, isBreak, Chomping.apply, hdeep]

/-! ## Literal blocks -/

theorem exists_breaks (cs : List Char) : ∃ breaks more, cs = breaks ++ more ∧ Breaks breaks ∧
    ∀ c ∈ more.head?, isBreak c = false := by
  induction cs with
  | nil => exact ⟨[], [], rfl, by simp [Breaks], by simp⟩
  | cons c cs ih =>
    by_cases hc : isBreak c = true
    · obtain ⟨breaks, more, rfl, hbreaks, hmore⟩ := ih
      exact ⟨c :: breaks, more, rfl, List.forall_mem_cons.2 ⟨hc, hbreaks⟩, hmore⟩
    · exact ⟨[], c :: cs, rfl, by simp [Breaks], by simpa using hc⟩

/-- Whether the marks of a block must give its indentation. -/
def needsHint (cs : List Char) : Bool := cs.head?.any fun c => isGap c || isBreak c

/-- The indentation of a block is the one of its first line, unless the marks give it. -/
theorem blockBreaks_body {next : List Char} (parent i l : Nat) (hbreaks : Breaks breaks)
    (hw : ∀ c ∈ breaks ++ more, isWritable c = true) (hmore : ∀ c ∈ more.head?, isBreak c = false)
    (hne : more ≠ []) (hnext : next.head? = more.head?)
    (hf : (breaks ++ (indentation (parent + literalIndent) ++ next)).length < fuel) :
    ∃ w i' l', blockBreaks
        (if needsHint (breaks ++ more) then some (parent + literalIndent) else none)
        fuel 0 [] ⟨breaks ++ (indentation (parent + literalIndent) ++ next), i, l, 0⟩ =
      some (breaks, w, ⟨next, i', l', parent + literalIndent⟩) ∧
      (if needsHint (breaks ++ more) then some (parent + literalIndent) else none).getD
        (max w (max (parent + 1) 1)) = parent + literalIndent := by
  simp only [List.length_append, indentation, List.length_replicate] at hf
  cases hhint : needsHint (breaks ++ more) with
  | true =>
    have hindented : Indented (parent + literalIndent) (parent + literalIndent) next :=
      .inl ⟨rfl, fun c hc => hmore c (hnext ▸ hc)⟩
    obtain ⟨w, i', l', hread⟩ := blockBreaks_breaks hbreaks
      (fun c hc => hw c (List.mem_append_left _ hc)) hindented (show _ < fuel by omega) 0 i l []
    exact ⟨w, i', l', by simpa using hread, rfl⟩
  | false =>
    -- the text starts with a line, which does not start with a blank
    obtain ⟨c, more, rfl⟩ := List.exists_cons_of_ne_nil hne
    obtain ⟨d, next, rfl⟩ : ∃ d t, next = d :: t := by
      cases next with
      | nil => cases hnext
      | cons d t => exact ⟨d, t, rfl⟩
    obtain rfl := Option.some.inj hnext
    have hbreaks' : breaks = [] := by
      cases breaks with
      | nil => rfl
      | cons e breaks => simp [needsHint, hbreaks e (List.mem_cons_self ..)] at hhint
    subst hbreaks'
    have hsolid : isSpace d = false := by
      refine isSpace_eq_false_iff.2 ⟨?_, hmore d rfl⟩
      rw [← Bool.not_eq_true]
      intro hblank
      rw [eq_of_isBlank hblank (hw d (List.mem_cons_self ..))] at hhint
      cases hhint
    refine ⟨parent + literalIndent, i + (parent + literalIndent), l, ?_, ?_⟩
    · rw [List.nil_append, if_neg Bool.false_ne_true, blockBreaks_first hsolid (by omega)]
      simp
    · simp [literalIndent]

theorem head?_linesOf (hmore : ∀ c ∈ more.head?, isBreak c = false) (hne : more ≠ [])
    (t : List Char) : (linesOf n more ++ t).head? = more.head? := by
  obtain ⟨c, more, rfl⟩ := List.exists_cons_of_ne_nil hne
  have hc := hmore c rfl
  simp [linesOf, indented, hc]

theorem literal_eq (n : Nat) (cs : List Char) :
    literal n cs = '|' :: ((if needsHint cs then ['2'] else []) ++ chomping cs ++
      '\n' :: indented n (fun c => [c]) true cs) := rfl

/-- Breaks alone are read as themselves. -/
theorem block_breaks {parent : Nat} (hcol : column < parent + literalIndent) (hr : Solid rest)
    (hbreaks : Breaks breaks) (hw : ∀ c ∈ breaks, isWritable c = true) (hne : breaks ≠ [])
    (i l k : Nat) :
    ∃ i' l', block true parent ⟨literal (parent + literalIndent) breaks ++ lastBreak breaks ++
      (indentation column ++ rest), i, l, k⟩ = some (breaks, ⟨rest, i', l', column⟩) := by
  have htext : literal (parent + literalIndent) breaks ++ lastBreak breaks ++
      (indentation column ++ rest) = '|' :: ((if true then ['2'] else []) ++
        Chomping.keep.mark ++ '\n' :: (breaks ++ (indentation column ++ rest))) := by
    have hhint : needsHint breaks = true := by
      obtain ⟨c, breaks, rfl⟩ := List.exists_cons_of_ne_nil hne
      simp [needsHint, hbreaks c (List.mem_cons_self ..)]
    have hlast : lastBreak breaks = [] := by
      rw [lastBreak, List.getLast?_eq_some_getLast hne]
      exact if_pos (hbreaks _ (List.getLast_mem hne))
    rw [literal_eq, chomping_breaks hne hbreaks, hhint, hlast, indented_of_breaks hbreaks]
    simp
  obtain ⟨i₁, l₁, hblock⟩ := block_eq parent i l k true .keep
    (breaks ++ (indentation column ++ rest))
  obtain ⟨w, i', l', hread⟩ :=
    blockBreaks_breaks hbreaks hw (.inr ⟨hcol, hr⟩) (length_breaks_lt breaks rest column) 0 i₁ l₁ []
  refine ⟨i', l', ?_⟩
  rw [htext, hblock]
  simp only [bind, Option.bind, if_true, hread]
  rw [Option.getD_some, blockLines_end (Nat.ne_of_lt hcol)]
  rfl

/-- A text with a line feed is read as itself. -/
theorem block_literal {parent : Nat} (hcol : column < parent + literalIndent) (hr : Solid rest)
    (hw : ∀ c ∈ cs, isWritable c = true) (hne : cs ≠ []) (i l k : Nat) :
    ∃ i' l', block true parent ⟨literal (parent + literalIndent) cs ++ lastBreak cs ++
      (indentation column ++ rest), i, l, k⟩ = some (cs, ⟨rest, i', l', column⟩) := by
  obtain ⟨breaks, more, rfl, hbreaks, hmore⟩ := exists_breaks cs
  by_cases hmne : more = []
  · subst hmne
    rw [List.append_nil] at hw hne ⊢
    exact block_breaks hcol hr hbreaks hw hne i l k
  obtain ⟨core, ending, hends, hread⟩ : ReadsLines (parent + literalIndent) column more rest :=
    readsLines hcol hr (fun c hc => hw c (List.mem_append_right _ hc)) hmne hmore
  obtain ⟨chomp, hchomp, happly⟩ :=
    chomping_append breaks hends.ne_nil hends.last hends.breaks
  rw [← hends.eq] at hchomp
  let next :=
    linesOf (parent + literalIndent) more ++ lastBreak more ++ (indentation column ++ rest)
  have hnext : next.head? = more.head? := by
    rw [← head?_linesOf (n := parent + literalIndent) hmore hmne
      (lastBreak more ++ (indentation column ++ rest)), ← List.append_assoc]
  have htext : literal (parent + literalIndent) (breaks ++ more) ++ lastBreak (breaks ++ more) ++
      (indentation column ++ rest) = '|' :: ((if needsHint (breaks ++ more) then ['2'] else []) ++
        chomp.mark ++ '\n' :: (breaks ++ (indentation (parent + literalIndent) ++ next))) := by
    rw [literal_eq, hchomp, indented_breaks hbreaks, Bool.true_or, indented_true hmne hmore,
      lastBreak_append hmne]
    simp [next]
  obtain ⟨i₁, l₁, hblock⟩ := block_eq parent i l k (needsHint (breaks ++ more)) chomp
    (breaks ++ (indentation (parent + literalIndent) ++ next))
  obtain ⟨w, i₂, l₂, hfirst, hindent⟩ := blockBreaks_body parent i₁ l₁ hbreaks hw hmore hmne hnext
    (Nat.lt_succ_self _)
  obtain ⟨i', l', blank, hlines⟩ :=
    hread (next.length + 1) ⟨[], [], breaks, false⟩ i₂ l₂ (Nat.lt_succ_self _)
  refine ⟨i', l', ?_⟩
  rw [htext, hblock]
  simp only [bind, Option.bind, hfirst, hindent]
  rw [hlines]
  simp only [pure, happly]
  simp [hends.eq]

end Block

end ProjectScript.Yaml
