import ProjectScript.Proofs.Yaml.Passage

/-!
# Plain scalars

A text that can be plain is read as itself (`plain_text`). It consists of words with blanks between
them (`exists_word`); the reader takes one word at a time, and the line break behind the last one
ends the scalar where the next line is not indented enough.
-/

namespace ProjectScript.Yaml

/-- Words with blanks between them and no marks that would end a plain scalar. -/
structure Words (cs : List Char) : Prop where
  ne_nil : cs ≠ []
  blanks : ∀ c ∈ cs, isSpace c = true → c = ' '
  head : cs.head? ≠ some ' '
  last : cs.getLast? ≠ some ' '
  marks : hasMark true cs = false

theorem isSpaceOrEnd_append {a : Char} (ha : isSpace a = true) (cs t : List Char) :
    Cursor.isSpaceOrEnd (cs ++ a :: t) = Cursor.isSpaceOrEnd cs := by
  cases cs with
  | nil => exact ha
  | cons c cs => rfl

theorem hasMark_cons {b : Bool} {c : Char} {cs : List Char} (h : hasMark b (c :: cs) = false) :
    ¬(c = ':' ∧ Cursor.isSpaceOrEnd cs = true) ∧ ¬(c = '#' ∧ b = true) ∧
      hasMark (isSpace c) cs = false := by
  rw [hasMark, Bool.or_eq_false_iff, Bool.or_eq_false_iff] at h
  simpa [and_assoc] using h

theorem hasMark_append {b : Bool} {cs t : List Char} {c : Char}
    (h : hasMark b (cs ++ c :: t) = false) : hasMark (isSpace c) t = false := by
  induction cs generalizing b with
  | nil => exact (hasMark_cons h).2.2
  | cons d cs ih => exact ih (hasMark_cons h).2.2

/-- A run ends before a blank, or with the line. -/
theorem exists_plainRun {b : Bool} {cs : List Char} (t : List Char) (h : hasMark b cs = false)
    (hblank : ∀ c ∈ cs, isSpace c = true → c = ' ') :
    ∃ run more, cs = run ++ more ∧ plainRun false (cs ++ '\n' :: t) = some run ∧
      (∀ c ∈ more.head?, c = ' ') ∧ (cs.head? ≠ some ' ' → cs ≠ [] → run ≠ []) := by
  induction cs generalizing b with
  | nil => exact ⟨[], [], rfl, rfl, by simp, fun _ hne => (hne rfl).elim⟩
  | cons c cs ih =>
    obtain ⟨hcolon, -, hmark⟩ := hasMark_cons h
    by_cases hc : isSpace c = true
    · have hc' := hblank c (List.mem_cons_self ..) hc
      refine ⟨[], c :: cs, rfl, ?_, ?_, fun hhead => ?_⟩
      · rw [List.cons_append, plainRun, if_pos hc]
      · rintro d hd
        rw [← Option.some.inj hd, hc']
      · rw [hc'] at hhead
        exact (hhead rfl).elim
    · obtain ⟨run, more, hcs, hrun, hmore, -⟩ :=
        ih hmark fun d hd => hblank d (List.mem_cons_of_mem c hd)
      refine ⟨c :: run, more, by rw [hcs, List.cons_append], ?_, hmore, fun _ _ => by simp⟩
      have hcolon' : ¬(c = ':' ∧ Cursor.isSpaceOrEnd (cs ++ '\n' :: t) = true) := by
        rwa [isSpaceOrEnd_append rfl]
      rw [List.cons_append, plainRun, if_neg hc, if_neg (by simp), if_neg hcolon', if_neg (by simp),
        hrun]
      rfl

/-- The blanks at the start of a text. -/
theorem exists_blanks (cs : List Char) :
    ∃ n more, cs = List.replicate n ' ' ++ more ∧ more.head? ≠ some ' ' := by
  induction cs with
  | nil => exact ⟨0, [], rfl, by simp⟩
  | cons c cs ih =>
    by_cases hc : c = ' '
    · obtain ⟨n, more, rfl, hmore⟩ := ih
      exact ⟨n + 1, more, by rw [hc, List.replicate_succ, List.cons_append], hmore⟩
    · exact ⟨0, c :: cs, rfl, by simpa using hc⟩

/-- The first word, and the blanks and words behind it. -/
theorem exists_word {cs : List Char} (t : List Char) (h : Words cs) :
    ∃ run more, cs = run ++ more ∧ run ≠ [] ∧ plainRun false (cs ++ '\n' :: t) = some run ∧
      (more = [] ∨ ∃ n words, more = List.replicate (n + 1) ' ' ++ words ∧ Words words) := by
  obtain ⟨run, more, hcs, hrun, hmore, hne⟩ := exists_plainRun t h.marks h.blanks
  refine ⟨run, more, hcs, hne h.head h.ne_nil, hrun, ?_⟩
  cases more with
  | nil => exact .inl rfl
  | cons c m =>
    obtain rfl := hmore c rfl
    obtain ⟨n, words, rfl, hhead⟩ := exists_blanks m
    have hsplit : cs = (run ++ List.replicate n ' ') ++ ' ' :: words := by
      rw [hcs, ← List.cons_append, ← List.replicate_succ, List.replicate_succ', List.append_assoc,
        List.append_assoc, List.singleton_append]
    refine .inr ⟨n, words, by rw [List.replicate_succ, List.cons_append], ?_, ?_, hhead, ?_, ?_⟩
    · rintro rfl
      refine h.last ?_
      rw [hsplit, List.getLast?_append]
      rfl
    · intro c hc
      refine h.blanks c ?_
      rw [hsplit]
      exact List.mem_append_right _ (List.mem_cons_of_mem _ hc)
    · intro hlast
      refine h.last ?_
      rw [hsplit, List.getLast?_append, List.getLast?_cons, hlast]
      rfl
    · have hmarks := h.marks
      rw [hsplit] at hmarks
      exact hasMark_append hmarks

section

variable {indent : Int} {column : Nat} {rest : List Char}

/-- The line break behind the last word ends the scalar. -/
theorem read_lineEnd {fuel i l k : Nat} (hr : Solid rest) (hf : column + 1 < fuel) :
    Gap.none.read indent fuel ⟨'\n' :: (indentation column ++ rest), i, l, k⟩ =
      some (⟨[], true, ['\n'], []⟩, ⟨rest, i + 1 + column, l + 1, column⟩) := by
  obtain ⟨fuel, rfl⟩ := Nat.exists_eq_succ_of_ne_zero (Nat.ne_zero_of_lt hf)
  rw [Gap.read_break rfl rfl rfl, indentation, Gap.read_indented rfl hr (by omega), Nat.zero_add]

theorem solid_words {cs t : List Char} (h : Words cs) : Solid (cs ++ t) := by
  obtain ⟨c, cs, rfl⟩ := List.exists_cons_of_ne_nil h.ne_nil
  rintro a ha
  cases ha
  refine Bool.eq_false_iff.2 fun hc => h.head ?_
  rw [List.head?_cons, h.blanks c (List.mem_cons_self ..) hc]

theorem not_comment {cs t : List Char} {i l k : Nat} (h : Words cs) :
    (⟨cs ++ t, i, l, k⟩ : Cursor).at? '#' = false := by
  obtain ⟨c, cs, rfl⟩ := List.exists_cons_of_ne_nil h.ne_nil
  have hc := (hasMark_cons h.marks).2.1
  simpa [Cursor.at?] using hc

variable {cs run text t : List Char} {fuel i l k : Nat} {g : Gap}

/-- A word, and what the reader does behind it. -/
theorem plain_word {more : List Char} (hk : k ≠ 0) (h : Words cs) (hcs : cs ++ t = run ++ more)
    (hne : run ≠ []) (hrun : plainRun false (cs ++ t) = some run)
    (hmore : ∃ c m, more = c :: m ∧ isSpace c = true) :
    plain false indent (fuel + 1) g text ⟨cs ++ t, i, l, k⟩ = (do
      let (gap, c) ← Gap.none.read indent (more.length + 1)
        ⟨more, i + run.length, l, k + run.length⟩
      if (c.column : Int) < indent then return ⟨text ++ g.fold ++ run, gap.broken, c⟩
      else plain false indent fuel gap (text ++ g.fold ++ run) c) := by
  obtain ⟨c, m, rfl, hc⟩ := hmore
  have hempty : run.isEmpty = false := List.isEmpty_eq_false_iff.2 hne
  have hsees : (⟨c :: m, i + run.length, l, k + run.length⟩ : Cursor).sees isSpace = true := by
    simpa [Cursor.sees] using hc
  rw [plain, atDocumentMark_of_column hk, not_comment h, if_neg (by simp), hrun, hcs]
  simp only [bind, Option.bind, hempty, skipN_append, hsees]
  simp

/-- A plain scalar is read that ends with its line; the next one starts at a column. -/
def EndsLine (r : Option Plain) (cs : List Char) (column : Nat) (rest : List Char) : Prop :=
  ∃ i l, r = some ⟨cs, true, ⟨rest, i, l, column⟩⟩

theorem EndsLine.of_eq {r : Option Plain} {cs' : List Char} (h : EndsLine r cs column rest)
    (he : cs = cs') : EndsLine r cs' column rest := he ▸ h

/-- Words are read one at a time, up to the next line. -/
theorem plain_words (hr : Solid rest) (hcol : (column : Int) < indent) (hk : indent ≤ k)
    (h : Words cs) (hf : cs.length < fuel) :
    EndsLine (plain false indent fuel g text
      ⟨cs ++ '\n' :: (indentation column ++ rest), i, l, k⟩)
      (text ++ g.fold ++ cs) column rest := by
  induction hm : cs.length using Nat.strongRecOn generalizing cs fuel g text i l k with
  | _ m ih =>
  subst hm
  obtain ⟨fuel, rfl⟩ := Nat.exists_eq_succ_of_ne_zero (Nat.ne_zero_of_lt hf)
  obtain ⟨run, more, hcs, hne, hrun, hmore⟩ := exists_word (indentation column ++ rest) h
  have hk0 : k ≠ 0 := by omega
  rcases hmore with rfl | ⟨n, words, rfl, hwords⟩
  · rw [List.append_nil] at hcs
    subst hcs
    have hlen : column + 1 < ('\n' :: (indentation column ++ rest)).length + 1 := by
      rw [List.length_cons, List.length_append, length_indentation]
      omega
    rw [plain_word hk0 h rfl hne hrun ⟨_, _, rfl, rfl⟩, read_lineEnd hr hlen]
    exact ⟨i + cs.length + 1 + column, l + 1, by simp [hcol]⟩
  · have hsplit : cs ++ '\n' :: (indentation column ++ rest) = run ++ (List.replicate (n + 1) ' ' ++
        (words ++ '\n' :: (indentation column ++ rest))) := by
      rw [hcs, List.append_assoc, List.append_assoc]
    have hlen : run.length + ((n + 1) + words.length) = cs.length := by
      simp [hcs]
    have hk' : ¬((k + run.length + (n + 1) : Nat) : Int) < indent := by omega
    rw [plain_word hk0 h hsplit hne hrun ⟨_, _, rfl, rfl⟩,
      Gap.read_blanks rfl (solid_words hwords)
        (by rw [List.length_append, List.length_replicate]; omega)]
    simp only [bind, Option.bind, if_neg hk']
    exact (ih words.length (by omega) (Int.not_lt.1 hk') hwords (by omega) rfl).of_eq
      (by simp [Gap.fold, Gap.none, hcs])

theorem words_of_fitsPlain (h : fitsPlain cs = true) (hne : cs ≠ []) : Words cs := by
  simp only [fitsPlain, fitsSingle, isSpecial, Bool.and_eq_true, Bool.not_eq_true',
    Bool.or_eq_false_iff, Bool.not_eq_false', List.all_eq_true, List.any_eq_false, bne_iff_ne] at h
  obtain ⟨⟨⟨⟨⟨⟨hw, -⟩, -⟩, hbreak⟩, hhead⟩, hlast⟩, hmark⟩ := h
  refine ⟨hne, fun c hc hspace => ?_, hhead, hlast, ?_⟩
  · rw [isSpace, Bool.or_eq_true] at hspace
    exact eq_of_isBlank (hspace.resolve_right (hbreak c hc)) (hw c hc)
  · obtain ⟨c, cs, rfl⟩ := List.exists_cons_of_ne_nil hne
    rw [hasIndicator] at hmark
    exact (Bool.or_eq_false_iff.1 hmark).2

/-- A text that can be plain is read as itself. -/
theorem plain_text (hr : Solid rest) (hcol : (column : Int) < indent) (hk : indent ≤ k)
    (h : fitsPlain cs = true) (hne : cs ≠ []) (hf : cs.length < fuel) :
    EndsLine (plain false indent fuel .none []
      ⟨cs ++ '\n' :: (indentation column ++ rest), i, l, k⟩) cs column rest :=
  plain_words hr hcol hk (words_of_fitsPlain h hne) hf

end

/-! ## Keys -/

/-- Letters, at least one. -/
def Letters (name : List Char) : Prop := name ≠ [] ∧ ∀ c ∈ name, c.isAlpha = true

instance (name : List Char) : Decidable (Letters name) :=
  decidable_of_iff (name ≠ [] ∧ name.all Char.isAlpha = true)
    (and_congr_right fun _ => List.all_eq_true)

theorem isSpace_of_isAlpha {c : Char} (hc : c.isAlpha = true) : isSpace c = false := by
  refine Bool.eq_false_iff.2 fun h => ?_
  simp only [isSpace, isBlank, isBreak, Bool.or_eq_true, decide_eq_true_eq] at h
  rcases h with (rfl | rfl) | (((rfl | rfl) | rfl) | rfl) | rfl <;> exact absurd hc (by decide)

theorem plainRun_key {name rest : List Char} (h : ∀ c ∈ name, c.isAlpha = true)
    (hr : Cursor.isSpaceOrEnd rest = true) : plainRun false (name ++ ':' :: rest) = some name := by
  induction name with
  | nil => simp [plainRun, isSpace, isBlank, isBreak, hr]
  | cons c name ih =>
    have hc := h c (List.mem_cons_self ..)
    have hcolon : c ≠ ':' := by
      rintro rfl
      exact absurd hc (by decide)
    rw [List.cons_append, plainRun, isSpace_of_isAlpha hc,
      ih fun d hd => h d (List.mem_cons_of_mem c hd)]
    simp [hcolon]

/-- No document ends before a key. -/
theorem atDocumentMark_key {name rest : List Char} {i l k : Nat} (h : Letters name) :
    (⟨name ++ ':' :: rest, i, l, k⟩ : Cursor).atDocumentMark = false := by
  obtain ⟨c, name, rfl⟩ := List.exists_cons_of_ne_nil h.1
  have hmark : c ≠ '-' ∧ c ≠ '.' := by
    constructor <;> rintro rfl <;> exact absurd (h.2 _ (List.mem_cons_self ..)) (by decide)
  simp only [Cursor.atDocumentMark, Cursor.atMarks]
  split <;> simp_all

/-- A key is read up to its colon. -/
theorem plain_key {name rest : List Char} {indent : Int} {fuel i l k : Nat} (h : Letters name)
    (hr : Cursor.isSpaceOrEnd rest = true) :
    plain false indent (fuel + 1) .none [] ⟨name ++ ':' :: rest, i, l, k⟩ =
      some ⟨name, false, ⟨':' :: rest, i + name.length, l, k + name.length⟩⟩ := by
  have hdoc : (⟨name ++ ':' :: rest, i, l, k⟩ : Cursor).atDocumentMark = false :=
    atDocumentMark_key h
  obtain ⟨c, name, rfl⟩ := List.exists_cons_of_ne_nil h.1
  have hmark : c ≠ '#' := by
    rintro rfl
    exact absurd (h.2 _ (List.mem_cons_self ..)) (by decide)
  have hcomment : (⟨c :: name ++ ':' :: rest, i, l, k⟩ : Cursor).at? '#' = false := by
    simp [Cursor.at?, hmark]
  have hsees : (⟨':' :: rest, i + (c :: name).length, l, k + (c :: name).length⟩ : Cursor).sees
      isSpace = false := rfl
  rw [plain, hdoc, hcomment, if_neg (by simp), plainRun_key h.2 hr]
  simp only [bind, Option.bind, skipN_append, hsees]
  simp [Gap.none, Gap.fold]

end ProjectScript.Yaml
