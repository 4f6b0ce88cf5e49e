import ProjectScript.Template.Grammar

/-!
# The words of the grammars

What a reference of each of the four kinds is, said without reading one: a *word* is the whole text
of a reference, related to the reference that it writes.

* `EnvWord`: `$` and in braces a name of letters, digits and underscores that opens with no digit;
* `ParamWord`: `@` and in braces a name of letters, digits, underscores, dots and dashes;
* `ConfigWord`: `#` and in braces any text without a closing brace;
* `CallWord`: `_` and in braces a name as of a parameter and in parentheses a text on one line, up
  to the first `)` with a closing brace behind it.

A grammar reads a reference off the front of a text exactly when a word of it stands there
(`Grammar.Denotes`), one lemma for each grammar (`env_denotes`, `param_denotes`, `config_denotes`,
`call_denotes`). The words of each kind open with a character of their own (`sigils`) and a brace.
-/

namespace ProjectScript.Template

/-- A letter without a mark. -/
def IsLetter (c : Char) : Prop := 'A' ≤ c ∧ c ≤ 'Z' ∨ 'a' ≤ c ∧ c ≤ 'z'

/-- A decimal digit. -/
def IsDigit (c : Char) : Prop := '0' ≤ c ∧ c ≤ '9'

/-- A character of the name of a parameter or a function. -/
def IsNamePart (c : Char) : Prop := IsLetter c ∨ IsDigit c ∨ c = '_' ∨ c = '.' ∨ c = '-'

/-- The text of a reference to a variable. -/
inductive EnvWord : List Char → String → Prop
  | intro {c : Char} {name : List Char} : IsLetter c ∨ c = '_' →
      (∀ d ∈ name, IsLetter d ∨ IsDigit d ∨ d = '_') →
      EnvWord ('$' :: '\x7b' :: c :: name ++ ['\x7d']) (String.ofList (c :: name))

/-- The text of a reference to a parameter. -/
inductive ParamWord : List Char → String → Prop
  | intro {name : List Char} : name ≠ [] → (∀ c ∈ name, IsNamePart c) →
      ParamWord ('@' :: '\x7b' :: name ++ ['\x7d']) (String.ofList name)

/-- The text of a reference to the configuration. -/
inductive ConfigWord : List Char → String → Prop
  | intro {path : List Char} : path ≠ [] → '\x7d' ∉ path →
      ConfigWord ('#' :: '\x7b' :: path ++ ['\x7d']) (String.ofList path)

/-- The text of a function call. -/
inductive CallWord : List Char → Call → Prop
  | intro {name args : List Char} : name ≠ [] → (∀ c ∈ name, IsNamePart c) → '\n' ∉ args →
      ¬ [')', '\x7d'] <:+: args →
      CallWord ('_' :: '\x7b' :: name ++ '(' :: args ++ [')', '\x7d'])
        ⟨String.ofList name, String.ofList args⟩

/-- A grammar reads what the words of a kind write. -/
def Grammar.Denotes {ρ : Type} (g : Grammar ρ) (Word : List Char → ρ → Prop) : Prop :=
  ∀ {cs r rest}, g.read cs = some (r, rest) ↔ ∃ w, Word w r ∧ cs = w ++ rest

/-! ## Classes of characters -/

theorem isLetter_iff {c : Char} : c.isAlpha = true ↔ IsLetter c := by
  have hupper : c.isUpper = true ↔ 'A' ≤ c ∧ c ≤ 'Z' := decide_eq_true_iff
  have hlower : c.isLower = true ↔ 'a' ≤ c ∧ c ≤ 'z' :=
    Bool.and_eq_true_iff.trans (and_congr decide_eq_true_iff decide_eq_true_iff)
  exact Bool.or_eq_true_iff.trans (or_congr hupper hlower)

theorem isDigit_iff {c : Char} : c.isDigit = true ↔ IsDigit c := by
  simp only [Char.isDigit, IsDigit, Bool.and_eq_true, decide_eq_true_eq]
  exact Iff.rfl

theorem isWordStart_iff {c : Char} : isWordStart c = true ↔ IsLetter c ∨ c = '_' := by
  rw [isWordStart, Bool.or_eq_true, isLetter_iff, beq_iff_eq]

theorem isWordChar_iff {c : Char} : isWordChar c = true ↔ IsLetter c ∨ IsDigit c ∨ c = '_' := by
  rw [isWordChar, Char.isAlphanum, Bool.or_eq_true, Bool.or_eq_true, isLetter_iff, isDigit_iff,
    beq_iff_eq, or_assoc]

theorem isNameChar_iff {c : Char} : isNameChar c = true ↔ IsNamePart c := by
  rw [isNameChar, Char.isAlphanum, IsNamePart]
  simp only [Bool.or_eq_true, isLetter_iff, isDigit_iff, beq_iff_eq, or_assoc]

/-! ## Runs of characters -/

/-- A text starts with a run of characters that `p` accepts and goes on with one that it does not
accept. -/
theorem takeWhile_dropWhile_iff {p : Char → Bool} {d : Char} (hd : p d = false)
    {cs run rest : List Char} :
    cs.takeWhile p = run ∧ cs.dropWhile p = d :: rest ↔
      (∀ c ∈ run, p c = true) ∧ cs = run ++ d :: rest := by
  constructor
  · rintro ⟨rfl, hrest⟩
    refine ⟨fun c hc => List.all_eq_true.1 List.all_takeWhile c hc, ?_⟩
    rw [← hrest, List.takeWhile_append_dropWhile]
  · rintro ⟨hrun, rfl⟩
    rw [List.takeWhile_append_of_pos hrun, List.dropWhile_append_of_pos hrun]
    simp [hd]

theorem readBraced_eq_some_iff {p : Char → Bool} (hp : p '\x7d' = false)
    {cs w rest : List Char} :
    readBraced p cs = some (w, rest) ↔
      w ≠ [] ∧ (∀ c ∈ w, p c = true) ∧ cs = w ++ '\x7d' :: rest := by
  rw [← takeWhile_dropWhile_iff hp, readBraced]
  constructor
  · intro h
    split at h
    · rename_i ht hd
      obtain ⟨rfl, rfl⟩ := Prod.mk.inj (Option.some.inj h)
      exact ⟨List.cons_ne_nil _ _, ht, hd⟩
    · cases h
  · rintro ⟨hne, ht, hd⟩
    obtain ⟨c, name, rfl⟩ := List.exists_cons_of_ne_nil hne
    rw [ht, hd]
    rfl

/-- The arguments of a call end at the first `)` with a closing brace behind it. -/
theorem readArgs_eq_some_iff {cs w rest : List Char} :
    readArgs cs = some (w, rest) ↔
      '\n' ∉ w ∧ ¬ [')', '\x7d'] <:+: w ∧ cs = w ++ ')' :: '\x7d' :: rest := by
  fun_induction readArgs cs generalizing w with
  | case1 => simp
  | case2 rest' =>
    constructor
    · intro h
      obtain ⟨rfl, rfl⟩ := Prod.mk.inj (Option.some.inj h)
      exact ⟨by simp, by simp, rfl⟩
    · rintro ⟨-, hw, heq⟩
      -- a longer text of arguments would hold the end that stands at its front
      rcases w with _ | ⟨a, _ | ⟨b, w⟩⟩
      · obtain rfl : rest' = rest := by simpa using heq
        rfl
      · simp at heq
      · simp only [List.cons_append, List.cons.injEq] at heq
        obtain ⟨rfl, rfl, -⟩ := heq
        exact (hw ⟨[], w, rfl⟩).elim
  | case3 cs _ =>
    simp only [reduceCtorEq, false_iff, not_and]
    rintro hw - heq
    rcases w with _ | ⟨a, w⟩
    · cases heq
    · obtain ⟨rfl, -⟩ := List.cons.inj heq
      exact hw List.mem_cons_self
  | case4 c cs hend hc ih =>
    rw [Option.map_eq_some_iff]
    constructor
    · rintro ⟨⟨w', rest'⟩, hr, heq⟩
      obtain ⟨rfl, rfl⟩ := Prod.mk.inj heq
      obtain ⟨hn, hw, rfl⟩ := ih.1 hr
      refine ⟨by simp [hn, Ne.symm hc], ?_, rfl⟩
      intro hinfix
      rcases List.infix_cons_iff.1 hinfix with ⟨t, ht⟩ | hinfix
      · obtain ⟨rfl, rfl⟩ := List.cons.inj ht
        exact hend (t ++ ')' :: '\x7d' :: rest') rfl rfl
      · exact hw hinfix
    · rintro ⟨hn, hw, heq⟩
      rcases w with _ | ⟨a, w⟩
      · obtain ⟨rfl, rfl⟩ := List.cons.inj heq
        exact (hend rest rfl rfl).elim
      · obtain ⟨rfl, rfl⟩ := List.cons.inj heq
        refine ⟨(w, rest), ih.2 ⟨?_, ?_, rfl⟩, rfl⟩
        · exact fun h => hn (List.mem_cons_of_mem _ h)
        · exact fun h => hw (h.trans (List.suffix_cons _ _).isInfix)

/-! ## The grammars -/

theorem env_denotes : env.Denotes EnvWord := by
  intro cs r rest
  change readEnv cs = some (r, rest) ↔ _
  constructor
  · intro h
    unfold readEnv at h
    split at h
    · rename_i c cs
      split at h
      · rename_i hc
        obtain ⟨⟨w, rest'⟩, hw, heq⟩ := Option.map_eq_some_iff.1 h
        obtain ⟨rfl, rfl⟩ := Prod.mk.inj heq
        obtain ⟨hne, hall, hcs⟩ := (readBraced_eq_some_iff (by decide)).1 hw
        obtain ⟨a, name, rfl⟩ := List.exists_cons_of_ne_nil hne
        obtain ⟨rfl, rfl⟩ := List.cons.inj hcs
        refine ⟨_, .intro (isWordStart_iff.1 hc) fun d hd => isWordChar_iff.1 (hall d ?_), ?_⟩
        · exact List.mem_cons_of_mem _ hd
        · simp
      · cases h
    · cases h
  · rintro ⟨w, ⟨hc, hname⟩, rfl⟩
    rename_i c name
    have hall : ∀ d ∈ c :: name, isWordChar d = true := by
      intro d hd
      rcases List.mem_cons.1 hd with rfl | hd
      · exact isWordChar_iff.2 (hc.imp_right .inr)
      · exact isWordChar_iff.2 (hname d hd)
    have hread : readBraced isWordChar (c :: name ++ '\x7d' :: rest) = some (c :: name, rest) :=
      (readBraced_eq_some_iff (by decide)).2 ⟨List.cons_ne_nil _ _, hall, rfl⟩
    simp only [List.cons_append, List.append_assoc, List.nil_append] at hread ⊢
    rw [readEnv, if_pos (isWordStart_iff.2 hc), hread]
    rfl

theorem param_denotes : param.Denotes ParamWord := by
  intro cs r rest
  change readParam cs = some (r, rest) ↔ _
  constructor
  · intro h
    unfold readParam at h
    split at h
    · obtain ⟨⟨w, rest'⟩, hw, heq⟩ := Option.map_eq_some_iff.1 h
      obtain ⟨rfl, rfl⟩ := Prod.mk.inj heq
      obtain ⟨hne, hall, rfl⟩ := (readBraced_eq_some_iff (by decide)).1 hw
      exact ⟨_, .intro hne fun c hc => isNameChar_iff.1 (hall c hc), by simp⟩
    · cases h
  · rintro ⟨w, ⟨hne, hall⟩, rfl⟩
    rename_i name
    have hread : readBraced isNameChar (name ++ '\x7d' :: rest) = some (name, rest) :=
      (readBraced_eq_some_iff (by decide)).2
        ⟨hne, fun c hc => isNameChar_iff.2 (hall c hc), rfl⟩
    simp only [List.cons_append, List.append_assoc, List.nil_append]
    rw [readParam, hread]
    rfl

theorem config_denotes : config.Denotes ConfigWord := by
  intro cs r rest
  change readConfig cs = some (r, rest) ↔ _
  constructor
  · intro h
    unfold readConfig at h
    split at h
    · obtain ⟨⟨w, rest'⟩, hw, heq⟩ := Option.map_eq_some_iff.1 h
      obtain ⟨rfl, rfl⟩ := Prod.mk.inj heq
      obtain ⟨hne, hall, rfl⟩ := (readBraced_eq_some_iff (by decide)).1 hw
      exact ⟨_, .intro hne fun hc => by simpa using hall _ hc, by simp⟩
    · cases h
  · rintro ⟨w, ⟨hne, hbrace⟩, rfl⟩
    rename_i path
    have hall : ∀ c ∈ path, decide (c ≠ '\x7d') = true := fun c hc =>
      decide_eq_true fun he => hbrace (he ▸ hc)
    have hread : readBraced (· ≠ '\x7d') (path ++ '\x7d' :: rest) = some (path, rest) :=
      (readBraced_eq_some_iff (by decide)).2 ⟨hne, hall, rfl⟩
    simp only [List.cons_append, List.append_assoc, List.nil_append]
    rw [readConfig, hread]
    rfl

theorem call_denotes : call.Denotes CallWord := by
  intro cs r rest
  change readCall cs = some (r, rest) ↔ _
  constructor
  · intro h
    unfold readCall at h
    split at h
    · rename_i cs
      split at h
      · rename_i c name cs' ht hd
        obtain ⟨⟨args, rest'⟩, hargs, heq⟩ := Option.map_eq_some_iff.1 h
        obtain ⟨rfl, rfl⟩ := Prod.mk.inj heq
        obtain ⟨hall, rfl⟩ := (takeWhile_dropWhile_iff (by decide)).1 ⟨ht, hd⟩
        obtain ⟨hn, hinfix, rfl⟩ := readArgs_eq_some_iff.1 hargs
        refine ⟨_, .intro (List.cons_ne_nil _ _) (fun c hc => isNameChar_iff.1 (hall c hc)) hn
          hinfix, by simp⟩
      · cases h
    · cases h
  · rintro ⟨w, ⟨hne, hall, hn, hinfix⟩, rfl⟩
    rename_i name args
    obtain ⟨c, name, rfl⟩ := List.exists_cons_of_ne_nil hne
    have hname : ∀ d ∈ c :: name, isNameChar d = true := fun d hd => isNameChar_iff.2 (hall d hd)
    have hsplit : c :: name ++ '(' :: (args ++ ')' :: '\x7d' :: rest) =
        (c :: name) ++ '(' :: (args ++ ')' :: '\x7d' :: rest) := rfl
    obtain ⟨ht, hd⟩ := (takeWhile_dropWhile_iff (by decide)).2 ⟨hname, hsplit⟩
    have hargs : readArgs (args ++ ')' :: '\x7d' :: rest) = some (args, rest) :=
      readArgs_eq_some_iff.2 ⟨hn, hinfix, rfl⟩
    simp only [List.cons_append, List.append_assoc, List.nil_append] at ht hd ⊢
    rw [readCall, ht, hd]
    change (readArgs (args ++ ')' :: '\x7d' :: rest)).map _ = _
    rw [hargs]
    rfl

/-! ## How words open -/

/-- The characters that open references of the four kinds, each with a brace behind it. -/
def sigils : List Char := ['$', '@', '#', '_']

theorem EnvWord.opens {w : List Char} {n : String} (h : EnvWord w n) : ['$', '\x7b'] <+: w := by
  cases h
  exact ⟨_, rfl⟩

theorem ParamWord.opens {w : List Char} {n : String} (h : ParamWord w n) :
    ['@', '\x7b'] <+: w := by
  cases h
  exact ⟨_, rfl⟩

theorem ConfigWord.opens {w : List Char} {p : String} (h : ConfigWord w p) :
    ['#', '\x7b'] <+: w := by
  cases h
  exact ⟨_, rfl⟩

theorem CallWord.opens {w : List Char} {c : Call} (h : CallWord w c) : ['_', '\x7b'] <+: w := by
  cases h
  exact ⟨_, rfl⟩

end ProjectScript.Template
