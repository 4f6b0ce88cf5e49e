import ProjectScript.Proofs.Dialect.Reading

/-!
# Literals and typographic quotes

PowerShell takes four typographic characters for quotes too (`Quote.isQuote`): any quote delimits a
literal, and of two in a row the second one belongs to the text. A quoted text has its apostrophes
doubled, but no other quote. A reader takes two quotes for each one of the text that it finds
(`length_of_literalBody`), so it finds the text that was quoted only if apostrophes are all the
quotes in it (`literal?_powershell_iff`).

A typographic quote without another quote behind it closes the literal, and what follows it in the
text stands outside (`literalBody_closed_early`).
-/

namespace ProjectScript

namespace Quote

/-- A character that PowerShell takes for an apostrophe: a typographic quote, single, at either
side, low or turned. -/
def isTypographic (c : Char) : Bool :=
  c = '\u2018' || c = '\u2019' || c = '\u201A' || c = '\u201B'

/-- A quote of a literal of PowerShell. -/
def isQuote (c : Char) : Bool := c = '\'' || isTypographic c

/-- No typographic quote stands in the text. -/
def IsStraight (s : String) : Prop := ∀ c ∈ s.toList, isTypographic c = false

instance (s : String) : Decidable (IsStraight s) :=
  decidable_of_iff ((s.toList.all fun c => !isTypographic c) = true) (by simp [IsStraight])

section

variable {p : Char → Bool} {l s rest : List Char}

/-- A reader takes two quotes for each quote of the text, and one to close the literal. -/
theorem length_of_literalBody (h : literalBody p l = some (s, rest)) :
    l.length = s.length + s.countP p + 1 + rest.length := by
  fun_induction literalBody p l generalizing s rest with
  | case1 => cases h
  | case2 c hc =>
    cases h
    rfl
  | case3 c hc => cases h
  | case4 c d l hc hd ih =>
    obtain ⟨⟨s', rest'⟩, hread, heq⟩ := Option.map_eq_some_iff.1 h
    cases heq
    have hlength := ih hread
    rw [List.countP_cons_of_pos hd]
    simp only [List.length_cons]
    omega
  | case5 c d l hc hd =>
    cases h
    simp only [List.length_cons, List.length_nil, List.countP_nil]
    omega
  | case6 c d l hc ih =>
    obtain ⟨⟨s', rest'⟩, hread, heq⟩ := Option.map_eq_some_iff.1 h
    cases heq
    have hlength := ih hread
    rw [List.countP_cons_of_neg hc]
    simp only [List.length_cons] at hlength ⊢
    omega

theorem length_powershellBody (s : List Char) :
    (powershellBody s).length = s.length + s.countP (· = '\'') := by
  induction s with
  | nil => rfl
  | cons c s ih =>
    rw [powershellBody]
    by_cases hc : c = '\''
    · rw [if_pos hc, List.countP_cons_of_pos (by simpa using hc)]
      simp only [List.length_cons, ih]
      omega
    · rw [if_neg hc, List.countP_cons_of_neg (by simpa using hc)]
      simp only [List.length_cons, ih]
      omega

/-- Where a wider class has no more members, it has no others. -/
theorem forall_of_countP_eq {q : Char → Bool} (hpq : ∀ c, q c = true → p c = true)
    (h : s.countP p = s.countP q) : ∀ c ∈ s, p c = true → q c = true := by
  have hboth : (s.filter q).countP p = s.countP q := by
    rw [List.countP_filter]
    refine List.countP_congr fun c _ => ?_
    rw [Bool.and_eq_true]
    exact ⟨And.right, fun hq => ⟨hpq c hq, hq⟩⟩
  have hsum := List.countP_eq_countP_filter_add s p q
  have hnone : (s.filter fun c => !q c).countP p = 0 := by omega
  intro c hc hp
  cases hq : q c with
  | true => rfl
  | false =>
    have hmem : c ∈ s.filter fun c => !q c := List.mem_filter.2 ⟨hc, by rw [hq]; rfl⟩
    exact (List.countP_eq_zero.1 hnone c hmem hp).elim

/-- A quoted text is read back exactly if apostrophes are the only quotes in it. -/
theorem literal?_powershell_iff (hquote : p '\'' = true) (s : String) :
    literal? p (powershell s).toList = some s ↔ ∀ c ∈ s.toList, p c = true → c = '\'' := by
  refine ⟨fun h => ?_, literal?_powershell_of hquote⟩
  rw [powershell, String.toList_ofList, powershellChars, literal?, if_pos hquote] at h
  split at h
  · rename_i text hread
    have htext : text = s.toList := by
      rw [← Option.some.inj h, String.toList_ofList]
    have hlength := length_of_literalBody hread
    rw [htext, List.length_append, length_powershellBody, List.length_singleton,
      List.length_nil] at hlength
    have hcount : s.toList.countP p = s.toList.countP (· = '\'') := by omega
    have hapostrophe : ∀ c, decide (c = '\'') = true → p c = true := by
      intro c hc
      rw [of_decide_eq_true hc, hquote]
    exact fun c hc hp => of_decide_eq_true (forall_of_countP_eq hapostrophe hcount c hc hp)
  · cases h

/-- Behind a quote that is not doubled, the rest of the text stands outside the literal. -/
theorem literalBody_closed_early {a b : List Char} {q d : Char} (ha : ∀ c ∈ a, p c = false)
    (hq : p q = true) (hne : q ≠ '\'') (hd : p d = false) (hquote : p '\'' = true) :
    literalBody p (powershellBody (a ++ q :: d :: b) ++ ['\'']) =
      some (a, powershellBody (d :: b) ++ ['\'']) := by
  have hplain : ∀ c, p c = false → c ≠ '\'' := by
    rintro c hc rfl
    rw [hquote] at hc
    cases hc
  induction a with
  | nil =>
    rw [List.nil_append, powershellBody, if_neg hne]
    refine literalBody_end hq ?_
    rw [powershellBody, if_neg (hplain d hd)]
    rintro c ⟨⟩
    exact hd
  | cons c a ih =>
    obtain ⟨hc, ha⟩ := List.forall_mem_cons.1 ha
    rw [List.cons_append, powershellBody, if_neg (hplain c hc), List.cons_append,
      literalBody_cons hc, ih ha]
    rfl

end

/-- A quoted text is read back exactly if no typographic quote stands in it. -/
theorem literal?_isQuote_iff (s : String) :
    literal? isQuote (powershell s).toList = some s ↔ IsStraight s := by
  rw [literal?_powershell_iff (by decide)]
  refine forall₂_congr fun c _ => ⟨fun h => ?_, fun h hc => ?_⟩
  · cases ht : isTypographic c with
    | false => rfl
    | true =>
      obtain rfl := h (by rw [isQuote, ht, Bool.or_true])
      revert ht
      decide
  · rw [isQuote, h, Bool.or_false] at hc
    exact of_decide_eq_true hc

end Quote

namespace Dialect

/-- **Literals are read back unless a typographic quote stands in them.** PowerShell reads a quoted
text as one literal that is the text exactly if no typographic quote stands in it. So in the script
of any plan what follows the name of the command that enters the root, enters a directory or prints
a text is one literal equal to this root, directory or text exactly if it has no such quote. -/
theorem literals_read_back_iff (s : String) (p : Plan) :
    (Quote.literal? Quote.isQuote (Quote.powershell s).toList = some s ↔ Quote.IsStraight s) ∧
      (∃ arg, (powershell.lines p)[1]? = some ("Push-Location " ++ arg) ∧
        (Quote.literal? Quote.isQuote arg.toList = some p.root ↔ Quote.IsStraight p.root)) ∧
      ∀ i,
        (∀ dir, p.steps[i]? = some (.enter dir) →
          ∃ arg, (powershell.lines p)[i + 2]? = some ("Push-Location " ++ arg) ∧
            (Quote.literal? Quote.isQuote arg.toList = some dir ↔ Quote.IsStraight dir)) ∧
        ∀ text, p.steps[i]? = some (.say text) →
          ∃ arg, (powershell.lines p)[i + 2]? = some ("Write-Host " ++ arg) ∧
            (Quote.literal? Quote.isQuote arg.toList = some text ↔ Quote.IsStraight text) := by
  refine ⟨Quote.literal?_isQuote_iff s, ?_, fun i => ⟨?_, ?_⟩⟩
  · exact ⟨_, rfl, Quote.literal?_isQuote_iff p.root⟩
  · intro dir h
    exact ⟨_, powershell.getElem?_lines h, Quote.literal?_isQuote_iff dir⟩
  · intro text h
    exact ⟨_, powershell.getElem?_lines h, Quote.literal?_isQuote_iff text⟩

/-- A directory with an apostrophe, and a text with a typographic quote. -/
def curly : Plan := ⟨[.enter "/it's", .say "it\u2019s", .leave]⟩

theorem literals_read_back_iff_curly :
    curly.steps[0]? = some (.enter "/it's") ∧
      (∃ arg, (powershell.lines curly)[2]? = some ("Push-Location " ++ arg) ∧
        Quote.literal? Quote.isQuote arg.toList = some "/it's") ∧
      curly.steps[1]? = some (.say "it\u2019s") ∧
      ∃ arg, (powershell.lines curly)[3]? = some ("Write-Host " ++ arg) ∧
        Quote.literal? Quote.isQuote arg.toList ≠ some "it\u2019s" := by
  have hdir : Quote.IsStraight "/it's" := by decide +kernel
  have htext : ¬Quote.IsStraight "it\u2019s" := by decide +kernel
  obtain ⟨-, -, hsteps⟩ := literals_read_back_iff "it\u2019s" curly
  obtain ⟨arg, hline, hread⟩ := (hsteps 0).1 "/it's" rfl
  obtain ⟨arg', hline', hread'⟩ := (hsteps 1).2 "it\u2019s" rfl
  exact ⟨rfl, ⟨arg, hline, hread.2 hdir⟩, rfl, arg', hline', fun h => htext (hread'.1 h)⟩

/-- The literal of a text with typographic quotes ends at the first one, and what stands between
this one and the second one is run. -/
theorem typographic_breaks_out :
    Quote.literal? Quote.isQuote (Quote.powershell "\u2018; rm x; \u2019").toList ≠
        some "\u2018; rm x; \u2019" ∧
      (powershell.lines ⟨[.say "\u2018; rm x; \u2019"]⟩)[2]? =
        some "Write-Host '\u2018; rm x; \u2019'" ∧
      Quote.literalBody Quote.isQuote "\u2018; rm x; \u2019'".toList =
        some ([], "; rm x; \u2019'".toList) ∧
      Quote.literal? Quote.isQuote "\u2019'".toList = some "" := by
  have hbody : "\u2018; rm x; \u2019'".toList =
      Quote.powershellBody ([] ++ '\u2018' :: ';' :: " rm x; \u2019".toList) ++ ['\''] := by
    decide +kernel
  have hearly := Quote.literalBody_closed_early (p := Quote.isQuote) (List.forall_mem_nil _)
    (q := '\u2018') (d := ';') (b := " rm x; \u2019".toList) (by decide) (by decide) (by decide)
    (by decide)
  refine ⟨?_, by decide +kernel, ?_, by decide +kernel⟩
  · rw [Ne, Quote.literal?_isQuote_iff]
    decide +kernel
  · rw [hbody, hearly]
    decide +kernel

end Dialect

end ProjectScript
