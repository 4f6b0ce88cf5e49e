import ProjectScript.Proofs.Yaml.Run
import ProjectScript.Registry

/-!
# The tokens of the registry's file

The text of a registry is read as a mapping of one key, whose value is a sequence of mappings of
three keys each (`tokens_text`). One entry is a run of at most 27 steps over its text
(`yields_entry`); the end of its mapping is told only by what follows, so it is read with the next
entry or with the end of the text (`run_entries`).
-/

namespace ProjectScript.Registry

open Yaml Yaml.Scanner

/-- The tokens of a field. -/
def fieldTokens (name value : String) : List Token :=
  [.key, .scalar name .plain, .value, .scalar value (styleOf value)]

/-- The tokens of an entry up to the end of its mapping. -/
def entryTokens (p : Registered) : List Token :=
  .blockEntry :: .blockMappingStart ::
    (fieldTokens "name" p.name ++ fieldTokens "meta" p.file ++ fieldTokens "root" p.root)

/-- The tokens of the entries, with the ends of their mappings. -/
def entriesTokens (ps : List Registered) : List Token :=
  ps.flatMap fun p => entryTokens p ++ [.blockEnd]

variable {s : Scanner} {closing : List Token} {more : List Char}

theorem fieldText_append (name value : String) (more : List Char) :
    fieldText name value ++ more =
      name.toList ++ ':' :: ' ' :: (scalar scalarIndent value ++ more) := by
  simp [fieldText]

section Entry

variable {indent : Int} {outer : List Int} {column : Nat} {name value : String}

/-- A field of an entry; the first one starts the entry's mapping. -/
theorem yields_field
    (h : s.Rests indent outer (fieldText name value ++ (indentation column ++ more)) 2)
    (hname : Letters name.toList) (hlen : name.toList.length ≤ 1024) (hle : indent ≤ 2)
    (hm : Starts more) (hcol : column ≤ 2) :
    ∃ s', s.Yields 8 ((if 2 ≤ indent then [] else [.blockMappingStart]) ++ fieldTokens name value)
        s' ∧
      s'.Rests 2 (if 2 ≤ indent then outer else indent :: outer) more column := by
  rw [fieldText_append] at h
  obtain ⟨s₁, hkey, h₁⟩ := yields_key h hname hlen rfl hle
  obtain ⟨s₂, hvalue, h₂⟩ := yields_scalar 2 h₁ hm hcol
  refine ⟨s₂, ?_, h₂⟩
  have hboth := hkey.trans hvalue
  rw [String.ofList_toList, List.append_assoc] at hboth
  exact hboth

theorem starts_fieldText (hname : Letters name.toList) : Starts (fieldText name value ++ more) := by
  obtain ⟨c, cs, hsplit⟩ := List.exists_cons_of_ne_nil hname.1
  have hc := hname.2 c (hsplit ▸ List.mem_cons_self ..)
  rw [fieldText_append, hsplit]
  refine starts_cons (isSpace_of_isAlpha hc) ⟨?_, ?_⟩ <;> rintro rfl <;> exact absurd hc (by decide)

theorem letters_name : Letters "name".toList := by decide

theorem letters_meta : Letters "meta".toList := by decide

theorem letters_root : Letters "root".toList := by decide

theorem letters_projects : Letters "projects".toList := by decide

/-- An entry behind its dash, with the blanks that start the line behind each field. -/
theorem entryText_append (p : Registered) (more : List Char) :
    entryText p ++ more = '-' :: ' ' :: (fieldText "name" p.name ++ (indentation 2 ++
      (fieldText "meta" p.file ++ (indentation 2 ++
        (fieldText "root" p.root ++ (indentation 0 ++ more)))))) := by
  unfold entryText
  simp only [List.append_assoc]
  rfl

/-- An entry is read, and its mapping is still open. -/
theorem yields_entry {p : Registered} (h : s.AtMargin closing (entryText p ++ more))
    (hm : Starts more) :
    ∃ s', s.Yields 27 (closing ++ entryTokens p) s' ∧ s'.AtMargin [.blockEnd] more := by
  rw [entryText_append] at h
  obtain ⟨s₁, hdash, h₁⟩ := yields_dash h (starts_fieldText letters_name)
  obtain ⟨s₂, hname, h₂⟩ :=
    yields_field h₁ letters_name (by decide) (by decide) (starts_fieldText letters_meta) (by decide)
  obtain ⟨s₃, hmeta, h₃⟩ :=
    yields_field h₂ letters_meta (by decide) (by decide) (starts_fieldText letters_root) (by decide)
  obtain ⟨s₄, hroot, h₄⟩ :=
    yields_field h₃ letters_root (by decide) (by decide) hm (by decide)
  refine ⟨s₄, ?_, h₄.atMargin_deeper (by decide)⟩
  have hall := hdash.trans (hname.trans (hmeta.trans hroot))
  rw [List.append_assoc] at hall
  exact hall

end Entry

/-! ## The whole text -/

theorem starts_entries (ps : List Registered) : Starts (ps.flatMap entryText) := by
  cases ps with
  | nil => exact ⟨fun _ h => (by cases h), fun _ h => (by cases h)⟩
  | cons p ps =>
    rw [List.flatMap_cons, entryText_append]
    exact starts_cons rfl (by decide)

/-- Entries are read one after the other, each behind the end of the one before. -/
theorem run_entries {ps : List Registered} {fuel : Nat}
    (h : s.AtMargin closing (ps.flatMap entryText)) (hf : 27 * ps.length + 4 ≤ fuel) :
    run fuel s = (closing ++ (entriesTokens ps ++ [.blockEnd, .streamEnd]), true) := by
  induction ps generalizing s closing fuel with
  | nil => exact run_end h hf
  | cons p ps ih =>
    rw [List.length_cons, Nat.mul_succ] at hf
    obtain ⟨s', ⟨m, hm, hrun⟩, h'⟩ := yields_entry h (starts_entries ps)
    obtain ⟨fuel, rfl⟩ : ∃ rest, fuel = m + rest := ⟨fuel - m, by omega⟩
    rw [hrun, ih h' (by omega)]
    simp [entriesTokens]

theorem start_rests (rest : List Char) :
    (start ("projects".toList ++ ':' :: rest)).Rests (-1) []
      ("projects".toList ++ ':' :: rest) 0 := by
  refine ⟨rfl, rfl, rfl, rfl, 0, 0, ?_⟩
  refine leads_of_skipSpace rfl (skipSpace_starts ?_)
  exact starts_cons rfl (by decide)

theorem length_entryText_le (p : Registered) : 4 ≤ (entryText p).length := by
  have h := congrArg List.length (entryText_append p [])
  rw [List.append_nil] at h
  rw [h]
  simp [indentation]
  omega

theorem length_entries_le (ps : List Registered) :
    4 * ps.length ≤ (ps.flatMap entryText).length := by
  induction ps with
  | nil => simp
  | cons p ps ih =>
    have hp := length_entryText_le p
    rw [List.flatMap_cons, List.length_append, List.length_cons]
    omega

theorem isPrintable_fieldText {name : String} (hname : name.toList.all isPrintable = true)
    (value : String) : ∀ c ∈ fieldText name value, isPrintable c = true := by
  intro c hc
  simp only [fieldText, List.mem_append, List.mem_cons] at hc
  rcases hc with hc | rfl | rfl | hc
  · exact List.all_eq_true.1 hname c hc
  · rfl
  · rfl
  · exact isPrintable_scalar scalarIndent value c hc

theorem isPrintable_entryText (p : Registered) : ∀ c ∈ entryText p, isPrintable c = true := by
  have hdash : ∀ c ∈ "- ".toList, isPrintable c = true := List.all_eq_true.1 (by decide)
  have hblanks : ∀ c ∈ "  ".toList, isPrintable c = true := List.all_eq_true.1 (by decide)
  intro c hc
  unfold entryText at hc
  simp only [List.mem_append] at hc
  rcases hc with ((((hc | hc) | hc) | hc) | hc) | hc
  · exact hdash c hc
  · exact isPrintable_fieldText (by decide) p.name c hc
  · exact hblanks c hc
  · exact isPrintable_fieldText (by decide) p.file c hc
  · exact hblanks c hc
  · exact isPrintable_fieldText (by decide) p.root c hc

theorem toList_text {r : Registry} (h : r.projects ≠ []) :
    r.text.toList = "projects".toList ++ ':' :: '\n' :: r.projects.flatMap entryText := by
  obtain ⟨p, ps, hps⟩ := List.exists_cons_of_ne_nil h
  rw [text, hps, String.toList_ofList]
  rfl

/-- The tokens of a registry that is not empty. -/
theorem tokens_text {r : Registry} (h : r.projects ≠ []) :
    tokens r.text.toList = (.blockMappingStart :: .key :: .scalar "projects" .plain :: .value ::
      (entriesTokens r.projects ++ [.blockEnd, .streamEnd]), true) := by
  have htext := toList_text h
  have hprintable : r.text.toList.all isPrintable = true := by
    have hkey : ∀ c ∈ "projects".toList, isPrintable c = true := List.all_eq_true.1 (by decide)
    rw [htext, List.all_eq_true]
    intro c hc
    simp only [List.mem_append, List.mem_cons, List.mem_flatMap] at hc
    rcases hc with hc | rfl | rfl | ⟨p, -, hc⟩
    · exact hkey c hc
    · rfl
    · rfl
    · exact isPrintable_entryText p c hc
  obtain ⟨s, ⟨m, hm, hrun⟩, hs⟩ :=
    yields_key (start_rests ('\n' :: r.projects.flatMap entryText)) letters_projects (by decide) rfl
      (by decide)
  have hmargin : s.AtMargin [] (r.projects.flatMap entryText) :=
    hs.atMargin (starts_entries r.projects)
  have hlen := length_entries_le r.projects
  have hlength : r.text.toList.length = 8 + ((r.projects.flatMap entryText).length + 1 + 1) := by
    rw [htext, List.length_append]
    rfl
  obtain ⟨fuel, hfuel⟩ : ∃ fuel, 8 * r.text.toList.length + 16 = m + fuel :=
    ⟨8 * r.text.toList.length + 16 - m, by omega⟩
  have hle : 27 * r.projects.length + 4 ≤ fuel := by
    omega
  rw [tokens, if_pos hprintable, hfuel, htext, hrun, run_entries hmargin hle]
  rfl

end ProjectScript.Registry
