import ProjectScript.Proofs.Template.Cutting

/-!
# Literal text around a template

Text in front of a template and behind it comes through an expansion as it is, whatever the template
expands to, if it can neither open a reference nor close one: the text in front has no opening brace
and does not end in a sigil, the text behind has no closing brace. The template itself may begin or
end with half a reference, and so may what a stage makes of it.

The words of all kinds open and close in the same way (`Delimited`), and so no word of a surrounded
text reaches out of the template: the text is cut where the template is cut (`pieces_append`,
`pieces_literal_append`). Each stage hands the surroundings on to the next one (`fill_between`).
-/

namespace ProjectScript.Template

/-! ## How words open and close -/

/-- The words of a kind open with a sigil and a brace, and close with a brace. -/
structure Delimited {ρ : Type} (Word : List Char → ρ → Prop) : Prop where
  opens : ∀ {w r}, Word w r → ∃ a ∈ sigils, [a, '\x7b'] <+: w
  closes : ∀ {w r}, Word w r → w.getLast? = some '\x7d'

theorem EnvWord.delimited : Delimited EnvWord where
  opens h := ⟨'$', by decide, h.opens⟩
  closes h := by
    cases h
    exact List.getLast?_concat

theorem ParamWord.delimited : Delimited ParamWord where
  opens h := ⟨'@', by decide, h.opens⟩
  closes h := by
    cases h
    exact List.getLast?_concat

theorem ConfigWord.delimited : Delimited ConfigWord where
  opens h := ⟨'#', by decide, h.opens⟩
  closes h := by
    cases h
    exact List.getLast?_concat

theorem CallWord.delimited : Delimited CallWord where
  opens h := ⟨'_', by decide, h.opens⟩
  closes h := by
    cases h
    rw [List.getLast?_append]
    rfl

/-! ## Surroundings -/

/-- Text that opens no reference, also not together with text behind it. -/
structure OpensNone (before : List Char) : Prop where
  noBrace : '\x7b' ∉ before
  noSigil : ∀ a ∈ sigils, before.getLast? ≠ some a

/-- Text that closes no reference, also not together with text in front of it. -/
def ClosesNone (after : List Char) : Prop := '\x7d' ∉ after

instance (before : List Char) : Decidable (OpensNone before) :=
  -- the test runs along the sigils, and not over all characters
  decidable_of_iff ('\x7b' ∉ before ∧ sigils.all (before.getLast? ≠ some ·) = true) <| by
    simp only [List.all_eq_true, decide_eq_true_eq]
    exact ⟨fun ⟨hbrace, hsigil⟩ => ⟨hbrace, hsigil⟩, fun ⟨hbrace, hsigil⟩ => ⟨hbrace, hsigil⟩⟩

instance (after : List Char) : Decidable (ClosesNone after) :=
  inferInstanceAs (Decidable ('\x7d' ∉ after))

theorem OpensNone.tail {c : Char} {before : List Char} (h : OpensNone (c :: before)) :
    OpensNone before where
  noBrace hmem := h.noBrace (List.mem_cons_of_mem c hmem)
  noSigil a ha hlast := by
    apply h.noSigil a ha
    rw [List.getLast?_cons, hlast]
    rfl

/-- An expansion with text in front of it and behind it. -/
def Expansion.between (before after : List Char) (e : Expansion) : Expansion :=
  ⟨before ++ e.text ++ after, e.misses⟩

theorem Expansion.between_andThen {before after : List Char} {e : Expansion}
    {f : List Char → Expansion}
    (hf : f (before ++ e.text ++ after) = (f e.text).between before after) :
    (e.between before after).andThen f = (e.andThen f).between before after := by
  apply eq_of_parts
  · change (f (before ++ e.text ++ after)).text = _
    rw [hf]
    rfl
  · change e.misses ++ (f (before ++ e.text ++ after)).misses = _
    rw [hf]
    rfl

/-! ## Where a surrounded text is cut -/

section

variable {ρ : Type} {g : Grammar ρ}

theorem pieces_of_read {cs rest : List Char} {r : ρ} (h : g.read cs = some (r, rest)) :
    g.pieces cs = .ref r :: g.pieces rest := by
  cases cs with
  | nil => exact absurd (g.shorter h) (Nat.not_lt_zero _)
  | cons c cs =>
    rw [Grammar.pieces]
    split
    · rename_i h'
      rw [h] at h'
      cases h'
      rfl
    · rename_i h'
      rw [h] at h'
      cases h'

theorem pieces_of_read_eq_none {c : Char} {cs : List Char} (h : g.read (c :: cs) = none) :
    g.pieces (c :: cs) = .char c :: g.pieces cs := by
  rw [Grammar.pieces]
  split
  · rename_i h'
    rw [h] at h'
    cases h'
  · rfl

theorem read_nil (g : Grammar ρ) : g.read [] = none := by
  rcases h : g.read [] with _ | ⟨r, rest⟩
  · rfl
  · exact absurd (g.shorter h) (Nat.not_lt_zero _)

variable {Word : List Char → ρ → Prop}

/-- A word at the front of a text does not reach into text behind it that closes none. -/
theorem exists_eq_append_of_word (hw : Delimited Word) {w text after rest : List Char} {r : ρ}
    (hword : Word w r) (ha : ClosesNone after) (h : text ++ after = w ++ rest) :
    ∃ rest', text = w ++ rest' := by
  rcases List.append_eq_append_iff.1 h with ⟨w', rfl, hafter⟩ | ⟨rest', htext, -⟩
  · rcases List.eq_nil_or_concat w' with rfl | ⟨w', c, rfl⟩
    · exact ⟨[], by simp⟩
    · have hlast := hw.closes hword
      rw [List.concat_eq_append, ← List.append_assoc, List.getLast?_concat] at hlast
      obtain rfl := Option.some.inj hlast
      exact absurd (by rw [hafter]; simp) ha
  · exact ⟨rest', htext⟩

variable (hg : g.Denotes Word) (hw : Delimited Word)
include hg hw

/-- A reference is read off a text as it is without the text behind. -/
theorem read_append {after : List Char} (ha : ClosesNone after) (text : List Char) :
    g.read (text ++ after) = (g.read text).map fun (r, rest) => (r, rest ++ after) := by
  rcases h : g.read text with _ | ⟨r, rest⟩
  · rcases hread : g.read (text ++ after) with _ | ⟨r, rest⟩
    · rfl
    · obtain ⟨w, hword, heq⟩ := hg.1 hread
      obtain ⟨rest', htext⟩ := exists_eq_append_of_word hw hword ha heq
      rw [hg.2 ⟨w, hword, htext⟩] at h
      cases h
  · obtain ⟨w, hword, rfl⟩ := hg.1 h
    exact hg.2 ⟨w, hword, List.append_assoc ..⟩

theorem pieces_of_closesNone {after : List Char} (ha : ClosesNone after) :
    g.pieces after = after.map .char := by
  induction after with
  | nil => rw [Grammar.pieces, List.map_nil]
  | cons c after ih =>
    have hread := read_append hg hw ha []
    rw [read_nil] at hread
    have hrest : ClosesNone after := fun hmem => ha (List.mem_cons_of_mem c hmem)
    rw [pieces_of_read_eq_none hread, ih hrest, List.map_cons]

/-- By induction along the reading of the text. -/
theorem pieces_append {after : List Char} (ha : ClosesNone after) (text : List Char) :
    g.pieces (text ++ after) = g.pieces text ++ after.map .char := by
  fun_induction g.pieces text with
  | case1 => exact pieces_of_closesNone hg hw ha
  | case2 c cs r rest hr ih =>
    have hread := read_append hg hw ha (c :: cs)
    rw [hr] at hread
    rw [pieces_of_read hread, ih, List.cons_append]
  | case3 c cs hr ih =>
    have hread := read_append hg hw ha (c :: cs)
    rw [hr, List.cons_append] at hread
    rw [List.cons_append, pieces_of_read_eq_none hread, ih, List.cons_append]

/-- No word starts in text that opens none. -/
theorem read_eq_none_of_opensNone {c : Char} {before : List Char} (hb : OpensNone (c :: before))
    (text : List Char) : g.read (c :: before ++ text) = none := by
  rcases hread : g.read (c :: before ++ text) with _ | ⟨r, rest⟩
  · rfl
  · exfalso
    obtain ⟨w, hword, heq⟩ := hg.1 hread
    obtain ⟨a, ha, w', rfl⟩ := hw.opens hword
    simp only [List.cons_append, List.nil_append, List.cons.injEq] at heq
    obtain ⟨rfl, heq⟩ := heq
    rcases before with _ | ⟨d, before⟩
    · exact hb.noSigil c ha rfl
    · apply hb.noBrace
      rw [(List.cons.inj heq).1]
      exact List.mem_cons_of_mem _ List.mem_cons_self

theorem pieces_literal_append {before : List Char} (hb : OpensNone before) (text : List Char) :
    g.pieces (before ++ text) = before.map .char ++ g.pieces text := by
  induction before with
  | nil => rfl
  | cons c before ih =>
    have hread := read_eq_none_of_opensNone hg hw hb text
    rw [List.cons_append] at hread ⊢
    rw [pieces_of_read_eq_none hread, ih hb.tail, List.map_cons, List.cons_append]

end

/-! ## Each stage hands the surroundings on -/

section

variable {ρ : Type} (value : ρ → Expansion)

theorem replace_append (ps qs : List (Piece ρ)) :
    replace value (ps ++ qs) = replace value ps ++ replace value qs := by
  induction ps with
  | nil => rfl
  | cons p ps ih =>
    cases p with
    | char c =>
      rw [List.cons_append, replace, replace, ih]
      rfl
    | ref r =>
      rw [List.cons_append, replace, replace, ih]
      apply Expansion.eq_of_parts
      · exact (List.append_assoc ..).symm
      · exact (List.append_assoc ..).symm

theorem replace_chars (cs : List Char) : replace value (cs.map .char) = ⟨cs, []⟩ := by
  induction cs with
  | nil => rfl
  | cons c cs ih => rw [List.map_cons, replace, ih]

/-- A stage leaves the surroundings of a text as they are. -/
theorem fill_between {g : Grammar ρ} {Word : List Char → ρ → Prop} (hg : g.Denotes Word)
    (hw : Delimited Word) {before after : List Char} (hb : OpensNone before)
    (ha : ClosesNone after) (text : List Char) :
    g.fill value (before ++ text ++ after) = (g.fill value text).between before after := by
  rw [Grammar.fill, pieces_append hg hw ha, pieces_literal_append hg hw hb, replace_append,
    replace_append, replace_chars, replace_chars]
  apply Expansion.eq_of_parts
  · rfl
  · exact List.append_nil _

end

section

variable {before after : List Char} (hb : OpensNone before) (ha : ClosesNone after)
include hb ha

/-- The first three stages leave the surroundings of a text as they are. -/
theorem beforeCalls_between (s : Scope) (frames : List Value) (params : Table String)
    (text : List Char) :
    beforeCalls s frames params (before ++ text ++ after) =
      (beforeCalls s frames params text).between before after := by
  unfold beforeCalls
  rw [fill_between _ env_denotes EnvWord.delimited hb ha]
  rw [Expansion.between_andThen (fill_between _ param_denotes ParamWord.delimited hb ha _)]
  exact Expansion.between_andThen (fill_between _ config_denotes ConfigWord.delimited hb ha _)

theorem expand_between (s : Scope) (depth : Nat) (frames : List Value) (params : Table String)
    (text : List Char) :
    expand s depth frames params (before ++ text ++ after) =
      (expand s depth frames params text).between before after := by
  rw [expand_eq, stages_eq, stages_eq, beforeCalls_between hb ha]
  exact Expansion.between_andThen (fill_between _ call_denotes CallWord.delimited hb ha _)

end

/-- **Literal text around a template is untouched.** Text in front that has no opening brace and
does not end in a sigil, and text behind that has no closing brace, stand around the expansion of a
template as they stood around the template, and they add nothing to the misses. -/
theorem literal_surroundings_stay (s : Scope) (frames : List Value) (params : Table String)
    {before after : String} (hb : OpensNone before.toList) (ha : ClosesNone after.toList)
    (text : String) :
    (render s frames params (before ++ text ++ after)).text =
        before.toList ++ (render s frames params text).text ++ after.toList ∧
      (render s frames params (before ++ text ++ after)).misses =
        (render s frames params text).misses := by
  have h : render s frames params (before ++ text ++ after) =
      (render s frames params text).between before.toList after.toList := by
    unfold render renderWithin
    rw [String.toList_append, String.toList_append, expand_between hb ha]
  rw [h]
  exact ⟨rfl, rfl⟩

namespace Surrounded

/-- A scope with a variable that opens with a brace. -/
def scope : Scope where
  env n := if n = "OPEN" then some "\x7bA\x7d" else none
  project := {}
  globals := {}

/-- Half references of all kinds stand on both sides of the template, which ends in a sigil. -/
theorem literal_surroundings_stay_halves :
    OpensNone "$@#_ \x7d".toList ∧ ClosesNone "\x7bA_\x7bf(x)".toList ∧
      render scope [] .empty "$@#_ \x7d$\x7bOPEN\x7d#\x7bnone\x7d@\x7bA_\x7bf(x)" =
        ⟨"$@#_ \x7d\x7bA\x7d@\x7bA_\x7bf(x)".toList, [.noSuchPath "none"]⟩ := by
  have hb : OpensNone "$@#_ \x7d".toList := by decide +kernel
  have ha : ClosesNone "\x7bA_\x7bf(x)".toList := by decide +kernel
  have hinner : render scope [] .empty "$\x7bOPEN\x7d#\x7bnone\x7d@" =
      ⟨"\x7bA\x7d@".toList, [.noSuchPath "none"]⟩ := by decide +kernel
  obtain ⟨htext, hmisses⟩ :=
    literal_surroundings_stay scope [] .empty hb ha "$\x7bOPEN\x7d#\x7bnone\x7d@"
  rw [hinner] at htext hmisses
  exact ⟨hb, ha, Expansion.eq_of_parts htext hmisses⟩

end Surrounded

end ProjectScript.Template
