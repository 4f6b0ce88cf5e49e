import ProjectScript.Proofs.Template.Expansion
import ProjectScript.Proofs.Template.Word

/-!
# What a stage replaces

A *cutting* of a text is a gap, and then references by turns with gaps. It is `Exact` for the words
of a kind when each reference is one of the words and no word starts anywhere inside of a gap,
whatever of the text behind the gap it might reach into. A text has exactly one such cutting
(`exists_cutting` and `Cutting.Exact.unique`), and a stage puts values for the references of this
cutting and keeps the gaps (`stages_rewrite`); no value is read again by the stage that puts it.
-/

namespace ProjectScript.Template

variable {ρ : Type}

/-- A reference found in a text: the word that stands there, what it writes, and the gap behind. -/
structure Found (ρ : Type) where
  word : List Char
  ref : ρ
  gap : List Char

/-- The text of references and the gaps behind them. -/
def Found.text (fs : List (Found ρ)) : List Char := fs.flatMap fun f => f.word ++ f.gap

/-- A text cut into references and gaps. -/
structure Cutting (ρ : Type) where
  lead : List Char
  found : List (Found ρ)

namespace Cutting

/-- The text that is cut. -/
def text (c : Cutting ρ) : List Char := c.lead ++ Found.text c.found

/-- The gaps with values for the references between them, and the misses of the values. -/
def fill (value : ρ → Expansion) (c : Cutting ρ) : Expansion where
  text := c.lead ++ c.found.flatMap fun f => (value f.ref).text ++ f.gap
  misses := c.found.flatMap fun f => (value f.ref).misses

/-- No word starts inside of a gap that has some text behind it. -/
def Clear (Word : List Char → ρ → Prop) (gap behind : List Char) : Prop :=
  ∀ before after, gap = before ++ after → after ≠ [] →
    ∀ w r rest, Word w r → after ++ behind ≠ w ++ rest

/-- References and the gaps around them, the first one of which is `lead`: each reference is a word,
and no word starts inside of a gap. -/
def ExactFrom (Word : List Char → ρ → Prop) (lead : List Char) : List (Found ρ) → Prop
  | [] => Clear Word lead []
  | f :: fs => Clear Word lead (Found.text (f :: fs)) ∧ Word f.word f.ref ∧ ExactFrom Word f.gap fs

/-- Each reference of a cutting is a word, and no word starts inside of a gap. -/
def Exact (Word : List Char → ρ → Prop) (c : Cutting ρ) : Prop := ExactFrom Word c.lead c.found

section

variable {Word : List Char → ρ → Prop} {lead : List Char} {fs : List (Found ρ)}

theorem clear_nil (behind : List Char) : Clear Word [] behind := by
  intro before after h hne
  exact (hne (List.append_eq_nil_iff.1 h.symm).2).elim

theorem clear_cons {c : Char} {gap behind : List Char} :
    Clear Word (c :: gap) behind ↔
      (∀ w r rest, Word w r → c :: gap ++ behind ≠ w ++ rest) ∧ Clear Word gap behind := by
  constructor
  · intro h
    refine ⟨h [] (c :: gap) rfl (List.cons_ne_nil _ _), fun before after hg hne => ?_⟩
    exact h (c :: before) after (by rw [hg, List.cons_append]) hne
  · rintro ⟨hfirst, h⟩ before after hg hne
    rcases before with _ | ⟨b, before⟩
    · obtain rfl : c :: gap = after := hg
      exact hfirst
    · exact h before after (List.cons.inj hg).2 hne

/-- A gap may start with one more character where no word starts. -/
theorem exactFrom_cons {c : Char} :
    ExactFrom Word (c :: lead) fs ↔
      (∀ w r rest, Word w r → c :: lead ++ Found.text fs ≠ w ++ rest) ∧
        ExactFrom Word lead fs := by
  cases fs with
  | nil => exact clear_cons
  | cons f fs => rw [ExactFrom, ExactFrom, clear_cons, and_assoc]

end

variable {g : Grammar ρ} {Word : List Char → ρ → Prop}

/-- The cutting that starts with a reference. -/
theorem Exact.of_read (hg : g.Denotes Word) {c : Cutting ρ} (hc : c.Exact Word) {r : ρ}
    {rest : List Char} (hr : g.read c.text = some (r, rest)) :
    ∃ w gap fs, c = ⟨[], ⟨w, r, gap⟩ :: fs⟩ ∧ (⟨gap, fs⟩ : Cutting ρ).text = rest ∧
      (⟨gap, fs⟩ : Cutting ρ).Exact Word := by
  obtain ⟨w, hw, htext⟩ := hg.1 hr
  obtain ⟨lead, found⟩ := c
  rcases lead with _ | ⟨a, lead⟩
  · rcases found with _ | ⟨⟨w', r', gap⟩, fs⟩
    · have := g.shorter hr
      exact absurd this (Nat.not_lt_zero _)
    · obtain ⟨-, hw', hfs⟩ := hc
      have hr' : g.read (w' ++ (gap ++ Found.text fs)) = some (r', gap ++ Found.text fs) :=
        hg.2 ⟨w', hw', rfl⟩
      have htext' : text ⟨[], ⟨w', r', gap⟩ :: fs⟩ = w' ++ (gap ++ Found.text fs) := by
        rw [text, List.nil_append, Found.text, List.flatMap_cons, List.append_assoc, Found.text]
      rw [htext', hr'] at hr
      obtain ⟨rfl, rfl⟩ := Prod.mk.inj (Option.some.inj hr)
      exact ⟨w', gap, fs, rfl, rfl, hfs⟩
  · exact ((exactFrom_cons.1 hc).1 w r rest hw htext).elim

/-- The cutting that starts with a character of a gap. -/
theorem Exact.of_read_eq_none (hg : g.Denotes Word) {c : Cutting ρ} (hc : c.Exact Word) {a : Char}
    {cs : List Char} (htext : c.text = a :: cs) (hr : g.read (a :: cs) = none) :
    ∃ lead, c.lead = a :: lead ∧ (⟨lead, c.found⟩ : Cutting ρ).text = cs ∧
      (⟨lead, c.found⟩ : Cutting ρ).Exact Word := by
  obtain ⟨lead, found⟩ := c
  rcases lead with _ | ⟨b, lead⟩
  · rcases found with _ | ⟨⟨w, r, gap⟩, fs⟩
    · cases htext
    · have hsome : g.read (a :: cs) = some (r, gap ++ Found.text fs) := by
        refine hg.2 ⟨w, hc.2.1, ?_⟩
        rw [← htext, text, List.nil_append, Found.text, List.flatMap_cons, List.append_assoc,
          Found.text]
      rw [hsome] at hr
      cases hr
  · obtain ⟨rfl, hcs⟩ := List.cons.inj htext
    exact ⟨lead, rfl, hcs, (exactFrom_cons.1 hc).2⟩

/-- A text has at most one exact cutting. By induction along the reading of the text. -/
theorem Exact.unique (hg : g.Denotes Word) {c c' : Cutting ρ} (hc : c.Exact Word)
    (hc' : c'.Exact Word) (h : c'.text = c.text) : c' = c := by
  generalize ht : c.text = t at h
  fun_induction g.pieces t generalizing c c' with
  | case1 =>
    have hempty : ∀ {d : Cutting ρ}, d.Exact Word → d.text = [] → d = ⟨[], []⟩ := by
      rintro ⟨lead, found⟩ hd hdt
      obtain ⟨rfl, hfound⟩ := List.append_eq_nil_iff.1 hdt
      rcases found with _ | ⟨⟨w, r, gap⟩, fs⟩
      · rfl
      · have hr : g.read [] = some (r, gap ++ Found.text fs) := by
          refine hg.2 ⟨w, hd.2.1, ?_⟩
          rw [← hfound, Found.text, List.flatMap_cons, List.append_assoc, Found.text]
        exact absurd (g.shorter hr) (Nat.not_lt_zero _)
    rw [hempty hc ht, hempty hc' h]
  | case2 a cs r rest hr ih =>
    obtain ⟨w, gap, fs, rfl, hrest, hfs⟩ := hc.of_read hg (by rw [ht]; exact hr)
    obtain ⟨w', gap', fs', rfl, hrest', hfs'⟩ := hc'.of_read hg (by rw [h]; exact hr)
    obtain ⟨rfl, rfl⟩ := Cutting.mk.inj (ih hfs hfs' hrest hrest')
    have hword : w' ++ (gap' ++ Found.text fs') = w ++ (gap' ++ Found.text fs') := by
      rw [← ht] at h
      simpa only [text, Found.text, List.flatMap_cons, List.nil_append, List.append_assoc] using h
    rw [List.append_cancel_right hword]
  | case3 a cs hr ih =>
    obtain ⟨lead, hlead, hcs, hfs⟩ := hc.of_read_eq_none hg ht hr
    obtain ⟨lead', hlead', hcs', hfs'⟩ := hc'.of_read_eq_none hg h hr
    have heq := Cutting.mk.inj (ih hfs hfs' hcs hcs')
    obtain ⟨l, f⟩ := c
    obtain ⟨l', f'⟩ := c'
    dsimp only at hlead hlead' heq
    rw [hlead, hlead', heq.1, heq.2]

end Cutting

/-- A text has an exact cutting, and filling the text fills this cutting. By induction along the
reading of the text. -/
theorem exists_cutting {g : Grammar ρ} {Word : List Char → ρ → Prop} (hg : g.Denotes Word)
    (text : List Char) :
    ∃ c : Cutting ρ, c.text = text ∧ c.Exact Word ∧ ∀ value, g.fill value text = c.fill value := by
  simp only [Grammar.fill]
  fun_induction g.pieces text with
  | case1 => exact ⟨⟨[], []⟩, rfl, Cutting.clear_nil _, fun value => rfl⟩
  | case2 a cs r rest hr ih =>
    obtain ⟨⟨lead, found⟩, htext, hexact, hfill⟩ := ih
    obtain ⟨w, hw, hcs⟩ := hg.1 hr
    refine ⟨⟨[], ⟨w, r, lead⟩ :: found⟩, ?_, ⟨Cutting.clear_nil _, hw, hexact⟩, fun value => ?_⟩
    · rw [hcs, ← htext, Cutting.text, Cutting.text, List.nil_append, Found.text,
        List.flatMap_cons, List.append_assoc, Found.text]
    · rw [replace, hfill]
      refine Expansion.eq_of_parts ?_ rfl
      change (value r).text ++ (lead ++ _) = _
      rw [Cutting.fill, List.nil_append, List.flatMap_cons, List.append_assoc]
  | case3 a cs hr ih =>
    obtain ⟨⟨lead, found⟩, htext, hexact, hfill⟩ := ih
    refine ⟨⟨a :: lead, found⟩, congrArg (a :: ·) htext, Cutting.exactFrom_cons.2 ⟨?_, hexact⟩,
      fun value => ?_⟩
    · intro w r rest hw heq
      have hsome : g.read (a :: cs) = some (r, rest) := by
        refine hg.2 ⟨w, hw, ?_⟩
        rw [← htext]
        exact heq
      rw [hsome] at hr
      cases hr
    · rw [replace, hfill]
      rfl

/-- A stage cuts every text into the words of a kind and gaps in which no word starts, in the only
way there is, and puts values for the words. -/
def Rewrites (Word : List Char → ρ → Prop) (value : ρ → Expansion)
    (stage : List Char → Expansion) : Prop :=
  ∀ text, ∃ c : Cutting ρ, c.text = text ∧ c.Exact Word ∧
    (∀ c' : Cutting ρ, c'.text = text → c'.Exact Word → c' = c) ∧ stage text = c.fill value

theorem rewrites_fill {g : Grammar ρ} {Word : List Char → ρ → Prop} (hg : g.Denotes Word)
    (value : ρ → Expansion) : Rewrites Word value (g.fill value) := by
  intro text
  obtain ⟨c, htext, hexact, hfill⟩ := exists_cutting hg text
  refine ⟨c, htext, hexact, fun c' htext' hexact' => ?_, hfill value⟩
  exact hexact.unique hg hexact' (htext'.trans htext.symm)

/-- What stands in place of a reference to a variable. -/
def envValue (s : Scope) (name : String) : Expansion := .ofOption (s.env name) (.unsetVariable name)

/-- What stands in place of a reference to a parameter. -/
def paramValue (params : Table String) (name : String) : Expansion :=
  .ofOption (params.get? name) (.absentParameter name)

/-- **Each stage replaces exactly the references of its grammar.** An expansion is made of four
stages, one after the other, and each of them, on every text, replaces the words of its own kind by
their values, and keeps all that stands between them. -/
theorem stages_rewrite (s : Scope) (depth : Nat) (frames : List Value) (params : Table String) :
    Rewrites EnvWord (envValue s) (env.fill (envValue s)) ∧
      Rewrites ParamWord (paramValue params) (param.fill (paramValue params)) ∧
      Rewrites ConfigWord (configValue s frames) (config.fill (configValue s frames)) ∧
      Rewrites CallWord (expandCall s (lineExpander? s depth) frames)
        (call.fill (expandCall s (lineExpander? s depth) frames)) ∧
      ∀ text, expand s depth frames params text =
        (((env.fill (envValue s) text).andThen (param.fill (paramValue params))).andThen
          (config.fill (configValue s frames))).andThen
            (call.fill (expandCall s (lineExpander? s depth) frames)) := by
  refine ⟨rewrites_fill env_denotes _, rewrites_fill param_denotes _,
    rewrites_fill config_denotes _, rewrites_fill call_denotes _, fun text => ?_⟩
  rw [expand_eq, stages_eq, beforeCalls]
  rfl

end ProjectScript.Template
