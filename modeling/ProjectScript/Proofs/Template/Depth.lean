import ProjectScript.Proofs.Template.Expansion

/-!
# The limit on nested calls

The limit on nested calls shows only where it is met. An expansion is *shallow* when none of its
misses says that a call stands within too many others; a shallow expansion stays the same, text and
misses, when more calls may be nested (`expand_of_shallow`). Nothing is asked of the functions:
they may call each other in a circle, and the names of the called functions may be put together by
earlier stages.
-/

namespace ProjectScript.Template

/-- No call stands within too many others. -/
def Expansion.Shallow (e : Expansion) : Prop := ∀ name, Miss.tooDeep name ∉ e.misses

namespace Expansion

theorem shallow_append {a b : Expansion} : (a ++ b).Shallow ↔ a.Shallow ∧ b.Shallow := by
  simp only [Shallow, misses_append, List.mem_append, not_or]
  exact forall_and

theorem shallow_andThen {a : Expansion} {f : List Char → Expansion} :
    (a.andThen f).Shallow ↔ a.Shallow ∧ (f a.text).Shallow := by
  simp only [Shallow, misses_andThen, List.mem_append, not_or]
  exact forall_and

theorem shallow_join {sep : List Char} {es : List Expansion} :
    (join sep es).Shallow ↔ ∀ e ∈ es, e.Shallow := by
  simp only [Shallow, misses_join, List.mem_flatMap, not_exists, not_and]
  exact ⟨fun h e he name => h name e he, fun h name e he => h e he name⟩

end Expansion

open Expansion

/-- References whose values agree wherever these are shallow are replaced by the same, if what they
are replaced by is shallow. -/
theorem replace_of_shallow {ρ : Type} {value value' : ρ → Expansion}
    (hv : ∀ r, (value r).Shallow → value' r = value r) {ps : List (Piece ρ)}
    (h : (replace value ps).Shallow) : replace value' ps = replace value ps := by
  induction ps with
  | nil => rfl
  | cons p ps ih =>
    cases p with
    | char c => rw [replace, replace, ih h]
    | ref r =>
      obtain ⟨hr, hps⟩ := shallow_append.1 h
      rw [replace, replace, hv r hr, ih hps]

/-- A deeper way to expand lines: there is one wherever there was one, and it gives the same where
that one was shallow. -/
def Deepens (inner inner' : Option Expander) : Prop :=
  ∀ e, inner = some e → ∃ e', inner' = some e' ∧ ∀ frames params text,
    (e frames params text).Shallow → e' frames params text = e frames params text

theorem expandCall_of_shallow {s : Scope} {inner inner' : Option Expander}
    (hd : Deepens inner inner') {frames : List Value} {c : Call}
    (h : (expandCall s inner frames c).Shallow) :
    expandCall s inner' frames c = expandCall s inner frames c := by
  rw [expandCall] at h
  rw [expandCall, expandCall]
  cases hf : function? s c.name with
  | none => rfl
  | some f =>
    rw [hf] at h
    cases hi : inner with
    | none =>
      -- the call itself was too deep
      rw [hi] at h
      exact absurd (List.mem_singleton.2 rfl) (h c.name)
    | some e =>
      obtain ⟨e', rfl, he⟩ := hd e hi
      rw [hi] at h
      cases hu : unbound? f (bind f c.args) with
      | some p => simp only [hu]
      | none =>
        simp only [hu] at h ⊢
        have hlines := shallow_join.1 h
        have heq : ∀ line ∈ f.script, e' (frames ++ [frame f]) (bind f c.args) line.toList =
            e (frames ++ [frame f]) (bind f c.args) line.toList := fun line hl =>
          he _ _ _ (hlines _ (List.mem_map_of_mem hl))
        rw [List.map_congr_left heq]

theorem stages_of_shallow {s : Scope} {inner inner' : Option Expander}
    (hd : Deepens inner inner') {frames : List Value} {params : Table String} {text : List Char}
    (h : (stages s inner frames params text).Shallow) :
    stages s inner' frames params text = stages s inner frames params text := by
  rw [stages_eq] at h
  have hcalls := (shallow_andThen.1 h).2
  have hv : ∀ c, (expandCall s inner frames c).Shallow →
      expandCall s inner' frames c = expandCall s inner frames c :=
    fun c hc => expandCall_of_shallow hd hc
  have heq := replace_of_shallow hv hcalls
  rw [stages_eq, stages_eq, Expansion.andThen, Expansion.andThen, Grammar.fill, heq]
  rfl

/-- By induction on the smaller depth: the lines of a function are expanded one level deeper in
both expansions. -/
theorem expand_of_shallow {s : Scope} {d d' : Nat} (hd : d ≤ d') {frames : List Value}
    {params : Table String} {text : List Char} (h : (expand s d frames params text).Shallow) :
    expand s d' frames params text = expand s d frames params text := by
  induction d generalizing d' frames params text with
  | zero =>
    rw [expand_eq] at h ⊢
    rw [expand_eq]
    exact stages_of_shallow (fun e he => by cases he) h
  | succ d ih =>
    obtain ⟨d', rfl⟩ : ∃ k, d' = k + 1 := ⟨d' - 1, by omega⟩
    rw [expand] at h ⊢
    refine stages_of_shallow ?_ h
    intro e he
    cases he
    exact ⟨expand s d', rfl, fun frames params text hs => ih (by omega) hs⟩

/-- **The limit on nested calls is transparent**: an expansion in which no call was too deep is the
expansion under any larger limit. -/
theorem renderWithin_eq_render {limit : Nat} (hl : callLimit ≤ limit) (s : Scope)
    (frames : List Value) (params : Table String) (text : String)
    (h : ∀ name, Miss.tooDeep name ∉ (render s frames params text).misses) :
    renderWithin limit s frames params text = render s frames params text :=
  expand_of_shallow (Nat.sub_le_sub_right hl _) h

/-- Two functions that call each other in a circle. The first one calls what its parameter names;
the circle ends where this parameter is not bound. -/
def circle : Scope where
  env _ := none
  project :=
    { functions := .ofList
        [("first", { params := .ofList [("next", { required := true })],
                     script := ["_\x7b@\x7bnext\x7d()\x7d"] }),
         ("second", { script := ["echo", "_\x7bfirst()\x7d"] })] }
  globals := {}

/-- The circle is left before any call is too deep. -/
theorem renderWithin_eq_render_circle :
    (∀ name, Miss.tooDeep name ∉
        (render circle [] .empty "_\x7bfirst(next=second)\x7d").misses) ∧
      renderWithin 100 circle [] .empty "_\x7bfirst(next=second)\x7d" =
        render circle [] .empty "_\x7bfirst(next=second)\x7d" := by
  have hm : (render circle [] .empty "_\x7bfirst(next=second)\x7d").misses =
      [.missingRequired "first" "next"] := by decide +kernel
  have h : ∀ name, Miss.tooDeep name ∉
      (render circle [] .empty "_\x7bfirst(next=second)\x7d").misses := by
    intro name
    rw [hm]
    simp
  exact ⟨h, renderWithin_eq_render (by decide) circle [] .empty _ h⟩

end ProjectScript.Template
