import ProjectScript.Proofs.Template.Expansion

/-!
# Strict expansion

The strict expansion of a template goes through the same four stages, and stops at the first
reference that nothing resolves. It says nothing else than the expansion that goes on: it gives a
text exactly when that one has the text and no miss, and it stops at a miss exactly when that one
meets this miss first.

* `Strict.expand`, `Strict.render`: the expansion that stops;
* `Expansion.verdict`: what an expansion that goes on says to it (`verdict_expand`).
-/

namespace ProjectScript.Template

namespace Strict

/-- The text that stands for a reference, or the miss at which the expansion stops. -/
abbrev Outcome := Except Miss (List Char)

/-- How the line of a function is expanded, up to the first miss. -/
abbrev Expander := List Value → Table String → List Char → Outcome

/-- A text that holds no references, or a miss. -/
def ofOption (o : Option String) (m : Miss) : Outcome :=
  match o with
  | some s => .ok s.toList
  | none => .error m

/-- Replaces each reference of a cut text, up to the first one that has no value. -/
def replace {ρ : Type} (value : ρ → Outcome) : List (Piece ρ) → Outcome
  | [] => return []
  | .char c :: ps => return c :: (← replace value ps)
  | .ref r :: ps => return (← value r) ++ (← replace value ps)

/-- One stage: replaces the references of one kind. -/
def fill {ρ : Type} (g : Grammar ρ) (value : ρ → Outcome) (text : List Char) : Outcome :=
  replace value (g.pieces text)

/-- The expansion of a call; `inner` expands the lines, if one more call may be nested. -/
def expandCall (s : Scope) (inner : Option Expander) (frames : List Value) (c : Call) :
    Outcome := do
  let some f := function? s c.name | throw (.unknownFunction c.name)
  let some inner := inner | throw (.tooDeep c.name)
  let params := bind f c.args
  if let some p := unbound? f params then throw (.missingRequired c.name p)
  let lines ← f.script.mapM fun line => inner (frames ++ [frame f]) params line.toList
  return lineSeparator.intercalate lines

/-- The four stages. -/
def stages (s : Scope) (inner : Option Expander) : Expander := fun frames params text => do
  let text ← fill env (fun n => ofOption (s.env n) (.unsetVariable n)) text
  let text ← fill param (fun n => ofOption (params.get? n) (.absentParameter n)) text
  let text ← fill config (fun p => ofOption ((lookup s frames p).map Value.inline) (.noSuchPath p))
    text
  fill call (expandCall s inner frames) text

/-- The expansion with at most `depth` calls within one another. -/
def expand (s : Scope) : (depth : Nat) → Expander
  | 0 => stages s none
  | depth + 1 => stages s (some (expand s depth))

/-- The expansion of a template, up to the first miss. -/
def render (s : Scope) (frames : List Value) (params : Table String) (text : String) : Outcome :=
  expand s (callLimit - frames.length) frames params text.toList

end Strict

/-! ## The first miss of an expansion -/

/-- The first miss of an expansion, or its text if there is none. -/
def Expansion.verdict (e : Expansion) : Strict.Outcome :=
  match e.misses with
  | [] => .ok e.text
  | m :: _ => .error m

namespace Expansion

theorem verdict_eq_ok_iff {e : Expansion} {t : List Char} : e.verdict = .ok t ↔ e = ⟨t, []⟩ := by
  obtain ⟨text, misses⟩ := e
  cases misses <;> simp [verdict]

theorem verdict_eq_error_iff {e : Expansion} {m : Miss} :
    e.verdict = .error m ↔ e.misses.head? = some m := by
  obtain ⟨text, misses⟩ := e
  cases misses <;> simp [verdict]

theorem verdict_ofOption (o : Option String) (m : Miss) :
    (ofOption o m).verdict = Strict.ofOption o m := by
  cases o <;> rfl

theorem verdict_append (a b : Expansion) :
    (a ++ b).verdict = (do return (← a.verdict) ++ (← b.verdict)) := by
  obtain ⟨s, _ | ⟨m, ms⟩⟩ := a
  · obtain ⟨t, _ | ⟨n, ns⟩⟩ := b <;> rfl
  · rfl

theorem verdict_andThen (a : Expansion) (f : List Char → Expansion) :
    (a.andThen f).verdict = a.verdict >>= fun text => (f text).verdict := by
  obtain ⟨s, _ | ⟨m, ms⟩⟩ := a <;> rfl

theorem verdict_join (sep : List Char) (es : List Expansion) :
    (join sep es).verdict = (do return sep.intercalate (← es.mapM verdict)) := by
  induction es with
  | nil => rfl
  | cons e es ih =>
    cases es with
    | nil =>
      rw [List.mapM_cons, List.mapM_nil]
      cases h : e.verdict <;> simp [join, h, List.intercalate]
    | cons e' es =>
      have hsep : verdict ⟨sep, []⟩ = pure sep := rfl
      have hcons : ∀ t t' ts, sep.intercalate (t :: t' :: ts) =
          t ++ sep ++ sep.intercalate (t' :: ts) := by
        intro t t' ts
        simp [List.intercalate]
      rw [join_cons_cons, verdict_append, verdict_append, ih]
      simp only [hsep, List.mapM_cons, bind_assoc, pure_bind, hcons]

/-- The first miss of a stage is that of the first reference that has one. -/
theorem verdict_replace {ρ : Type} (value : ρ → Expansion) (ps : List (Piece ρ)) :
    (Template.replace value ps).verdict = Strict.replace (fun r => (value r).verdict) ps := by
  induction ps with
  | nil => rfl
  | cons p ps ih =>
    cases p with
    | char c =>
      have h : Template.replace value (.char c :: ps) =
          ⟨[c], []⟩ ++ Template.replace value ps := rfl
      rw [h, verdict_append, ih]
      rfl
    | ref r => rw [Template.replace, verdict_append, ih, Strict.replace]

theorem verdict_fill {ρ : Type} (g : Grammar ρ) (value : ρ → Expansion) (text : List Char) :
    (g.fill value text).verdict = Strict.fill g (fun r => (value r).verdict) text :=
  verdict_replace value (g.pieces text)

end Expansion

/-! ## The two expansions -/

/-- The strict expander that stops at the first miss of an expander that goes on. -/
def Expander.strict (e : Expander) : Strict.Expander := fun frames params text =>
  (e frames params text).verdict

theorem verdict_expandCall (s : Scope) (inner : Option Expander) (frames : List Value) (c : Call) :
    (expandCall s inner frames c).verdict =
      Strict.expandCall s (inner.map Expander.strict) frames c := by
  rw [expandCall, Strict.expandCall]
  cases function? s c.name with
  | none => rfl
  | some f =>
    cases inner with
    | none => rfl
    | some inner =>
      dsimp only [Option.map]
      cases unbound? f (bind f c.args) with
      | some p => rfl
      | none =>
        dsimp only
        rw [Expansion.verdict_join, List.mapM_map]
        rfl

theorem verdict_stages (s : Scope) (inner : Option Expander) (frames : List Value)
    (params : Table String) (text : List Char) :
    (stages s inner frames params text).verdict =
      Strict.stages s (inner.map Expander.strict) frames params text := by
  simp only [stages, Strict.stages, Expansion.verdict_andThen, Expansion.verdict_fill,
    Expansion.verdict_ofOption, verdict_expandCall]

/-- By induction on the depth: the lines of a function are expanded one level deeper. -/
theorem verdict_expand (s : Scope) (depth : Nat) :
    (expand s depth).strict = Strict.expand s depth := by
  induction depth with
  | zero =>
    funext frames params text
    exact verdict_stages s none frames params text
  | succ depth ih =>
    funext frames params text
    rw [Strict.expand, ← ih]
    exact verdict_stages s (some (expand s depth)) frames params text

/-- **The report of misses is complete and exact**: the strict expansion gives a text exactly when
the expansion that goes on gives this text and no miss, and it stops at a miss exactly when this is
the first one that the other reports. -/
theorem strictRender_iff (s : Scope) (frames : List Value) (params : Table String) (text : String) :
    (∀ t, Strict.render s frames params text = .ok t ↔ render s frames params text = ⟨t, []⟩) ∧
      ∀ m, Strict.render s frames params text = .error m ↔
        (render s frames params text).misses.head? = some m := by
  have h : Strict.render s frames params text = (render s frames params text).verdict := by
    rw [Strict.render, ← verdict_expand]
    rfl
  rw [h]
  exact ⟨fun _ => Expansion.verdict_eq_ok_iff, fun _ => Expansion.verdict_eq_error_iff⟩

end ProjectScript.Template
