import ProjectScript.Template.Expand

/-!
# The parts of an expansion

How the text and the misses of an expansion are made up of those of its parts, and the shape that
every expansion has: three stages that call no function (`beforeCalls`), and behind them the calls
(`stages_eq`). A call expands the lines of a function one level deeper, if there is one
(`expand_eq`).
-/

namespace ProjectScript.Template

namespace Expansion

@[simp] theorem misses_append (a b : Expansion) : (a ++ b).misses = a.misses ++ b.misses := rfl

@[simp] theorem text_andThen (a : Expansion) (f : List Char → Expansion) :
    (a.andThen f).text = (f a.text).text := rfl

@[simp] theorem misses_andThen (a : Expansion) (f : List Char → Expansion) :
    (a.andThen f).misses = a.misses ++ (f a.text).misses := rfl

theorem eq_of_parts {a b : Expansion} (ht : a.text = b.text) (hm : a.misses = b.misses) :
    a = b := by
  cases a
  cases b
  cases ht
  cases hm
  rfl

theorem andThen_assoc (a : Expansion) (f g : List Char → Expansion) :
    (a.andThen f).andThen g = a.andThen fun text => (f text).andThen g :=
  eq_of_parts rfl (by simp only [misses_andThen, text_andThen, List.append_assoc])

theorem join_cons_cons (sep : List Char) (e e' : Expansion) (es : List Expansion) :
    join sep (e :: e' :: es) = e ++ ⟨sep, []⟩ ++ join sep (e' :: es) := rfl

theorem text_join (sep : List Char) (es : List Expansion) :
    (join sep es).text = sep.intercalate (es.map text) := by
  induction es with
  | nil => rfl
  | cons e es ih =>
    cases es with
    | nil => simp [join, List.intercalate]
    | cons e' es =>
      have hcons : (join sep (e :: e' :: es)).text = e.text ++ sep ++ (join sep (e' :: es)).text :=
        rfl
      rw [hcons, ih]
      simp [List.intercalate]

theorem misses_join (sep : List Char) (es : List Expansion) :
    (join sep es).misses = es.flatMap misses := by
  induction es with
  | nil => rfl
  | cons e es ih =>
    cases es with
    | nil => simp [join]
    | cons e' es =>
      simp only [join_cons_cons, misses_append, ih, List.flatMap_cons, List.append_nil]

theorem mem_misses_ofOption {o : Option String} {m m' : Miss}
    (h : m' ∈ (ofOption o m).misses) : m' = m := by
  cases o with
  | none => exact List.mem_singleton.1 h
  | some s => cases h

end Expansion

/-- The misses of a stage are those of its references. -/
theorem exists_of_mem_misses_replace {ρ : Type} {value : ρ → Expansion} {m : Miss}
    {ps : List (Piece ρ)} (h : m ∈ (replace value ps).misses) : ∃ r, m ∈ (value r).misses := by
  induction ps with
  | nil => cases h
  | cons p ps ih =>
    cases p with
    | char c => exact ih h
    | ref r =>
      rcases List.mem_append.1 h with h | h
      · exact ⟨r, h⟩
      · exact ih h

/-! ## The shape of an expansion -/

/-- What stands in place of a reference to the configuration. -/
def configValue (s : Scope) (frames : List Value) (path : String) : Expansion :=
  .ofOption ((lookup s frames path).map Value.inline) (.noSuchPath path)

/-- The first three stages. -/
def beforeCalls (s : Scope) : Expander := fun frames params text =>
  ((env.fill (fun n => .ofOption (s.env n) (.unsetVariable n)) text).andThen
    (param.fill fun n => .ofOption (params.get? n) (.absentParameter n))).andThen
    (config.fill (configValue s frames))

theorem stages_eq (s : Scope) (inner : Option Expander) (frames : List Value)
    (params : Table String) (text : List Char) :
    stages s inner frames params text =
      (beforeCalls s frames params text).andThen (call.fill (expandCall s inner frames)) := by
  rw [beforeCalls, Expansion.andThen_assoc, Expansion.andThen_assoc]
  rfl

/-- How the lines of a called function are expanded when `depth` calls may stand within one
another. -/
def lineExpander? (s : Scope) : (depth : Nat) → Option Expander
  | 0 => none
  | depth + 1 => some (expand s depth)

theorem expand_eq (s : Scope) (depth : Nat) :
    expand s depth = stages s (lineExpander? s depth) := by
  cases depth <;> rfl

end ProjectScript.Template
