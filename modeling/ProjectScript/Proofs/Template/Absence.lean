import Mathlib.Data.Set.Insert
import ProjectScript.Proofs.Template.Cutting

/-!
# Absent and empty values

A reference that nothing resolves leaves no text, and neither does one whose value is empty. The
two differ in the report of the misses alone: where names without a value are given the empty one
(`emptied`), an expansion has the text that it had, and its report is the one that it had
without the misses of these names (`unset_like_empty`).

Leaving misses out of a report (`Expansion.without`) goes through every way in which expansions are
put together, down to the lines of called functions (`without_expand`): both runs read the same
text in every stage. The variables are those of the whole run. The parameters are those of the
stage of parameters in the outermost text (`ownParameters`), and no other stage reads them
(`expand_own`): the lines of a called function are expanded with the parameters of the call.
-/

namespace ProjectScript

/-- The bindings of a table, and the empty value for each of the names. -/
def Table.bindEmpty (t : Table String) (names : List String) : Table String :=
  names.foldl (fun t n => t.insert n "") t

namespace Template

/-- The values of names, with the empty one for each name of a set. -/
def emptied (value : String → Option String) (names : Set String) [DecidablePred (· ∈ names)] :
    String → Option String :=
  fun n => if n ∈ names then some "" else value n

theorem get?_bindEmpty (t : Table String) (names : List String) (n : String) :
    (t.bindEmpty names).get? n = emptied t.get? {n | n ∈ names} n := by
  induction names generalizing t with
  | nil => simp [Table.bindEmpty, emptied]
  | cons m names ih =>
    have hcons : t.bindEmpty (m :: names) = (t.insert m "").bindEmpty names := rfl
    rw [hcons, ih, emptied, emptied, Table.get?_insert]
    by_cases hm : n = m <;> by_cases hn : n ∈ names <;> simp [hm, hn]

/-! ## Leaving misses out of a report -/

/-- Whether a miss is that of a variable of the set. -/
def Miss.isUnset (names : Set String) [DecidablePred (· ∈ names)] : Miss → Bool
  | unsetVariable n => decide (n ∈ names)
  | _ => false

/-- Whether a miss is that of a parameter of the set. -/
def Miss.isAbsent (names : Set String) [DecidablePred (· ∈ names)] : Miss → Bool
  | absentParameter n => decide (n ∈ names)
  | _ => false

namespace Expansion

/-- The expansion with the misses that `p` picks left out of its report. -/
def without (p : Miss → Bool) (e : Expansion) : Expansion :=
  ⟨e.text, e.misses.filter fun m => !p m⟩

variable {p : Miss → Bool}

theorem without_append (a b : Expansion) :
    (a ++ b).without p = a.without p ++ b.without p :=
  eq_of_parts rfl (List.filter_append ..)

theorem without_andThen (a : Expansion) (f : List Char → Expansion) :
    (a.andThen f).without p = (a.without p).andThen fun text => (f text).without p :=
  eq_of_parts rfl (List.filter_append ..)

theorem without_join (sep : List Char) (es : List Expansion) :
    (join sep es).without p = join sep (es.map (without p)) := by
  induction es with
  | nil => rfl
  | cons e es ih =>
    cases es with
    | nil => rfl
    | cons e' es =>
      rw [join_cons_cons, without_append, without_append, ih]
      rfl

theorem without_miss {m : Miss} (hm : p m = false) : (miss m).without p = miss m :=
  eq_of_parts rfl (by simp [without, miss, hm])

/-- Names that have no value, or the empty one: the misses left out are those of these names. -/
theorem without_ofOption {value : String → Option String} {names : Set String}
    [DecidablePred (· ∈ names)] (h : ∀ n ∈ names, value n = none) {miss : String → Miss}
    (hp : ∀ n, p (miss n) = decide (n ∈ names)) (n : String) :
    (ofOption (value n) (miss n)).without p = ofOption (emptied value names n) (miss n) := by
  rw [emptied]
  by_cases hn : n ∈ names
  · rw [if_pos hn, h n hn]
    exact eq_of_parts rfl (by simp [without, ofOption, ofText, Expansion.miss, hp, hn])
  · rw [if_neg hn]
    cases value n with
    | some s => rfl
    | none => exact without_miss (by rw [hp, decide_eq_false hn])

theorem without_replace {ρ : Type} (value : ρ → Expansion) (ps : List (Piece ρ)) :
    (replace value ps).without p = replace (fun r => (value r).without p) ps := by
  induction ps with
  | nil => rfl
  | cons q ps ih =>
    cases q with
    | char c =>
      have ht := congrArg text ih
      have hm := congrArg misses ih
      exact eq_of_parts (congrArg (c :: ·) ht) hm
    | ref r => rw [replace, replace, without_append, ih]

theorem without_fill {ρ : Type} (g : Grammar ρ) (value : ρ → Expansion) (text : List Char) :
    (g.fill value text).without p = g.fill (fun r => (value r).without p) text :=
  without_replace value (g.pieces text)

end Expansion

open Expansion

/-! ## Variables -/

section

variable {s : Scope} {names : Set String} [DecidablePred (· ∈ names)]

/-- The scope with the empty value for each variable of a set. -/
def Scope.emptied (s : Scope) (names : Set String) [DecidablePred (· ∈ names)] : Scope :=
  { s with env := Template.emptied s.env names }

/-- The way to expand lines with the misses that `p` picks left out. -/
def Expander.without (p : Miss → Bool) (e : Expander) : Expander := fun frames params text =>
  (e frames params text).without p

theorem without_expandCall (inner : Option Expander) (frames : List Value) (c : Call) :
    (expandCall s inner frames c).without (Miss.isUnset names) =
      expandCall (s.emptied names) (inner.map (Expander.without (Miss.isUnset names))) frames c := by
  have hf : function? (s.emptied names) c.name = function? s c.name := rfl
  rw [expandCall, expandCall, hf]
  cases function? s c.name with
  | none => exact without_miss rfl
  | some f =>
    cases inner with
    | none => exact without_miss rfl
    | some inner =>
      dsimp only [Option.map]
      cases unbound? f (bind f c.args) with
      | some q => exact without_miss rfl
      | none =>
        dsimp only
        rw [without_join, List.map_map]
        rfl

/-- A reference of another kind than a variable keeps its miss. -/
theorem without_ofOption_of_not_isUnset (o : Option String) {m : Miss}
    (hm : m.isUnset names = false) :
    (ofOption o m).without (Miss.isUnset names) = ofOption o m := by
  cases o with
  | some s => rfl
  | none => exact without_miss hm

theorem without_stages (h : ∀ n ∈ names, s.env n = none) (inner : Option Expander)
    (frames : List Value) (params : Table String) (text : List Char) :
    (stages s inner frames params text).without (Miss.isUnset names) =
      stages (s.emptied names) (inner.map (Expander.without (Miss.isUnset names))) frames params
        text := by
  have hvariable : ∀ n, (ofOption (s.env n) (.unsetVariable n)).without (Miss.isUnset names) =
      ofOption ((s.emptied names).env n) (.unsetVariable n) :=
    without_ofOption h fun _ => rfl
  have hparam : ∀ n, (ofOption (params.get? n) (.absentParameter n)).without
      (Miss.isUnset names) = ofOption (params.get? n) (.absentParameter n) :=
    fun _ => without_ofOption_of_not_isUnset _ rfl
  have hconfig : ∀ q, (ofOption ((lookup s frames q).map Value.inline) (.noSuchPath q)).without
      (Miss.isUnset names) = ofOption ((lookup s frames q).map Value.inline) (.noSuchPath q) :=
    fun _ => without_ofOption_of_not_isUnset _ rfl
  simp only [stages, without_andThen, without_fill, hvariable, hparam, hconfig,
    without_expandCall]
  rfl

/-- By induction on the depth: the lines of a function are expanded one level deeper. -/
theorem without_expand (h : ∀ n ∈ names, s.env n = none) (depth : Nat) :
    (expand s depth).without (Miss.isUnset names) = expand (s.emptied names) depth := by
  induction depth with
  | zero =>
    funext frames params text
    exact without_stages h none frames params text
  | succ depth ih =>
    funext frames params text
    change _ = stages (s.emptied names) (some (expand (s.emptied names) depth)) frames params text
    rw [← ih]
    exact without_stages h (some (expand s depth)) frames params text

end

/-! ## Parameters -/

/-- What the stage of variables makes of the outermost text. -/
def ownVariables (s : Scope) (text : List Char) : Expansion := env.fill (envValue s) text

/-- What the stage of parameters makes of the text that it reads. -/
def ownParameters (params : Table String) (text : List Char) : Expansion :=
  param.fill (paramValue params) text

/-- What the two stages behind it make of the text that they read, with all that the calls in it
expand to. -/
def behindParameters (s : Scope) (depth : Nat) (frames : List Value) (text : List Char) :
    Expansion :=
  (config.fill (configValue s frames) text).andThen
    (call.fill (expandCall s (lineExpander? s depth) frames))

/-- One stage reads the parameters. -/
theorem expand_own (s : Scope) (depth : Nat) (frames : List Value) (params : Table String)
    (text : List Char) :
    expand s depth frames params text =
      ((ownVariables s text).andThen (ownParameters params)).andThen
        (behindParameters s depth frames) := by
  rw [expand_eq, andThen_assoc]
  rfl

theorem ownParameters_bindEmpty {params : Table String} {names : List String}
    (h : ∀ n ∈ names, params.get? n = none) (text : List Char) :
    ownParameters (params.bindEmpty names) text =
      (ownParameters params text).without (Miss.isAbsent {n | n ∈ names}) := by
  have habsent : ∀ n ∈ {n | n ∈ names}, params.get? n = none := h
  have hvalue : ∀ n, (paramValue params n).without (Miss.isAbsent {n | n ∈ names}) =
      paramValue (params.bindEmpty names) n := by
    intro n
    rw [paramValue, paramValue, get?_bindEmpty]
    exact without_ofOption habsent (fun _ => rfl) n
  rw [ownParameters, ownParameters, without_fill]
  exact congrArg (param.fill · text) (funext fun n => (hvalue n).symm)

/-! ## A miss is like an empty value -/

/-- **A miss is like an empty value.** Giving the empty value to any set of variables that are not
set leaves the text of an expansion as it is, and takes the misses of these variables, at any depth,
out of its report. Giving it to parameters that are absent leaves the text as it is, too; of the
report, the misses of the stage of parameters in the outermost text lose those of these parameters,
and all that the other stages and the called functions report stays. -/
theorem unset_like_empty (s : Scope) (frames : List Value) (params : Table String)
    (text : String) :
    (∀ (names : Set String) [DecidablePred (· ∈ names)], (∀ n ∈ names, s.env n = none) →
        render (s.emptied names) frames params text =
          (render s frames params text).without (Miss.isUnset names)) ∧
      ∀ names : List String, (∀ n ∈ names, params.get? n = none) →
        let lead := ownVariables s text.toList
        let own := ownParameters params lead.text
        let behind := behindParameters s (callLimit - frames.length) frames own.text
        render s frames params text =
            ⟨behind.text, lead.misses ++ own.misses ++ behind.misses⟩ ∧
          render s frames (params.bindEmpty names) text =
            ⟨behind.text, lead.misses ++
              own.misses.filter (fun m => !m.isAbsent {n | n ∈ names}) ++ behind.misses⟩ := by
  constructor
  · intro names _ h
    exact (congrFun (congrFun (congrFun (without_expand h _) frames) params) text.toList).symm
  · intro names h lead own behind
    have hrender : ∀ params, render s frames params text =
        ((ownVariables s text.toList).andThen (ownParameters params)).andThen
          (behindParameters s (callLimit - frames.length) frames) :=
      fun params => expand_own s _ frames params text.toList
    constructor
    · rw [hrender]
      rfl
    · rw [hrender, Expansion.andThen, Expansion.andThen, ownParameters_bindEmpty h]
      rfl

namespace Toneless

/-- A function that looks at a variable and at a parameter that no call binds. -/
def scope : Scope where
  env _ := none
  project := { functions := .ofList [("greet", { script := ["echo @\x7bwho\x7d$\x7bTONE\x7d"] })] }
  globals := {}

/-- A template in which the variable stands within a reference to the parameter. -/
def template : String := "@$\x7bTONE\x7d\x7bwho\x7d_\x7bgreet()\x7d"

/-- The variable leaves the report at both depths, the parameter at the outer one alone. -/
theorem unset_like_empty_greeting :
    (∀ n ∈ ({"TONE"} : Set String), scope.env n = none) ∧
      render (scope.emptied {"TONE"}) [] .empty template =
        ⟨"echo ".toList, [.absentParameter "who", .absentParameter "who"]⟩ ∧
      (∀ n ∈ ["who"], (Table.empty : Table String).get? n = none) ∧
      render scope [] (Table.empty.bindEmpty ["who"]) template =
        ⟨"echo ".toList,
          [.unsetVariable "TONE", .unsetVariable "TONE", .absentParameter "who"]⟩ := by
  have hrender : render scope [] .empty template =
      ⟨"echo ".toList, [.unsetVariable "TONE", .absentParameter "who", .unsetVariable "TONE",
        .absentParameter "who"]⟩ := by decide +kernel
  obtain ⟨hvariables, hparams⟩ := unset_like_empty scope [] .empty template
  have hunset : ∀ n ∈ ({"TONE"} : Set String), scope.env n = none := fun _ _ => rfl
  have habsent : ∀ n ∈ ["who"], (Table.empty : Table String).get? n = none := fun _ _ => rfl
  refine ⟨hunset, ?_, habsent, ?_⟩
  · rw [hvariables _ hunset, hrender]
    decide +kernel
  · rw [(hparams _ habsent).2]
    decide +kernel

end Toneless

end Template

end ProjectScript
