import ProjectScript.Proofs.Template.Expansion

/-!
# Traces of an expansion

What is met while a template is expanded, in the order in which it is met: the lines of functions
that are expanded, and the references to the configuration with what stands in their place. An
entry of a trace records the stack of frames in force, and the calls that enclose it. The two are
not the same thing: the stack is handed down from one expansion to the next, and the calls are
added on the way back.

`trace` expands a template like `render` (`result_trace`) and keeps the trace. The references in it
leave the misses of paths that the expansion reports, in the same order (`reported_trace`). A property
that references and lines have, and that goes through a call, holds of all that is met
(`Traced.forall_mem_log`).
-/

namespace ProjectScript.Template

/-- What is met while a template is expanded. -/
inductive Event
  /-- A line of the innermost function is expanded. -/
  | line (text : String)
  /-- A reference to the configuration is replaced. -/
  | config (path : String) (value : Expansion)
  deriving DecidableEq, Repr

/-- The misses of a reference to the configuration. -/
def Event.misses : Event → List Miss
  | line _ => []
  | config _ value => value.misses

/-- Whether a miss is that of a reference to the configuration. -/
def Miss.isPath : Miss → Bool
  | noSuchPath _ => true
  | _ => false

/-- A call with the function that it calls. -/
structure Activation where
  call : Call
  function : Function
  deriving DecidableEq, Repr

/-- What is met, the calls that it stands within, outermost first, and the stack in force. -/
structure Entry where
  calls : List Activation
  frames : List Value
  event : Event
  deriving DecidableEq, Repr

/-- The entry as seen from outside of one more call. -/
def Entry.within (a : Activation) (e : Entry) : Entry := { e with calls := a :: e.calls }

/-- An expansion and what is met on the way to it. -/
structure Traced where
  result : Expansion
  log : List Entry

namespace Traced

/-- An expansion on the way to which nothing is met. -/
def quiet (e : Expansion) : Traced := ⟨e, []⟩

/-- One expansion after another. -/
def append (a b : Traced) : Traced := ⟨a.result ++ b.result, a.log ++ b.log⟩

/-- Goes on with the text of an expansion. -/
def andThen (a : Traced) (f : List Char → Traced) : Traced :=
  let b := f a.result.text
  ⟨a.result.andThen fun _ => b.result, a.log ++ b.log⟩

/-- Replaces each reference of a cut text. -/
def replace {ρ : Type} (value : ρ → Traced) : List (Piece ρ) → Traced
  | [] => quiet ⟨[], []⟩
  | .char c :: ps => (quiet ⟨[c], []⟩).append (replace value ps)
  | .ref r :: ps => (value r).append (replace value ps)

/-- How the line of a function is expanded. -/
abbrev Expander := List Value → Table String → List Char → Traced

/-- A reference to the configuration. -/
def config (s : Scope) (frames : List Value) (path : String) : Traced :=
  let value := configValue s frames path
  ⟨value, [⟨[], frames, .config path value⟩]⟩

/-- A line of a function, on the stack that stands inside of the call. -/
def line (inner : Expander) (frames : List Value) (params : Table String) (text : String) :
    Traced :=
  let t := inner frames params text.toList
  ⟨t.result, ⟨[], frames, .line text⟩ :: t.log⟩

/-- The expansion of a call; `inner` expands the lines, if one more call may be nested. -/
def expandCall (s : Scope) (inner : Option Expander) (frames : List Value) (c : Call) : Traced :=
  match function? s c.name with
  | none => quiet (.miss (.unknownFunction c.name))
  | some f =>
    match inner with
    | none => quiet (.miss (.tooDeep c.name))
    | some inner =>
      let params := bind f c.args
      match unbound? f params with
      | some p => quiet (.miss (.missingRequired c.name p))
      | none =>
        let lines := f.script.map (line inner (frames ++ [frame f]) params)
        ⟨.join lineSeparator (lines.map result), (lines.flatMap log).map (.within ⟨c, f⟩)⟩

/-- The four stages. -/
def stages (s : Scope) (inner : Option Expander) : Expander := fun frames params text =>
  let env := env.fill (fun n => .ofOption (s.env n) (.unsetVariable n)) text
  let param := env.andThen
    (param.fill fun n => .ofOption (params.get? n) (.absentParameter n))
  let config := (quiet param).andThen fun text =>
    replace (config s frames) (Template.config.pieces text)
  config.andThen fun text => replace (expandCall s inner frames) (call.pieces text)

/-- The expansion with at most `depth` calls within one another. -/
def expand (s : Scope) : (depth : Nat) → Expander
  | 0 => stages s none
  | depth + 1 => stages s (some (expand s depth))

end Traced

/-- The expansion of a template, with its trace. -/
def trace (s : Scope) (frames : List Value) (params : Table String) (text : String) : Traced :=
  Traced.expand s (callLimit - frames.length) frames params text.toList

/-! ## The traced expansion is the expansion -/

namespace Traced

theorem result_replace {ρ : Type} {value : ρ → Traced} {value' : ρ → Expansion}
    (hv : ∀ r, (value r).result = value' r) (ps : List (Piece ρ)) :
    (replace value ps).result = Template.replace value' ps := by
  induction ps with
  | nil => rfl
  | cons p ps ih =>
    cases p with
    | char c =>
      rw [replace, Template.replace, append, ih]
      rfl
    | ref r => rw [replace, Template.replace, append, ih, hv]

/-- A traced way to expand lines, without the traces. -/
def Expander.untraced (e : Expander) : Template.Expander := fun frames params text =>
  (e frames params text).result

theorem result_expandCall (s : Scope) (inner : Option Expander) (frames : List Value) (c : Call) :
    (expandCall s inner frames c).result =
      Template.expandCall s (inner.map Expander.untraced) frames c := by
  rw [expandCall, Template.expandCall]
  cases function? s c.name with
  | none => rfl
  | some f =>
    cases inner with
    | none => rfl
    | some inner =>
      dsimp only [Option.map]
      cases unbound? f (bind f c.args) with
      | some p => rfl
      | none =>
        dsimp only
        rw [List.map_map]
        rfl

theorem result_stages (s : Scope) (inner : Option Expander) (frames : List Value)
    (params : Table String) (text : List Char) :
    (stages s inner frames params text).result =
      Template.stages s (inner.map Expander.untraced) frames params text := by
  have hconfig : ∀ t, (replace (config s frames) (Template.config.pieces t)).result =
      Template.config.fill (configValue s frames) t := fun t => result_replace (fun _ => rfl) _
  have hcall : ∀ t, (replace (expandCall s inner frames) (call.pieces t)).result =
      call.fill (Template.expandCall s (inner.map Expander.untraced) frames) t := fun t =>
    result_replace (result_expandCall s inner frames) _
  rw [stages_eq, beforeCalls]
  simp only [stages, andThen, quiet, hconfig, hcall]
  rfl

theorem result_expand (s : Scope) (depth : Nat) :
    (expand s depth).untraced = Template.expand s depth := by
  induction depth with
  | zero =>
    funext frames params text
    exact result_stages s none frames params text
  | succ depth ih =>
    funext frames params text
    rw [Template.expand, ← ih]
    exact result_stages s (some (expand s depth)) frames params text

end Traced

/-- A template is expanded with a trace as it is without one. -/
theorem result_trace (s : Scope) (frames : List Value) (params : Table String) (text : String) :
    (trace s frames params text).result = render s frames params text := by
  rw [render, renderWithin, ← Traced.result_expand]
  rfl

/-! ## The trace misses nothing

The references that leave a miss are all in the trace, in the order in which their misses are
reported. -/

namespace Traced

/-- The references of the trace leave the misses of paths that the expansion reports. -/
def Reported (t : Traced) : Prop :=
  t.log.flatMap (·.event.misses) = t.result.misses.filter Miss.isPath

theorem reported_quiet {e : Expansion} (h : ∀ m ∈ e.misses, m.isPath = false) :
    (quiet e).Reported := by
  have : e.misses.filter Miss.isPath = [] :=
    List.filter_eq_nil_iff.2 fun m hm => by simp [h m hm]
  exact this.symm

theorem Reported.append {a b : Traced} (ha : a.Reported) (hb : b.Reported) :
    (a.append b).Reported := by
  rw [Reported, Traced.append, List.flatMap_append, ha, hb, Expansion.misses_append,
    List.filter_append]

theorem Reported.andThen {a : Traced} {f : List Char → Traced} (ha : a.Reported)
    (hf : ∀ t, (f t).Reported) : (a.andThen f).Reported := by
  rw [Reported, Traced.andThen, List.flatMap_append, ha, hf, Expansion.misses_andThen,
    List.filter_append]

theorem reported_replace {ρ : Type} {value : ρ → Traced} (hv : ∀ r, (value r).Reported)
    (ps : List (Piece ρ)) : (replace value ps).Reported := by
  induction ps with
  | nil => rfl
  | cons p ps ih =>
    cases p with
    | char c => exact (reported_quiet fun m hm => by cases hm).append ih
    | ref r => exact (hv r).append ih

theorem reported_config (s : Scope) (frames : List Value) (path : String) :
    (config s frames path).Reported := by
  rw [Reported, config, configValue]
  cases lookup s frames path <;> rfl

theorem reported_line {inner : Expander} (hi : ∀ C ps t, (inner C ps t).Reported)
    (frames : List Value) (params : Table String) (text : String) :
    (line inner frames params text).Reported :=
  hi frames params text.toList

theorem reported_expandCall {s : Scope} {inner : Option Expander}
    (hi : ∀ i, inner = some i → ∀ C ps t, (i C ps t).Reported) (frames : List Value) (c : Call) :
    (expandCall s inner frames c).Reported := by
  rw [expandCall]
  cases function? s c.name with
  | none => exact reported_quiet fun m hm => by rw [List.mem_singleton.1 hm]; rfl
  | some f =>
    cases inner with
    | none => exact reported_quiet fun m hm => by rw [List.mem_singleton.1 hm]; rfl
    | some i =>
      dsimp only
      cases unbound? f (bind f c.args) with
      | some p => exact reported_quiet fun m hm => by rw [List.mem_singleton.1 hm]; rfl
      | none =>
        have hline := reported_line (hi i rfl) (frames ++ [frame f]) (bind f c.args)
        dsimp only
        rw [Reported, Expansion.misses_join, List.filter_flatMap, List.flatMap_map,
          List.flatMap_assoc, List.flatMap_map, List.flatMap_map, List.flatMap_map]
        exact congrArg (f.script.flatMap ·) (funext hline)

theorem reported_stages {s : Scope} {inner : Option Expander}
    (hi : ∀ i, inner = some i → ∀ C ps t, (i C ps t).Reported) (frames : List Value)
    (params : Table String) (text : List Char) : (stages s inner frames params text).Reported := by
  refine Reported.andThen (Reported.andThen (reported_quiet ?_) ?_) ?_
  · intro m hm
    rcases List.mem_append.1 hm with hm | hm
    · obtain ⟨n, hm⟩ := exists_of_mem_misses_replace hm
      rw [Expansion.mem_misses_ofOption hm]
      rfl
    · obtain ⟨n, hm⟩ := exists_of_mem_misses_replace hm
      rw [Expansion.mem_misses_ofOption hm]
      rfl
  · exact fun t => reported_replace (reported_config s frames) _
  · exact fun t => reported_replace (reported_expandCall hi frames) _

theorem reported_expand (s : Scope) (depth : Nat) (frames : List Value) (params : Table String)
    (text : List Char) : (expand s depth frames params text).Reported := by
  induction depth generalizing frames params text with
  | zero => exact reported_stages (fun i hi => by cases hi) frames params text
  | succ depth ih =>
    refine reported_stages (fun i hi => ?_) frames params text
    cases hi
    exact ih

end Traced

theorem reported_trace (s : Scope) (frames : List Value) (params : Table String) (text : String) :
    (trace s frames params text).Reported :=
  Traced.reported_expand s _ frames params text.toList

/-! ## What holds of all that is met -/

namespace Traced

theorem exists_of_mem_log_replace {ρ : Type} {value : ρ → Traced} {e : Entry}
    {ps : List (Piece ρ)} (h : e ∈ (replace value ps).log) : ∃ r, e ∈ (value r).log := by
  induction ps with
  | nil => cases h
  | cons p ps ih =>
    cases p with
    | char c => exact ih h
    | ref r =>
      rcases List.mem_append.1 h with h | h
      · exact ⟨r, h⟩
      · exact ih h

/-- An entry of a call is that of a line of the function, or one that is met while a line is
expanded, as seen from outside of the call. The call binds what the function requires. -/
theorem exists_of_mem_log_expandCall {s : Scope} {inner : Option Expander} {C : List Value} {c : Call}
    {e : Entry} (h : e ∈ (expandCall s inner C c).log) :
    ∃ i f e', inner = some i ∧ function? s c.name = some f ∧ unbound? f (bind f c.args) = none ∧
      e = e'.within ⟨c, f⟩ ∧ ∃ text ∈ f.script, e' = ⟨[], C ++ [frame f], .line text⟩ ∨
        e' ∈ (i (C ++ [frame f]) (bind f c.args) text.toList).log := by
  rw [expandCall] at h
  cases hf : function? s c.name with
  | none => simp [hf, quiet] at h
  | some f =>
    cases inner with
    | none => simp [hf, quiet] at h
    | some i =>
      cases hu : unbound? f (bind f c.args) with
      | some p => simp [hf, hu, quiet] at h
      | none =>
        simp only [hf, hu, List.mem_map, List.mem_flatMap] at h
        obtain ⟨e', ⟨_, ⟨text, ht, rfl⟩, he'⟩, rfl⟩ := h
        exact ⟨i, f, e', rfl, rfl, hu, rfl, text, ht, List.mem_cons.1 he'⟩

variable {s : Scope} {P : List Value → Nat → Entry → Prop}

/-- A property of entries, of the stack at the start and of the calls that may be nested, holds of
all that an expansion meets if it holds of references to the configuration and of lines, and if it
goes through a call. By induction on the depth: the lines of a function are expanded one level
deeper. -/
theorem forall_mem_log
    (hconfig : ∀ C depth path, P C depth ⟨[], C, .config path (configValue s C path)⟩)
    (hline : ∀ C depth c f text, function? s c.name = some f → unbound? f (bind f c.args) = none →
      text ∈ f.script → P C (depth + 1) (Entry.within ⟨c, f⟩ ⟨[], C ++ [frame f], .line text⟩))
    (hwithin : ∀ C depth c f e, function? s c.name = some f → unbound? f (bind f c.args) = none →
      P (C ++ [frame f]) depth e → P C (depth + 1) (e.within ⟨c, f⟩))
    (depth : Nat) (C : List Value) (params : Table String) (text : List Char) :
    ∀ e ∈ (expand s depth C params text).log, P C depth e := by
  induction depth generalizing C params text with
  | zero =>
    intro e he
    rcases List.mem_append.1 he with he | he
    · obtain ⟨path, he⟩ := exists_of_mem_log_replace he
      rw [List.mem_singleton.1 he]
      exact hconfig C 0 path
    · obtain ⟨c, he⟩ := exists_of_mem_log_replace he
      obtain ⟨i, -, -, hi, -⟩ := exists_of_mem_log_expandCall he
      cases hi
  | succ depth ih =>
    intro e he
    rcases List.mem_append.1 he with he | he
    · obtain ⟨path, he⟩ := exists_of_mem_log_replace he
      rw [List.mem_singleton.1 he]
      exact hconfig C (depth + 1) path
    · obtain ⟨c, he⟩ := exists_of_mem_log_replace he
      obtain ⟨i, f, e, hi, hf, hu, rfl, text, ht, rfl | he⟩ := exists_of_mem_log_expandCall he
      · exact hline C depth c f text hf hu ht
      · cases hi
        exact hwithin C depth c f e hf hu (ih _ _ _ e he)

end Traced

end ProjectScript.Template
