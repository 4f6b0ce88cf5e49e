import ProjectScript.Proofs.Template.Binding
import ProjectScript.Proofs.Template.Trace

/-!
# A call as a whole

What stands in place of a call depends on the call and on the stack of frames alone (`tracedCall`,
`render_eq_calls`). A call that a function is known for, with room for it below the limit, is
expanded whole or not at all: if a required parameter is missing nothing of the function is expanded
(`tracedCall_of_unbound`), and otherwise each of its lines is, as a template of its own that is
rendered inside of the call (`tracedCall_of_bound`).
-/

namespace ProjectScript.Template

namespace Traced

/-- How the lines of a called function are expanded when `depth` calls may stand within one
another. -/
def lineExpander? (s : Scope) : (depth : Nat) → Option Expander
  | 0 => none
  | depth + 1 => some (expand s depth)

theorem map_untraced_lineExpander? (s : Scope) (depth : Nat) :
    (lineExpander? s depth).map Expander.untraced = Template.lineExpander? s depth := by
  cases depth with
  | zero => rfl
  | succ depth => exact congrArg some (result_expand s depth)

end Traced

/-- The expansion of a call that is met on a stack of frames, with its trace. -/
def tracedCall (s : Scope) (frames : List Value) (c : Call) : Traced :=
  Traced.expandCall s (Traced.lineExpander? s (callLimit - frames.length)) frames c

/-- A line of a called function, rendered on the stack that stands inside of the call. -/
def tracedLine (s : Scope) (inside : List Value) (params : Table String) (line : String) : Traced :=
  ⟨render s inside params line, ⟨[], inside, .line line⟩ :: (trace s inside params line).log⟩

/-- The lines of a called function, each rendered on its own, and joined. -/
def tracedBody (s : Scope) (frames : List Value) (c : Call) (f : Function) : Traced :=
  let lines := f.script.map (tracedLine s (frames ++ [frame f]) (bind f c.args))
  ⟨.join lineSeparator (lines.map (·.result)), (lines.flatMap (·.log)).map (.within ⟨c, f⟩)⟩

section

variable {s : Scope} {frames : List Value} {c : Call} {f : Function}

theorem result_tracedBody : (tracedBody s frames c f).result =
    .join lineSeparator (f.script.map (render s (frames ++ [frame f]) (bind f c.args))) := by
  change Expansion.join lineSeparator ((f.script.map _).map _) = _
  rw [List.map_map]
  rfl

theorem result_tracedCall (s : Scope) (frames : List Value) (c : Call) :
    (tracedCall s frames c).result =
      expandCall s (lineExpander? s (callLimit - frames.length)) frames c := by
  rw [tracedCall, Traced.result_expandCall, Traced.map_untraced_lineExpander?]

/-- The parameters of a text are read before its calls are expanded. -/
theorem render_eq_calls (s : Scope) (frames : List Value) (params : Table String) (text : String) :
    render s frames params text =
      (beforeCalls s frames params text.toList).andThen
        (call.fill fun c => (tracedCall s frames c).result) := by
  have hvalue : (fun c => (tracedCall s frames c).result) =
      expandCall s (lineExpander? s (callLimit - frames.length)) frames :=
    funext (result_tracedCall s frames)
  rw [hvalue, render, renderWithin, expand_eq, stages_eq]

variable (hframes : frames.length < callLimit) (hf : function? s c.name = some f)
include hframes hf

/-- A call that leaves a required parameter unbound is skipped. -/
theorem tracedCall_of_unbound {p : String} (hu : unbound? f (bind f c.args) = some p) :
    tracedCall s frames c = .quiet (.miss (.missingRequired c.name p)) := by
  obtain ⟨depth, hdepth⟩ : ∃ depth, callLimit - frames.length = depth + 1 :=
    ⟨callLimit - frames.length - 1, by omega⟩
  rw [tracedCall, hdepth, Traced.expandCall, hf]
  simp only [Traced.lineExpander?, hu]

/-- A call that binds what is required has its lines rendered. -/
theorem tracedCall_of_bound (hu : unbound? f (bind f c.args) = none) :
    tracedCall s frames c = tracedBody s frames c f := by
  obtain ⟨depth, hdepth⟩ : ∃ depth, callLimit - frames.length = depth + 1 :=
    ⟨callLimit - frames.length - 1, by omega⟩
  have hinside : callLimit - (frames ++ [frame f]).length = depth := by
    rw [List.length_append, List.length_singleton]
    omega
  have hline : Traced.line (Traced.expand s depth) (frames ++ [frame f]) (bind f c.args) =
      tracedLine s (frames ++ [frame f]) (bind f c.args) := by
    funext line
    rw [Traced.line, tracedLine, ← result_trace, trace, hinside]
  rw [tracedCall, hdepth, Traced.expandCall, hf]
  simp only [Traced.lineExpander?, hu, hline]
  rfl

end

/-- **A call is expanded whole or not at all.** A function is known for a call, and there is room
for it below the limit. The parameters are those that the call supplies: the last argument of a name
before a default that is not empty. If it misses a required parameter, the call leaves no text and
the one miss that names the least of those, and no line is expanded. Otherwise the text is that of
the lines, each rendered on its own with these parameters inside of the call, joined in their order,
and so are the misses. What the parameters of the calling text are does not matter to the calls in
it: they count in the stages before. -/
theorem call_whole_or_nothing (s : Scope) {frames : List Value} (hframes : frames.length < callLimit)
    {c : Call} {f : Function} (hf : function? s c.name = some f) :
    let params := bind f c.args
    let lines := f.script.map (render s (frames ++ [frame f]) params)
    (∀ name v, params.get? name = some v ↔ Supplied f c.args name v) ∧
      ((∃ p, Missing f c.args p) → ∃ p, Missing f c.args p ∧ (∀ q, Missing f c.args q → p ≤ q) ∧
        (tracedCall s frames c).result = ⟨[], [.missingRequired c.name p]⟩ ∧
        (tracedCall s frames c).log = []) ∧
      ((∀ p, ¬Missing f c.args p) → tracedCall s frames c = tracedBody s frames c f ∧
        (tracedCall s frames c).result =
          ⟨lineSeparator.intercalate (lines.map (·.text)), lines.flatMap (·.misses)⟩) ∧
      ∀ outer text, render s frames outer text = (beforeCalls s frames outer text.toList).andThen
        (call.fill fun c => (tracedCall s frames c).result) := by
  refine ⟨fun name v => get?_bind_eq_some_iff, ?_, ?_, render_eq_calls s frames⟩
  · rintro ⟨p, hp⟩
    cases hu : unbound? f (bind f c.args) with
    | none => exact absurd hp (unbound?_bind_eq_none_iff.1 hu p)
    | some least =>
      obtain ⟨hmissing, hleast⟩ := missing_of_unbound? hu
      rw [tracedCall_of_unbound hframes hf hu]
      exact ⟨least, hmissing, hleast, rfl, rfl⟩
  · intro hbound
    rw [tracedCall_of_bound hframes hf (unbound?_bind_eq_none_iff.2 hbound), result_tracedBody]
    exact ⟨rfl, Expansion.eq_of_parts (Expansion.text_join ..) (Expansion.misses_join ..)⟩

namespace Shipping

/-- A function that requires three parameters, one of which has a default. -/
def ship : Function where
  params := .ofList [("zone", { required := true }), ("env", { required := true }),
    ("tag", { required := true, default := some "latest" })]
  script := ["ship @\x7benv\x7d:@\x7btag\x7d", "check @\x7bzone\x7d @\x7bnone\x7d"]

/-- The scope of the function. -/
def scope : Scope where
  env _ := none
  project := { functions := .ofList [("ship", ship)] }
  globals := {}

/-- As many frames as may stand when one more call is made. -/
def frames : List Value := List.replicate 31 .null

/-- A call that leaves two parameters without a value. -/
def short : Call := ⟨"ship", "tag=1"⟩

/-- A call with a parameter that is bound twice, and with a flag. -/
def full : Call := ⟨"ship", "env=dev, zone, env='prod'"⟩

/-- The first call is skipped, and the second one is expanded with the last argument of a name. -/
theorem call_whole_or_nothing_shipping :
    frames.length < callLimit ∧ function? scope "ship" = some ship ∧
      Missing ship short.args "zone" ∧
      (∀ q, Missing ship short.args q → "env" ≤ q) ∧
      (tracedCall scope frames short).result = ⟨[], [.missingRequired "ship" "env"]⟩ ∧
      (tracedCall scope frames short).log = [] ∧
      (∀ p, ¬Missing ship full.args p) ∧
      (tracedCall scope frames full).result =
        ⟨"ship prod:latest && check true ".toList, [.absentParameter "none"]⟩ := by
  have hframes : frames.length < callLimit := by decide
  have hf : function? scope "ship" = some ship := by decide +kernel
  have hzone : Missing ship short.args "zone" :=
    missing_iff.2 ⟨⟨{ required := true }, by decide +kernel, rfl⟩, by decide +kernel⟩
  have hfull : ∀ p, ¬Missing ship full.args p :=
    unbound?_bind_eq_none_iff.1 (by decide +kernel)
  obtain ⟨-, hskip, -, -⟩ := call_whole_or_nothing scope hframes (c := short) hf
  obtain ⟨-, -, hwhole, -⟩ := call_whole_or_nothing scope hframes (c := full) hf
  obtain ⟨p, -, hleast, hresult, hlog⟩ := hskip ⟨"zone", hzone⟩
  have henv : (tracedCall scope frames short).result = ⟨[], [.missingRequired "ship" "env"]⟩ := by
    decide +kernel
  have hp : p = "env" := by
    rw [henv] at hresult
    simp only [Expansion.mk.injEq, List.cons.injEq, Miss.missingRequired.injEq] at hresult
    exact hresult.2.1.2.symm
  rw [hp] at hleast
  exact ⟨hframes, hf, hzone, hleast, henv, hlog, hfull,
    (hwhole hfull).2.trans (by decide +kernel)⟩

end Shipping

end ProjectScript.Template
