import Mathlib.Data.List.Basic
import ProjectScript.Proofs.Template.Expansion

/-!
# The two scopes

What an expansion looks up in the project and in the global document are the paths and the names of
functions that it meets, at any depth (`met`). Each of them belongs to one scope, told by its
prefix alone: there is no way from one scope to the other. So an expansion depends on no scope that
it does not name, and of the project it sees no more than the view and the functions
(`scopes_isolated`).

The argument is about two runs. As long as two scopes give the references that are met the same
meaning (`Scope.Agree`) their runs stay in step, through every stage and every call
(`inStep_expand`): they have the same text at every stage, so they meet the same references.
-/

namespace ProjectScript.Template

/-- A reference that is looked up in one of the scopes or in a frame. -/
inductive Reference
  | path (path : String)
  | call (name : String)
  deriving DecidableEq, Repr

namespace Reference

/-- A reference with the global prefix. -/
def IsGlobal : Reference → Prop
  | path p => globalPrefix <+: p.toList
  | call n => globalPrefix <+: n.toList

/-- A path that starts with a dot. -/
def IsRelative : Reference → Prop
  | path p => p.toList.head? = some '.'
  | call _ => False

instance : DecidablePred IsGlobal
  | path p => inferInstanceAs (Decidable (globalPrefix <+: p.toList))
  | call n => inferInstanceAs (Decidable (globalPrefix <+: n.toList))

instance : DecidablePred IsRelative
  | path p => inferInstanceAs (Decidable (p.toList.head? = some '.'))
  | call _ => inferInstanceAs (Decidable False)

end Reference

/-- The reference of a piece. -/
def Piece.ref? {ρ : Type} : Piece ρ → Option ρ
  | char _ => none
  | ref r => some r

/-- The references of a text, in their order. -/
def Grammar.references {ρ : Type} (g : Grammar ρ) (text : List Char) : List ρ :=
  (g.pieces text).filterMap Piece.ref?

/-- The first two stages. -/
def beforeConfig (s : Scope) (params : Table String) (text : List Char) : Expansion :=
  (env.fill (fun n => .ofOption (s.env n) (.unsetVariable n)) text).andThen
    (param.fill fun n => .ofOption (params.get? n) (.absentParameter n))

theorem beforeCalls_eq (s : Scope) (frames : List Value) (params : Table String)
    (text : List Char) :
    beforeCalls s frames params text =
      (beforeConfig s params text).andThen (config.fill (configValue s frames)) := rfl

namespace Met

/-- What is met while the line of a function is expanded. -/
abbrev Reader := List Value → Table String → List Char → List Reference

/-- What a call meets: its own name, and what the lines of the function meet if they are
expanded. -/
def ofCall (s : Scope) (inner : Option Reader) (frames : List Value) (c : Call) :
    List Reference :=
  .call c.name ::
    match function? s c.name with
    | none => []
    | some f =>
      match inner with
      | none => []
      | some inner =>
        let params := bind f c.args
        match unbound? f params with
        | some _ => []
        | none => f.script.flatMap fun line => inner (frames ++ [frame f]) params line.toList

/-- What the stages meet: the paths of the third one, and what the calls of the fourth one meet. -/
def stages (s : Scope) (inner : Option Reader) : Reader := fun frames params text =>
  (config.references (beforeConfig s params text).text).map .path ++
    (call.references (beforeCalls s frames params text).text).flatMap (ofCall s inner frames)

/-- What an expansion with at most `depth` calls within one another meets. -/
def expand (s : Scope) : (depth : Nat) → Reader
  | 0 => stages s none
  | depth + 1 => stages s (some (expand s depth))

/-- What the lines of a called function meet when `depth` calls may stand within one another. -/
def lineReader? (s : Scope) : (depth : Nat) → Option Reader
  | 0 => none
  | depth + 1 => some (expand s depth)

theorem expand_eq (s : Scope) (depth : Nat) : expand s depth = stages s (lineReader? s depth) := by
  cases depth <;> rfl

end Met

/-- The references that the expansion of a template meets, at any depth. -/
def met (s : Scope) (frames : List Value) (params : Table String) (text : String) :
    List Reference :=
  Met.expand s (callLimit - frames.length) frames params text.toList

/-! ## Two runs in step -/

/-- Two scopes give a reference the same meaning. -/
def Scope.Agree (s s' : Scope) : Reference → Prop
  | .path p => ∀ frames, lookup s' frames p = lookup s frames p
  | .call n => function? s' n = function? s n

theorem replace_congr {ρ : Type} {value value' : ρ → Expansion} {ps : List (Piece ρ)}
    (h : ∀ r ∈ ps.filterMap Piece.ref?, value' r = value r) :
    replace value' ps = replace value ps := by
  induction ps with
  | nil => rfl
  | cons p ps ih =>
    cases p with
    | char c => rw [replace, replace, ih h]
    | ref r =>
      rw [replace, replace, h r List.mem_cons_self, ih fun r' hr => h r' (List.mem_cons_of_mem _ hr)]

/-- A stage depends on the values of the references in its text. -/
theorem fill_congr {ρ : Type} (g : Grammar ρ) {value value' : ρ → Expansion} {text : List Char}
    (h : ∀ r ∈ g.references text, value' r = value r) : g.fill value' text = g.fill value text :=
  replace_congr h

/-- The runs of two scopes are in step, with at most `depth` calls within one another: if they agree
on what the first run meets, the second one gives the same and meets the same. -/
def InStep (s s' : Scope) (depth : Nat) : Prop :=
  ∀ frames params text, (∀ r ∈ Met.expand s depth frames params text, s.Agree s' r) →
    expand s' depth frames params text = expand s depth frames params text ∧
      Met.expand s' depth frames params text = Met.expand s depth frames params text

section

variable {s s' : Scope}

theorem beforeCalls_of_agree (he : s'.env = s.env) (frames : List Value) {params : Table String}
    {text : List Char}
    (h : ∀ p ∈ config.references (beforeConfig s params text).text, s.Agree s' (.path p)) :
    beforeCalls s' frames params text = beforeCalls s frames params text := by
  have hfirst : beforeConfig s' params text = beforeConfig s params text := by
    rw [beforeConfig, he]
    rfl
  have hvalue : ∀ p ∈ config.references (beforeConfig s params text).text,
      configValue s' frames p = configValue s frames p := by
    intro p hp
    rw [configValue, configValue, h p hp frames]
  rw [beforeCalls_eq, beforeCalls_eq, hfirst, Expansion.andThen, Expansion.andThen,
    fill_congr config hvalue]

/-- A call keeps the runs in step, if the runs one level deeper are. -/
theorem call_of_agree {depth : Nat} (hd : ∀ d, depth = d + 1 → InStep s s' d) {frames : List Value}
    {c : Call} (h : ∀ r ∈ Met.ofCall s (Met.lineReader? s depth) frames c, s.Agree s' r) :
    expandCall s' (lineExpander? s' depth) frames c =
        expandCall s (lineExpander? s depth) frames c ∧
      Met.ofCall s' (Met.lineReader? s' depth) frames c =
        Met.ofCall s (Met.lineReader? s depth) frames c := by
  have hname : function? s' c.name = function? s c.name := h _ List.mem_cons_self
  rw [expandCall, expandCall, Met.ofCall, Met.ofCall, hname]
  rw [Met.ofCall] at h
  cases hf : function? s c.name with
  | none => exact ⟨rfl, rfl⟩
  | some f =>
    cases depth with
    | zero => exact ⟨rfl, rfl⟩
    | succ d =>
      dsimp only [lineExpander?, Met.lineReader?]
      cases hu : unbound? f (bind f c.args) with
      | some p => exact ⟨rfl, rfl⟩
      | none =>
        simp only [hf, Met.lineReader?, hu] at h ⊢
        have hline : ∀ line ∈ f.script,
            expand s' d (frames ++ [frame f]) (bind f c.args) line.toList =
                expand s d (frames ++ [frame f]) (bind f c.args) line.toList ∧
              Met.expand s' d (frames ++ [frame f]) (bind f c.args) line.toList =
                Met.expand s d (frames ++ [frame f]) (bind f c.args) line.toList :=
          fun line hl => hd d rfl _ _ _ fun r hr =>
            h r (List.mem_cons_of_mem _ (List.mem_flatMap.2 ⟨line, hl, hr⟩))
        rw [List.map_congr_left fun line hl => (hline line hl).1,
          List.flatMap_congr fun line hl => (hline line hl).2]
        exact ⟨rfl, rfl⟩

theorem stages_of_agree (he : s'.env = s.env) {depth : Nat}
    (hd : ∀ d, depth = d + 1 → InStep s s' d) : InStep s s' depth := by
  intro frames params text h
  rw [Met.expand_eq, Met.stages] at h
  have hpaths : ∀ p ∈ config.references (beforeConfig s params text).text,
      s.Agree s' (.path p) := fun p hp =>
    h _ (List.mem_append_left _ (List.mem_map_of_mem hp))
  have hbefore := beforeCalls_of_agree he frames hpaths
  have hcalls : ∀ c ∈ call.references (beforeCalls s frames params text).text,
      expandCall s' (lineExpander? s' depth) frames c =
          expandCall s (lineExpander? s depth) frames c ∧
        Met.ofCall s' (Met.lineReader? s' depth) frames c =
          Met.ofCall s (Met.lineReader? s depth) frames c := fun c hc =>
    call_of_agree hd fun r hr => h r (List.mem_append_right _ (List.mem_flatMap.2 ⟨c, hc, hr⟩))
  constructor
  · rw [expand_eq, expand_eq, stages_eq, stages_eq, hbefore, Expansion.andThen, Expansion.andThen,
      fill_congr call fun c hc => (hcalls c hc).1]
  · rw [Met.expand_eq, Met.expand_eq, Met.stages, Met.stages, hbefore,
      List.flatMap_congr fun c hc => (hcalls c hc).2]
    rw [beforeConfig, he]
    rfl

/-- By induction on the depth: the lines of a function are expanded one level deeper. -/
theorem inStep_expand (he : s'.env = s.env) (depth : Nat) : InStep s s' depth := by
  induction depth with
  | zero => exact stages_of_agree he fun d hd => by cases hd
  | succ depth ih =>
    refine stages_of_agree he fun d hd => ?_
    cases hd
    exact ih

end

/-! ## What a prefix selects -/

theorem globalName?_of_prefix {name : String} (h : globalPrefix <+: name.toList) :
    globalName? name = some (String.ofList (name.toList.drop globalPrefix.length)) := by
  rw [globalName?, if_pos (List.isPrefixOf_iff_prefix.2 h)]

theorem globalName?_of_not_prefix {name : String} (h : ¬globalPrefix <+: name.toList) :
    globalName? name = none := by
  rw [globalName?, if_neg fun hp => h (List.isPrefixOf_iff_prefix.1 hp)]

section

variable {s s' : Scope} {r : Reference}

/-- Without the global prefix a reference is not looked up in the global scope. -/
theorem agree_of_not_isGlobal (hp : s'.project = s.project) (h : ¬r.IsGlobal) : s.Agree s' r := by
  cases r with
  | path p =>
    intro frames
    rw [lookup, lookup, globalName?_of_not_prefix h, hp]
  | call n => rw [Scope.Agree, function?, function?, globalName?_of_not_prefix h, hp]

/-- With the global prefix a reference is not looked up in the project, and a path that starts with
a dot is looked up in a frame. -/
theorem agree_of_isGlobal (hg : s'.globals = s.globals) (h : r.IsGlobal ∨ r.IsRelative) :
    s.Agree s' r := by
  by_cases hr : r.IsGlobal
  · cases r with
    | path p =>
      intro frames
      rw [lookup, lookup, globalName?_of_prefix hr, hg]
    | call n => rw [Scope.Agree, function?, function?, globalName?_of_prefix hr, hg]
  · cases r with
    | call n => exact (h.resolve_left hr).elim
    | path p =>
      intro frames
      obtain ⟨cs, hcs⟩ := List.head?_eq_some_iff.1 (h.resolve_left hr)
      have hdots : (p.toList.takeWhile (· == '.')).length ≠ 0 := by
        rw [hcs, List.takeWhile_cons]
        exact Nat.succ_ne_zero _
      rw [lookup, lookup, globalName?_of_not_prefix hr]
      dsimp only
      rw [if_neg hdots, if_neg hdots]

/-- Of the project only the view and the functions are looked into. -/
theorem agree_of_view (hg : s'.globals = s.globals) (hv : s'.project.view = s.project.view)
    (hf : s'.project.functions = s.project.functions) : s.Agree s' r := by
  cases r with
  | path p =>
    intro frames
    rw [lookup, lookup, hg, hv]
  | call n => rw [Scope.Agree, function?, function?, hg, hf]

end

/-! ## Isolation -/

theorem render_of_agree (s s' : Scope) (he : s'.env = s.env) {frames : List Value}
    {params : Table String} {text : String} (h : ∀ r ∈ met s frames params text, s.Agree s' r) :
    render s' frames params text = render s frames params text ∧
      met s' frames params text = met s frames params text :=
  inStep_expand he _ frames params text.toList h

/-- **The scopes are isolated.** An expansion that meets no reference with the global prefix stays
the same, text and misses, under any other global scope. One that meets only references with the
global prefix, and paths into the frames, stays the same under any other project. And of the
project no more than the information, the variables and the functions ever counts. In all cases the
references that are met stay the same, too. -/
theorem scopes_isolated (s : Scope) (frames : List Value) (params : Table String) (text : String) :
    ((∀ r ∈ met s frames params text, ¬r.IsGlobal) → ∀ g : Globals,
        render { s with globals := g } frames params text = render s frames params text ∧
          met { s with globals := g } frames params text = met s frames params text) ∧
      ((∀ r ∈ met s frames params text, r.IsGlobal ∨ r.IsRelative) → ∀ p : Project,
        render { s with project := p } frames params text = render s frames params text ∧
          met { s with project := p } frames params text = met s frames params text) ∧
      ∀ p : Project, p.info = s.project.info → p.vars = s.project.vars →
        p.functions = s.project.functions →
          render { s with project := p } frames params text = render s frames params text ∧
            met { s with project := p } frames params text = met s frames params text := by
  refine ⟨fun h g => ?_, fun h p => ?_, fun p hi hv hf => ?_⟩
  · exact render_of_agree s { s with globals := g } rfl fun r hr =>
      agree_of_not_isGlobal rfl (h r hr)
  · exact render_of_agree s { s with project := p } rfl fun r hr =>
      agree_of_isGlobal rfl (h r hr)
  · have hview : p.view = s.project.view := by rw [Project.view, Project.view, hi, hv]
    exact render_of_agree s { s with project := p } rfl fun r _ => agree_of_view rfl hview hf

namespace Scoped

/-- A project with a function that calls what its parameter names, and a function to be called. -/
def project : Project where
  info := { name := "demo" }
  functions := .ofList
    [("call", { params := .ofList [("next", { required := true })],
                script := ["_\x7b@\x7bnext\x7d()\x7d"] }),
     ("name", { script := ["echo #\x7binfo.name\x7d"] })]

/-- The project with a command. -/
def withCommand : Project := { project with commands := .ofList [("build", {})] }

/-- A global scope with a function that looks at its own parameter. -/
def globals : Globals where
  functions := .ofList
    [("say", { params := .ofList [("text", { default := some "hi" })],
               script := ["echo @\x7btext\x7d", "#\x7b.func.params.text.default\x7d"] })]

/-- Both of them. -/
def both : Scope := ⟨fun _ => none, project, globals⟩

/-- A call of a function that calls another one, by a name that an earlier stage puts together. -/
def inside : String := "_\x7bcall(next=name)\x7d"

/-- A call of a global function. -/
def outside : String := "_\x7bglobal.say()\x7d"

/-- The first call stays in the project, also when the project has a command more; the other one
leaves it. -/
theorem scopes_isolated_both :
    (∀ r ∈ met both [] .empty inside, ¬r.IsGlobal) ∧
      render { both with globals := {} } [] .empty inside = render both [] .empty inside ∧
      (∀ r ∈ met both [] .empty outside, r.IsGlobal ∨ r.IsRelative) ∧
      render { both with project := {} } [] .empty outside = render both [] .empty outside ∧
      (withCommand.info = project.info ∧ withCommand.vars = project.vars ∧
        withCommand.functions = project.functions) ∧
      render { both with project := withCommand } [] .empty inside =
        render both [] .empty inside := by
  have hinside : ∀ r ∈ met both [] .empty inside, ¬r.IsGlobal := by decide +kernel
  have houtside : ∀ r ∈ met both [] .empty outside, r.IsGlobal ∨ r.IsRelative := by
    decide +kernel
  have hsame : withCommand.info = project.info ∧ withCommand.vars = project.vars ∧
      withCommand.functions = project.functions := ⟨rfl, rfl, rfl⟩
  obtain ⟨hglobals, -, hproject⟩ := scopes_isolated both [] .empty inside
  obtain ⟨-, hother, -⟩ := scopes_isolated both [] .empty outside
  exact ⟨hinside, (hglobals hinside {}).1, houtside, (hother houtside {}).1, hsame,
    (hproject withCommand hsame.1 hsame.2.1 hsame.2.2).1⟩

end Scoped

end ProjectScript.Template
