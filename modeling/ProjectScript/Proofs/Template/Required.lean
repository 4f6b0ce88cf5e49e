import ProjectScript.Proofs.Template.WholeCall

/-!
# Required parameters

Where the lines of a function are expanded, each parameter that the function requires should have a
value that is not empty, and a call that leaves one without such a value should be skipped. What
stands before the lines asks for less: that each required parameter has a value. The two differ
where an argument gives a required parameter the empty value (`OnlyEmptied`), be it written so or
the rest of a reference that resolved to nothing: such a call is expanded all the same
(`emptied_parameter_passes`). There is no other exception (`required_supplied_unless_emptied`), as a
default that is empty is none.
-/

namespace ProjectScript.Template

open CallArguments (Binds get?_parse_eq_some_iff)

/-- Each parameter that a function requires has a value that is not empty. -/
def Fulfilled (f : Function) (params : Table String) : Prop :=
  ∀ name, f.Requires name → ∃ v, params.get? name = some v ∧ v ≠ ""

/-- Nothing that a function requires is missing, but an argument gives some of it the empty
value. -/
structure OnlyEmptied (f : Function) (args : String) : Prop where
  noneMissing : ∀ name, ¬Missing f args name
  exists_emptied : ∃ name, f.Requires name ∧ Binds args name ""

/-- A call is skipped as a whole: it leaves no text, and one miss that names a parameter, and nothing
of the function is expanded. -/
def Skipped (s : Scope) (frames : List Value) (c : Call) : Prop :=
  ∃ p, tracedCall s frames c = .quiet (.miss (.missingRequired c.name p))

section

variable {f : Function} {args : String}

theorem exists_supplied_of_not_missing {name : String} (hr : f.Requires name)
    (hm : ¬Missing f args name) : ∃ v, Supplied f args name v := by
  rw [missing_iff, not_and] at hm
  obtain ⟨v, hv⟩ := Option.ne_none_iff_exists'.1 (hm hr)
  exact ⟨v, get?_bind_eq_some_iff.1 hv⟩

/-- Only an argument supplies the empty value. -/
theorem binds_of_supplied_empty {name : String} (h : Supplied f args name "") :
    Binds args name "" := by
  cases h with
  | argument h => exact h
  | default _ _ _ hne => exact absurd rfl hne

theorem not_fulfilled_of_missing {name : String} (h : Missing f args name) :
    ¬Fulfilled f (bind f args) := by
  intro hs
  obtain ⟨hr, hnone⟩ := missing_iff.1 h
  obtain ⟨v, hv, -⟩ := hs name hr
  rw [hnone] at hv
  cases hv

theorem not_fulfilled_of_onlyEmptied (h : OnlyEmptied f args) : ¬Fulfilled f (bind f args) := by
  intro hs
  obtain ⟨name, hr, hb⟩ := h.exists_emptied
  obtain ⟨v, hv, hne⟩ := hs name hr
  rw [get?_bind_eq_some_iff.2 (.argument hb)] at hv
  exact hne (Option.some.inj hv).symm

/-- Where nothing is missing, what is required has a value unless an argument has emptied it. -/
theorem fulfilled_iff (hm : ∀ name, ¬Missing f args name) :
    Fulfilled f (bind f args) ↔ ¬OnlyEmptied f args := by
  refine ⟨fun hs he => not_fulfilled_of_onlyEmptied he hs, fun he name hr => ?_⟩
  obtain ⟨v, hv⟩ := exists_supplied_of_not_missing hr (hm name)
  refine ⟨v, get?_bind_eq_some_iff.2 hv, ?_⟩
  rintro rfl
  exact he ⟨hm, name, hr, binds_of_supplied_empty hv⟩

end

section

variable {s : Scope} {frames : List Value} {c : Call} {f : Function}

/-- A body leaves a miss only with something of it expanded. -/
theorem tracedBody_ne_quiet_miss (m : Miss) : tracedBody s frames c f ≠ .quiet (.miss m) := by
  intro h
  cases hlines : f.script with
  | nil =>
    have hmisses := congrArg (fun t => t.result.misses) h
    rw [result_tracedBody, hlines] at hmisses
    cases hmisses
  | cons line lines =>
    have hlog := congrArg Traced.log h
    rw [tracedBody, hlines] at hlog
    cases hlog

theorem skipped_iff (hframes : frames.length < callLimit) (hf : function? s c.name = some f) :
    Skipped s frames c ↔ ∃ p, Missing f c.args p := by
  cases hu : unbound? f (bind f c.args) with
  | none =>
    rw [Skipped, tracedCall_of_bound hframes hf hu]
    have hnone := unbound?_bind_eq_none_iff.1 hu
    exact ⟨fun ⟨p, hp⟩ => absurd hp (tracedBody_ne_quiet_miss _), fun ⟨p, hp⟩ => absurd hp (hnone p)⟩
  | some p =>
    have hskipped : Skipped s frames c := ⟨p, tracedCall_of_unbound hframes hf hu⟩
    exact ⟨fun _ => ⟨p, (missing_of_unbound? hu).1⟩, fun _ => hskipped⟩

/-- Whatever is expanded within a call, nothing that the called function requires is missing. -/
theorem not_missing_of_mem_log {params : Table String} {text : String} {e : Entry}
    (he : e ∈ (trace s frames params text).log) :
    ∀ a ∈ e.calls, ∀ name, ¬Missing a.function a.call.args name := by
  apply Traced.forall_mem_log (P := fun _ _ e => ∀ a ∈ e.calls, ∀ name,
    ¬Missing a.function a.call.args name) ?_ ?_ ?_ _ _ _ _ e he
  · intro C depth path a ha
    cases ha
  · intro C depth c f line _ hu _ a ha
    rw [List.mem_singleton.1 ha]
    exact unbound?_bind_eq_none_iff.1 hu
  · intro C depth c f e _ hu h a ha
    rcases List.mem_cons.1 ha with rfl | ha
    · exact unbound?_bind_eq_none_iff.1 hu
    · exact h a ha

end

/-- **Required parameters are supplied unless an argument empties them.** Whatever is expanded
within calls, at any depth, each of the called functions has values that are not empty for all that
it requires, except where an argument gives it the empty one. For each call of a known function
with room for it below the limit: a call that is skipped leaves something required without a
value, a call that is not skipped has its lines expanded with the parameters that it supplies, and
a call that leaves something required without a value that is not empty is skipped, except where
the values are only emptied by arguments. -/
theorem required_supplied_unless_emptied (s : Scope) (frames : List Value) (params : Table String)
    (text : String) :
    (∀ e ∈ (trace s frames params text).log, ∀ a ∈ e.calls,
        (Fulfilled a.function (bind a.function a.call.args) ↔
          ¬OnlyEmptied a.function a.call.args)) ∧
      ∀ c f, frames.length < callLimit → function? s c.name = some f →
        (Skipped s frames c → ¬Fulfilled f (bind f c.args)) ∧
          (¬Skipped s frames c → tracedCall s frames c = tracedBody s frames c f) ∧
          ((¬Fulfilled f (bind f c.args) → Skipped s frames c) ↔ ¬OnlyEmptied f c.args) := by
  refine ⟨fun e he a ha => fulfilled_iff (not_missing_of_mem_log he a ha), ?_⟩
  intro c f hframes hf
  have hskipped := skipped_iff hframes hf
  refine ⟨?_, ?_, ?_⟩
  · intro h
    obtain ⟨p, hp⟩ := hskipped.1 h
    exact not_fulfilled_of_missing hp
  · intro h
    rw [hskipped, not_exists] at h
    exact tracedCall_of_bound hframes hf (unbound?_bind_eq_none_iff.2 h)
  · constructor
    · intro h he
      obtain ⟨p, hp⟩ := hskipped.1 (h (not_fulfilled_of_onlyEmptied he))
      exact he.noneMissing p hp
    · intro he hs
      by_cases h : Skipped s frames c
      · exact h
      · rw [hskipped, not_exists] at h
        exact absurd ((fulfilled_iff h).2 he) hs

namespace Deployment

/-- A function that cannot do without its parameter. -/
def deploy : Function where
  params := .ofList [("env", { required := true }), ("tag", { default := some "" })]
  script := ["build", "ship @\x7benv\x7d"]

/-- The scope of the function. -/
def scope : Scope where
  env _ := none
  project := { functions := .ofList [("deploy", deploy)] }
  globals := {}

/-- A command that hands its arguments on to the function. -/
def template : String := "_\x7bdeploy(env=@\x7bargs\x7d)\x7d"

/-- The parameters of the command. -/
def withArgs (args : String) : Table String := .ofList [("args", args)]

/-- The second line of the function, within a call with these arguments. -/
def shipping (args : String) : Entry where
  calls := [⟨⟨"deploy", args⟩, deploy⟩]
  frames := [frame deploy]
  event := .line "ship @\x7benv\x7d"

theorem requires_env : deploy.Requires "env" := ⟨{ required := true }, by decide +kernel, rfl⟩

theorem eq_env_of_requires {name : String} (h : deploy.Requires name) : name = "env" := by
  obtain ⟨q, hq, hrequired⟩ := h
  simp only [deploy, Table.get?_ofList, List.reverse_cons, List.reverse_nil, List.nil_append,
    List.singleton_append, Table.find?] at hq
  split at hq
  · cases hq
    cases hrequired
  · rename_i hname
    split at hq
    · assumption
    · cases hq

/-- With an argument the function is expanded and has what it requires. Without one, with a
parameter that it has an empty default for, it is skipped. -/
theorem required_supplied_deployment :
    shipping "env=prod" ∈ (trace scope [] (withArgs "prod") template).log ∧
      ⟨⟨"deploy", "env=prod"⟩, deploy⟩ ∈ (shipping "env=prod").calls ∧
      ¬OnlyEmptied deploy "env=prod" ∧ Fulfilled deploy (bind deploy "env=prod") ∧
      ([] : List Value).length < callLimit ∧ function? scope "deploy" = some deploy ∧
      ¬OnlyEmptied deploy "tag=1" ∧ ¬Fulfilled deploy (bind deploy "tag=1") ∧
      Skipped scope [] ⟨"deploy", "tag=1"⟩ := by
  have hmem : shipping "env=prod" ∈ (trace scope [] (withArgs "prod") template).log := by
    decide +kernel
  have hprod : bind deploy "env=prod" = .ofList [("env", "prod")] := by decide +kernel
  have hmet : Fulfilled deploy (bind deploy "env=prod") := by
    intro name hr
    rw [eq_env_of_requires hr, hprod]
    exact ⟨"prod", by decide +kernel, by decide⟩
  have htag : Missing deploy "tag=1" "env" :=
    missing_iff.2 ⟨requires_env, by decide +kernel⟩
  have hlimit : ([] : List Value).length < callLimit := by decide
  have hf : function? scope "deploy" = some deploy := by decide +kernel
  have hunmet := not_fulfilled_of_missing htag
  have hnot : ¬OnlyEmptied deploy "tag=1" := fun h => h.noneMissing "env" htag
  obtain ⟨hentries, hcalls⟩ :=
    required_supplied_unless_emptied scope [] (withArgs "prod") template
  have hiff := hentries _ hmem _ List.mem_cons_self
  obtain ⟨-, -, hskip⟩ := hcalls ⟨"deploy", "tag=1"⟩ deploy hlimit hf
  exact ⟨hmem, List.mem_cons_self, hiff.1 hmet, hmet, hlimit, hf, hnot, hunmet,
    hskip.2 hnot hunmet⟩

/-- Without an argument the command empties the parameter, and the function is expanded. -/
theorem emptied_parameter_passes :
    deploy.Requires "env" ∧ (bind deploy "env=").get? "env" = some "" ∧
      ¬Fulfilled deploy (bind deploy "env=") ∧ ¬Skipped scope [] ⟨"deploy", "env="⟩ ∧
      shipping "env=" ∈ (trace scope [] (withArgs "") template).log ∧
      render scope [] (withArgs "") template = ⟨"build && ship ".toList, []⟩ := by
  have hget : (bind deploy "env=").get? "env" = some "" := by decide +kernel
  have hunmet : ¬Fulfilled deploy (bind deploy "env=") := by
    intro hs
    obtain ⟨v, hv, hne⟩ := hs "env" requires_env
    rw [hget] at hv
    exact hne (Option.some.inj hv).symm
  have hbound : unbound? deploy (bind deploy "env=") = none := by decide +kernel
  have hskip : ¬Skipped scope [] ⟨"deploy", "env="⟩ := by
    rw [skipped_iff (by decide) (f := deploy) (by decide +kernel), not_exists]
    exact unbound?_bind_eq_none_iff.1 hbound
  exact ⟨requires_env, hget, hunmet, hskip, by decide +kernel, by decide +kernel⟩

end Deployment

end ProjectScript.Template
