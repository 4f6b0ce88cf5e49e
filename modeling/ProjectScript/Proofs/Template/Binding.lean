import ProjectScript.Proofs.Template.Expansion

/-!
# What a call supplies

The lines of a function are expanded with the parameters that a call supplies: a name has the value
of the last argument that binds it, else its default unless this is empty, else none
(`get?_bind_eq_some_iff`). A required parameter is `Missing` where it is supplied with nothing, and
the parameter that a call is skipped for is the least missing one, in the order of names
(`missing_of_unbound?`, `unbound?_bind_eq_none_iff`).

An argument may bind a name to the empty value. Such a parameter is not missing.
-/

namespace ProjectScript

namespace Table

variable {α : Type} {k : String}

theorem find?_eq_none_iff {es : List (String × α)} : find? k es = none ↔ ∀ e ∈ es, e.1 ≠ k := by
  induction es with
  | nil => simp [find?]
  | cons e es ih =>
    rw [find?, List.forall_mem_cons, ← ih]
    by_cases h : k = e.1
    · simp [h]
    · simp [h, Ne.symm h]

theorem find?_eq_some_iff {es : List (String × α)} {v : α} :
    find? k es = some v ↔ ∃ before after, es = before ++ (k, v) :: after ∧
      ∀ e ∈ before, e.1 ≠ k := by
  constructor
  · intro h
    induction es with
    | nil => cases h
    | cons e es ih =>
      obtain ⟨k', v'⟩ := e
      rw [find?] at h
      split at h
      · rename_i hk
        cases h
        exact ⟨[], es, by rw [hk, List.nil_append], fun e he => by cases he⟩
      · rename_i hk
        obtain ⟨before, after, rfl, hne⟩ := ih h
        exact ⟨(k', v') :: before, after, rfl, List.forall_mem_cons.2 ⟨Ne.symm hk, hne⟩⟩
  · rintro ⟨before, after, rfl, hne⟩
    rw [find?_append, find?_eq_none_iff.2 hne, find?, if_pos rfl]
    rfl

theorem mem_of_get? {t : Table α} {v : α} (h : t.get? k = some v) : (k, v) ∈ t.entries := by
  obtain ⟨before, after, hes, -⟩ := find?_eq_some_iff.1 h
  rw [hes]
  exact List.mem_append_right _ List.mem_cons_self

end Table

namespace CallArguments

/-- The bindings that the items of an argument text make, in their order. -/
def bindings (args : String) : List (String × String) :=
  (split .start args.toList).filterMap binding?

/-- The last item of an argument text that binds the name binds it to the value. -/
def Binds (args name value : String) : Prop :=
  ∃ before after, bindings args = before ++ (name, value) :: after ∧ ∀ b ∈ after, b.1 ≠ name

theorem get?_parse_eq_some_iff {args name value : String} :
    (parse args).get? name = some value ↔ Binds args name value := by
  have hparse : parse args = Table.ofList (bindings args) := rfl
  rw [hparse, Table.get?_ofList, Table.find?_eq_some_iff]
  constructor
  · rintro ⟨before, after, heq, hne⟩
    have hreverse := congrArg List.reverse heq
    simp only [List.reverse_reverse, List.reverse_append, List.reverse_cons,
      List.append_assoc, List.singleton_append] at hreverse
    exact ⟨after.reverse, before.reverse, hreverse, fun b hb => hne b (List.mem_reverse.1 hb)⟩
  · rintro ⟨before, after, heq, hne⟩
    refine ⟨after.reverse, before.reverse, ?_, fun b hb => hne b (List.mem_reverse.1 hb)⟩
    rw [heq]
    simp

end CallArguments

/-- Only a default that is not empty counts. -/
theorem Parameter.seed_eq_some_iff {q : Parameter} {v : String} :
    q.seed = some v ↔ q.default = some v ∧ v ≠ "" := by
  rw [Parameter.seed, Option.filter_eq_some_iff]
  simp

/-- A function requires a parameter. -/
def Function.Requires (f : Function) (name : String) : Prop :=
  ∃ q, f.params.get? name = some q ∧ q.required = true

namespace Template

open CallArguments (Binds get?_parse_eq_some_iff)

variable {f : Function} {args name value : String}

/-- What a call supplies for a name: the last argument that binds it, else a default that is not
empty. -/
inductive Supplied (f : Function) (args name : String) : String → Prop
  | argument {v : String} : Binds args name v → Supplied f args name v
  | default {q : Parameter} {v : String} : (∀ w, ¬Binds args name w) →
      f.params.get? name = some q → q.default = some v → v ≠ "" → Supplied f args name v

/-- A required parameter that a call supplies nothing for. -/
structure Missing (f : Function) (args name : String) : Prop where
  requires : f.Requires name
  noArgument : (CallArguments.parse args).get? name = none
  noDefault : ∀ q, f.params.get? name = some q → q.default = none ∨ q.default = some ""

/-- An argument goes before a default. -/
theorem get?_bind (f : Function) (args name : String) :
    (bind f args).get? name =
      ((CallArguments.parse args).get? name).or ((f.params.get? name).bind Parameter.seed) := by
  rw [bind, Table.get?_overlay, Table.get?_filterMap]

theorem get?_bind_eq_some_iff :
    (bind f args).get? name = some value ↔ Supplied f args name value := by
  rw [get?_bind, Option.or_eq_some_iff, get?_parse_eq_some_iff, Option.bind_eq_some_iff]
  have hnone : (CallArguments.parse args).get? name = none ↔ ∀ w, ¬Binds args name w := by
    simp only [Option.eq_none_iff_forall_ne_some, ← get?_parse_eq_some_iff, ne_eq]
  rw [hnone]
  constructor
  · rintro (h | ⟨hargs, q, hq, hseed⟩)
    · exact .argument h
    · obtain ⟨hdefault, hne⟩ := Parameter.seed_eq_some_iff.1 hseed
      exact .default hargs hq hdefault hne
  · rintro (h | ⟨hargs, hq, hdefault, hne⟩)
    · exact .inl h
    · exact .inr ⟨hargs, _, hq, Parameter.seed_eq_some_iff.2 ⟨hdefault, hne⟩⟩

theorem missing_iff : Missing f args name ↔ f.Requires name ∧ (bind f args).get? name = none := by
  have hseed : ∀ q : Parameter, q.seed = none ↔ q.default = none ∨ q.default = some "" := by
    rintro ⟨_, _ | d⟩
    · simp [Parameter.seed]
    · simp [Parameter.seed]
  rw [get?_bind, Option.or_eq_none_iff, Option.bind_eq_none_iff]
  simp only [hseed]
  exact ⟨fun ⟨hr, ha, hd⟩ => ⟨hr, ha, hd⟩, fun ⟨hr, ha, hd⟩ => ⟨hr, ha, hd⟩⟩

/-- No parameter is unbound when each required one has a value. -/
theorem unbound?_eq_none_iff {params : Table String} :
    unbound? f params = none ↔ ∀ name, f.Requires name → params.get? name ≠ none := by
  rw [unbound?, Option.map_eq_none_iff, List.find?_eq_none]
  constructor
  · rintro h name ⟨q, hq, hrequired⟩ hnone
    apply h (name, q) (Table.mem_of_get? hq)
    simp [hrequired, Table.contains, hnone]
  · rintro h ⟨name, q⟩ hq hunbound
    rw [Bool.and_eq_true, Bool.not_eq_true'] at hunbound
    apply h name ⟨q, Table.get?_of_mem hq, hunbound.1⟩
    simpa [Table.contains] using hunbound.2

/-- The unbound parameter is the first required one without a value. -/
theorem unbound?_eq_some {params : Table String} (h : unbound? f params = some name) :
    (f.Requires name ∧ params.get? name = none) ∧
      ∀ other, f.Requires other → params.get? other = none → name ≤ other := by
  obtain ⟨⟨name, q⟩, hfind, rfl⟩ := Option.map_eq_some_iff.1 h
  obtain ⟨hunbound, before, after, hentries, hbefore⟩ := List.find?_eq_some_iff_append.1 hfind
  have hmem : (name, q) ∈ f.params.entries := by
    rw [hentries]
    exact List.mem_append_right _ List.mem_cons_self
  rw [Bool.and_eq_true, Bool.not_eq_true'] at hunbound
  refine ⟨⟨⟨q, Table.get?_of_mem hmem, hunbound.1⟩, by simpa [Table.contains] using hunbound.2⟩, ?_⟩
  rintro other ⟨q', hq', hrequired⟩ hnone
  have hother := Table.mem_of_get? hq'
  have hsorted := f.params.sorted
  rw [hentries] at hother hsorted
  rcases List.mem_append.1 hother with hother | hother
  · -- the entries in front of the one that is found are not unbound
    have hbound := hbefore _ hother
    simp [hrequired, Table.contains, hnone] at hbound
  · rcases List.mem_cons.1 hother with heq | hother
    · exact (Prod.mk.inj heq).1 ▸ String.le_refl other
    · have hrest := (List.pairwise_append.1 hsorted).2.1
      have hlt := (List.pairwise_cons.1 hrest).1 _ hother
      exact String.not_lt.1 fun hgt => String.lt_irrefl name (String.lt_trans hlt hgt)

theorem unbound?_bind_eq_none_iff :
    unbound? f (bind f args) = none ↔ ∀ name, ¬Missing f args name := by
  simp only [unbound?_eq_none_iff, missing_iff, not_and, ne_eq]

/-- The call is skipped for the least of the missing parameters. -/
theorem missing_of_unbound? (h : unbound? f (bind f args) = some name) :
    Missing f args name ∧ ∀ other, Missing f args other → name ≤ other := by
  obtain ⟨hname, hleast⟩ := unbound?_eq_some h
  refine ⟨missing_iff.2 hname, fun other hother => ?_⟩
  obtain ⟨hrequires, hnone⟩ := missing_iff.1 hother
  exact hleast other hrequires hnone

end Template

end ProjectScript
