import ProjectScript.Decode.Project
import ProjectScript.Proofs.Decode.Record

/-!
# Projects read back

A project written as a value is read as itself (`Decode.project_toValue`), from the parameters up:
each record is set field by field in the order of the names, and each field is read back. A default
that is absent is left out and so stays absent, while an empty one is written and stays empty.

Bodies are the one place where reading brings several shapes to one. What a body comes to is the
relation `Body.Means`: a list is taken entry by entry and any other value as its own only entry,
each text, number or truth value is a line, and the other entries are dropped, a list or an object
with a notice. Every body means one list of lines (`Body.means_iff`), so reading it cannot fail
(`Decode.start_body`); and a list of lines means itself (`Body.lines_linesValue`). Both are put
together in `Decode.projects_read_back_bodies_normalized`.
-/

namespace ProjectScript

namespace Body

/-- The line that a text, a number or a truth value is. -/
inductive Scalar : Value → String → Prop
  | str (s : String) : Scalar (.str s) s
  | num (n : Number) : Scalar (.num n) n.text
  | true : Scalar (.bool true) "true"
  | false : Scalar (.bool false) "false"

/-- A list or an object. -/
inductive Nested : Value → Prop
  | arr (items : List Value) : Nested (.arr items)
  | obj (fields : List (String × Value)) : Nested (.obj fields)

/-- What entries keep: the lines, and the notices about what is dropped. -/
inductive Keeps : List Value → List String → List String → Prop
  | nil : Keeps [] [] []
  | line {v : Value} {s : String} {vs : List Value} {ls ns : List String} :
    Scalar v s → Keeps vs ls ns → Keeps (v :: vs) (s :: ls) ns
  | null {vs : List Value} {ls ns : List String} : Keeps vs ls ns → Keeps (.null :: vs) ls ns
  | nested {v : Value} {vs : List Value} {ls ns : List String} :
    Nested v → Keeps vs ls ns → Keeps (v :: vs) ls (notice?.message v :: ns)

/-- What a body comes to: its lines, and the notices about what is dropped. -/
inductive Means : Value → List String → List String → Prop
  | list {items : List Value} {ls ns : List String} : Keeps items ls ns → Means (.arr items) ls ns
  | bare {v : Value} {ls ns : List String} :
    (∀ items, v ≠ .arr items) → Keeps [v] ls ns → Means v ls ns

section

variable {v : Value} {s : String} {vs : List Value} {ls ns : List String}

theorem Scalar.line? (h : Scalar v s) : line? v = some s := by
  cases h <;> rfl

theorem Scalar.notice? (h : Scalar v s) : notice? v = none := by
  cases h <;> rfl

theorem Nested.line? (h : Nested v) : line? v = none := by
  cases h <;> rfl

theorem Nested.notice? (h : Nested v) : notice? v = some (notice?.message v) := by
  cases h <;> rfl

theorem Keeps.eq_filterMap (h : Keeps vs ls ns) :
    ls = vs.filterMap Body.line? ∧ ns = vs.filterMap Body.notice? := by
  induction h with
  | nil => exact ⟨rfl, rfl⟩
  | line hv _ ih =>
    rw [List.filterMap_cons_some hv.line?, List.filterMap_cons_none hv.notice?, ← ih.1, ← ih.2]
    exact ⟨rfl, rfl⟩
  | null _ ih => exact ih
  | nested hv _ ih =>
    rw [List.filterMap_cons_none hv.line?, List.filterMap_cons_some hv.notice?, ← ih.1, ← ih.2]
    exact ⟨rfl, rfl⟩

theorem keeps_filterMap (vs : List Value) :
    Keeps vs (vs.filterMap Body.line?) (vs.filterMap Body.notice?) := by
  induction vs with
  | nil => exact .nil
  | cons v vs ih =>
    cases v with
    | null => exact .null ih
    | bool b =>
      cases b with
      | false => exact .line .false ih
      | true => exact .line .true ih
    | num n => exact .line (.num n) ih
    | str s => exact .line (.str s) ih
    | arr items => exact .nested (.arr items) ih
    | obj fields => exact .nested (.obj fields) ih

/-- A body means its lines and its notices, and nothing else. -/
theorem means_iff : Means v ls ns ↔ ls = lines v ∧ ns = notices v := by
  constructor
  · rintro (h | ⟨hbare, h⟩)
    · exact h.eq_filterMap
    · have hentries : entries v = [v] := by
        cases v with
        | arr items => exact (hbare items rfl).elim
        | _ => rfl
      rw [lines, notices, hentries]
      exact h.eq_filterMap
  · rintro ⟨rfl, rfl⟩
    have h := keeps_filterMap (entries v)
    cases v with
    | arr items => exact .list h
    | _ => exact .bare nofun h

end

theorem lines_linesValue (ls : List String) : lines (linesValue ls) = ls := by
  change (ls.map Value.str).filterMap line? = ls
  rw [List.filterMap_map]
  exact List.filterMap_some

theorem notices_linesValue (ls : List String) : notices (linesValue ls) = [] := by
  change (ls.map Value.str).filterMap notice? = []
  rw [List.filterMap_map]
  exact List.filterMap_eq_nil_iff.2 fun _ _ => rfl

end Body

namespace Decode

/-! ## Bodies -/

theorem notify_nil : notify [] = pure () := by
  simp only [notify, List.append_nil]
  rfl

theorem body_ofValue (v : Value) :
    body ofValue v = notify (Body.notices v) >>= fun _ => pure (Body.lines v) := rfl

/-- Reading a body and going on without a failure gives its lines and its notices. -/
theorem start_body {α : Type} (f : List String → α) (v : Value) :
    (body ofValue v >>= fun ls => pure (f ls)).start = (some (f (Body.lines v)), Body.notices v) :=
  rfl

theorem body_linesValue (ls : List String) : body ofValue (linesValue ls) = pure ls := by
  rw [body_ofValue, Body.notices_linesValue, notify_nil, pure_bind, Body.lines_linesValue]

/-! ## Records -/

theorem parameter_toValue (p : Parameter) : parameter ofValue p.toValue = pure p := by
  obtain ⟨required, _ | d⟩ := p
  · rw [parameter, Parameter.toValue, record_object (by simp)]
    rfl
  · have hentries (r v : Value) : (Table.ofList [("required", r), ("default", v)]).entries =
        [("default", v), ("required", r)] := by
      simp only [Table.entries_ofList, Table.put, List.foldl_cons, List.foldl_nil, String.reduceLT,
        if_true, if_false]
    rw [parameter, Parameter.toValue, record_object (by simp), hentries]
    rfl

/-- A function is read with the lines of its body, whatever shape that has. -/
theorem function_object (params : Table Parameter) (v : Value) :
    function ofValue (.object [("params", .ofTable (params.map fun _ => Parameter.toValue)),
      ("script", v)]) = body ofValue v >>= fun ls => pure ⟨params, ls⟩ := by
  have hentries (p : Value) : (Table.ofList [("params", p), ("script", v)]).entries =
      [("params", p), ("script", v)] := by
    simp only [Table.entries_ofList, Table.put, List.foldl_cons, List.foldl_nil, String.reduceLT,
      if_true, if_false]
  rw [function, record_object (by simp), hentries]
  simp [table_ofTable parameter_toValue]

theorem function_toValue (f : Function) : function ofValue f.toValue = pure f := by
  rw [Function.toValue, function_object, body_linesValue, pure_bind]

/-- A command is read with the lines of its body, whatever shape that has. -/
theorem command_object (description : String) (v : Value) :
    command ofValue (.object [("description", .str description), ("cmd", v)]) =
      body ofValue v >>= fun ls => pure ⟨description, ls⟩ := by
  have hentries (d : Value) : (Table.ofList [("description", d), ("cmd", v)]).entries =
      [("cmd", v), ("description", d)] := by
    simp only [Table.entries_ofList, Table.put, List.foldl_cons, List.foldl_nil, String.reduceLT,
      if_true, if_false]
  rw [command, record_object (by simp), hentries]
  rfl

theorem command_toValue (c : Command) : command ofValue c.toValue = pure c := by
  rw [Command.toValue, command_object, body_linesValue, pure_bind]

theorem info_toValue (i : Info) : info ofValue i.toValue = pure i := by
  have hentries (n d r : Value) :
      (Table.ofList [("name", n), ("description", d), ("root", r)]).entries =
        [("description", d), ("name", n), ("root", r)] := by
    simp only [Table.entries_ofList, Table.put, List.foldl_cons, List.foldl_nil, String.reduceLT,
      if_true, if_false]
  rw [info, Info.toValue, record_object (by simp), hentries]
  rfl

theorem services_toValue (s : Services) : services ofValue s.toValue = pure s := by
  have hentries (f g : Value) : (Table.ofList [("compose_file", f), ("groups", g)]).entries =
      [("compose_file", f), ("groups", g)] := by
    simp only [Table.entries_ofList, Table.put, List.foldl_cons, List.foldl_nil, String.reduceLT,
      if_true, if_false]
  have hfile : ofValue.text (.str s.file) = pure s.file := rfl
  rw [services, Services.toValue, record_object (by simp), hentries]
  simp [hfile, table_ofTable list_linesValue]

/-- A project is read back from its value. -/
theorem project_toValue (p : Project) : project ofValue p.toValue = pure p := by
  have hentries (i f c s v : Value) : (Table.ofList [("info", i), ("func", f), ("commands", c),
      ("docker", s), ("vars", v)]).entries =
        [("commands", c), ("docker", s), ("func", f), ("info", i), ("vars", v)] := by
    simp only [Table.entries_ofList, Table.put, List.foldl_cons, List.foldl_nil, String.reduceLT,
      if_true, if_false]
  have hvars : ofValue.table ofValue.value (.ofTable p.vars) = pure p.vars := by
    have h : ofValue.table ofValue.value (.ofTable (p.vars.map fun _ v => v)) = pure p.vars :=
      table_ofTable (fun _ => rfl) p.vars
    rwa [Table.map_id] at h
  rw [project, Project.toValue, record_object (by simp), hentries]
  simp [info_toValue, table_ofTable function_toValue, table_ofTable command_toValue,
    services_toValue, hvars]

/-! ## Projects and bodies -/

/-- **Projects are read back, and bodies are normalized once and for all.** Whatever the project
is, its value is read as the project. Whatever value is given as a body, it means certain lines and
notices and no others; reading it, in a function and in a command as on its own, gives these, and
reading the lines again gives the same lines and no notice. -/
theorem projects_read_back_bodies_normalized :
    (∀ p : Project, (project ofValue p.toValue).start = (some p, [])) ∧
      ∀ v : Value, ∃ ls ns, (∀ ls' ns', Body.Means v ls' ns' ↔ ls' = ls ∧ ns' = ns) ∧
        (body ofValue v).start = (some ls, ns) ∧
        (∀ params : Table Parameter,
          (function ofValue (.object [("params", .ofTable (params.map fun _ => Parameter.toValue)),
            ("script", v)])).start = (some ⟨params, ls⟩, ns)) ∧
        (∀ description : String,
          (command ofValue (.object [("description", .str description), ("cmd", v)])).start =
            (some ⟨description, ls⟩, ns)) ∧
        (body ofValue (linesValue ls)).start = (some ls, []) := by
  refine ⟨fun p => ?_, fun v => ⟨Body.lines v, Body.notices v, fun _ _ => Body.means_iff, rfl,
    fun params => ?_, fun description => ?_, ?_⟩⟩
  · rw [project_toValue]
    rfl
  · rw [function_object, start_body]
  · rw [command_object, start_body]
  · rw [body_linesValue]
    rfl

end Decode

end ProjectScript
