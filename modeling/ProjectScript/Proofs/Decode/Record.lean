import ProjectScript.Decode.Value
import ProjectScript.Project

/-!
# Reading records and tables back

A record is written as an object, so its fields stand in the order of their names, each once.
Reading it takes the fields one after the other (`Decode.record_object`): the check for a field
that comes twice never strikes, since every field read before has a smaller name
(`Decode.foldlM_fields`). A table is read back when its values are (`Decode.table_ofTable`), and so
is a list of texts (`Decode.list_linesValue`). None of these readings leaves a notice; they are
equations between readings, and hold wherever the reading stands.
-/

namespace ProjectScript

namespace Table

variable {α : Type}

theorem overlay_empty (t : Table α) : empty.overlay t = t :=
  ext_get? fun k => by rw [get?_overlay, get?_empty, Option.or_none]

theorem map_id (t : Table α) : t.map (fun _ v => v) = t := by
  obtain ⟨es, hes⟩ := t
  simp [map]

/-- The bindings of a table made of a list, each put at its place. -/
theorem entries_ofList (es : List (String × α)) :
    (ofList es).entries = es.foldl (fun fs e => put e.1 e.2 fs) [] := by
  have h (t : Table α) : (es.foldl (fun t e => t.insert e.1 e.2) t).entries =
      es.foldl (fun fs e => put e.1 e.2 fs) t.entries := by
    induction es generalizing t with
    | nil => rfl
    | cons e es ih => exact ih (t.insert e.1 e.2)
  exact h empty

theorem mem_of_mem_foldl_put {es fs : List (String × α)} {e : String × α}
    (h : e ∈ es.foldl (fun fs e => put e.1 e.2 fs) fs) : e ∈ fs ∨ e ∈ es := by
  induction es generalizing fs with
  | nil => exact .inl h
  | cons f es ih =>
    rcases ih h with hput | hmem
    · exact (mem_put hput).elim (fun heq => .inr (heq ▸ List.mem_cons_self)) .inl
    · exact .inr (List.mem_cons_of_mem f hmem)

end Table

namespace Decode

variable {α : Type}

section

variable {names : List String} {set : α → String → Value → Decode α} {a : α} {seen : List String}

/-- Fields in the order of their names are set one after the other. -/
theorem foldlM_fields
    {step : α × List String → Decode String × Value → Decode (α × List String)}
    (hstep : ∀ a seen k v, k ∈ names → k ∉ seen →
      step (a, seen) (pure k, v) = set a k v >>= fun b => pure (b, k :: seen))
    {es : List (String × Value)} (hes : es.Pairwise fun e f => e.1 < f.1)
    (hnames : ∀ e ∈ es, e.1 ∈ names) (hseen : ∀ e ∈ es, e.1 ∉ seen) :
    ((es.map fun e => (pure e.1, e.2)).foldlM step (a, seen) >>= fun r => pure r.1) =
      es.foldlM (fun a e => set a e.1 e.2) a := by
  induction es generalizing a seen with
  | nil => rfl
  | cons e es ih =>
    obtain ⟨hname, hnames⟩ := List.forall_mem_cons.1 hnames
    obtain ⟨hnew, hseen⟩ := List.forall_mem_cons.1 hseen
    obtain ⟨hlt, hes⟩ := List.pairwise_cons.1 hes
    have hseen' : ∀ f ∈ es, f.1 ∉ e.1 :: seen := by
      intro f hf hmem
      rcases List.mem_cons.1 hmem with heq | hmem
      · exact String.lt_irrefl e.1 (heq ▸ hlt f hf)
      · exact hseen f hf hmem
    rw [List.map_cons, List.foldlM_cons, List.foldlM_cons, hstep _ _ _ _ hname hnew]
    simp only [bind_assoc, pure_bind]
    exact bind_congr fun b => ih hes hnames hseen'

/-- A record written as an object is read field by field. -/
theorem record_object {fields : List (String × Value)} (hnames : ∀ e ∈ fields, e.1 ∈ names) :
    ofValue.record names set a (.object fields) =
      (Table.ofList fields).entries.foldlM (fun a e => set a e.1 e.2) a := by
  have hknown : ∀ e ∈ (Table.ofList fields).entries, e.1 ∈ names := by
    intro e he
    rw [Table.entries_ofList] at he
    exact hnames e ((Table.mem_of_mem_foldl_put he).resolve_left List.not_mem_nil)
  refine foldlM_fields ?_ (Table.ofList fields).sorted hknown fun _ _ => List.not_mem_nil
  intro a seen k v hk hseen
  simp [hk, hseen]

end

/-- A table whose values are read back is read back. -/
theorem table_ofTable {read : Value → Decode α} {write : α → Value}
    (hread : ∀ a, read (write a) = pure a) (t : Table α) :
    ofValue.table read (.ofTable (t.map fun _ => write)) = pure t := by
  have hfold (es : List (String × α)) (s : Table α) :
      ((es.map fun e => (e.1, write e.2)).map fun e => ((pure e.1 : Decode String), e.2)).foldlM
          (fun s e => do return s.insert (← e.1) (← read e.2)) s =
        pure (es.foldl (fun s e => s.insert e.1 e.2) s) := by
    induction es generalizing s with
    | nil => rfl
    | cons e es ih =>
      rw [List.map_cons, List.map_cons, List.foldlM_cons, List.foldl_cons, hread, pure_bind,
        pure_bind, pure_bind, ih]
  have h := hfold t.entries .empty
  change _ = pure (Table.empty.overlay t) at h
  rw [Table.overlay_empty] at h
  exact h

theorem list_linesValue (ls : List String) :
    ofValue.list ofValue.text (linesValue ls) = pure ls := by
  change (ls.map Value.str).mapM ofValue.text = pure ls
  induction ls with
  | nil => rfl
  | cons l ls ih =>
    have hline : ofValue.text (.str l) = pure l := rfl
    rw [List.map_cons, List.mapM_cons, hline, pure_bind, ih, pure_bind]

end Decode

end ProjectScript
