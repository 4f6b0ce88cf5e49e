/-!
# Tables

Finite maps from names to values, listed in the order of their names (by code point). The order
is part of the type, so two tables with the same bindings are equal (`Table.ext_get?`).

* `Table.get?`: the value of a name;
* `Table.insert`: binds a name, replacing an earlier binding (`Table.get?_insert`);
* `Table.overlay`: the bindings of a second table over those of a first (`Table.get?_overlay`);
* `Table.ofList`: the last binding of a name wins (`Table.get?_ofList`, `Table.ofList_append`);
* `Table.filterMap`: keeps the names with a value that a function gives (`Table.get?_filterMap`).
-/

namespace ProjectScript

universe u v

/-- A finite map from names to values, listed in the order of the names. -/
structure Table (α : Type u) where
  entries : List (String × α)
  sorted : entries.Pairwise fun a b => a.1 < b.1

namespace Table

variable {α : Type u} {β : Type v}

instance [BEq α] : BEq (Table α) := ⟨fun a b => a.entries == b.entries⟩

instance [DecidableEq α] : DecidableEq (Table α) := fun a b =>
  decidable_of_iff (a.entries = b.entries)
    ⟨fun h => by cases a; cases b; cases h; rfl, fun h => h ▸ rfl⟩

instance [Repr α] : Repr (Table α) := ⟨fun t n => reprPrec t.entries n⟩

/-- The table without bindings. -/
def empty : Table α := ⟨[], .nil⟩

instance : Inhabited (Table α) := ⟨empty⟩

/-- The value of the first binding of a name. -/
def find? (k : String) : List (String × α) → Option α
  | [] => none
  | (k', v) :: rest => if k = k' then some v else find? k rest

/-- The value of a name. -/
def get? (t : Table α) (k : String) : Option α := find? k t.entries

/-- Whether a name is bound. -/
def contains (t : Table α) (k : String) : Bool := (t.get? k).isSome

/-- The names in order. -/
def keys (t : Table α) : List String := t.entries.map (·.1)

/-- Puts a binding at its place among bindings in order. -/
def put (k : String) (v : α) : List (String × α) → List (String × α)
  | [] => [(k, v)]
  | (k', v') :: rest =>
    if k < k' then (k, v) :: (k', v') :: rest
    else if k' < k then (k', v') :: put k v rest
    else (k, v) :: rest

theorem mem_put {k : String} {v : α} {es : List (String × α)} {e : String × α}
    (h : e ∈ put k v es) : e = (k, v) ∨ e ∈ es := by
  fun_induction put k v es with grind

private theorem eq_of_not_lt {a b : String} (h₁ : ¬ a < b) (h₂ : ¬ b < a) : a = b :=
  String.le_antisymm (String.not_lt.1 h₂) (String.not_lt.1 h₁)

theorem put_sorted {k : String} {v : α} {es : List (String × α)}
    (h : es.Pairwise fun a b => a.1 < b.1) : (put k v es).Pairwise fun a b => a.1 < b.1 := by
  induction es with
  | nil => simp [put]
  | cons e rest ih =>
    obtain ⟨k', v'⟩ := e
    rw [List.pairwise_cons] at h
    unfold put
    split
    · rename_i hlt
      refine List.pairwise_cons.2 ⟨?_, List.pairwise_cons.2 h⟩
      intro e he
      rcases List.mem_cons.1 he with rfl | he
      · exact hlt
      · exact String.lt_trans hlt (h.1 e he)
    · split
      · rename_i hlt
        refine List.pairwise_cons.2 ⟨?_, ih h.2⟩
        intro e he
        rcases mem_put he with rfl | he
        · exact hlt
        · exact h.1 e he
      · rename_i h₁ h₂
        obtain rfl := eq_of_not_lt h₁ h₂
        exact List.pairwise_cons.2 ⟨fun e he => h.1 e he, h.2⟩

/-- Binds a name, replacing an earlier binding of it. -/
def insert (t : Table α) (k : String) (v : α) : Table α :=
  ⟨put k v t.entries, put_sorted t.sorted⟩

/-- The table of a list of bindings; the last binding of a name wins. -/
def ofList (es : List (String × α)) : Table α :=
  es.foldl (fun t e => t.insert e.1 e.2) empty

/-- The bindings of `s` over those of `t`. -/
def overlay (t s : Table α) : Table α :=
  s.entries.foldl (fun t e => t.insert e.1 e.2) t

/-- The same names with each value changed. -/
def map (f : String → α → β) (t : Table α) : Table β where
  entries := t.entries.map fun e => (e.1, f e.1 e.2)
  sorted := List.pairwise_map.2 t.sorted

/-- The names whose value `f` keeps, with the value it gives. -/
def filterMap (f : String → α → Option β) (t : Table α) : Table β where
  entries := t.entries.filterMap fun e => (f e.1 e.2).map (e.1, ·)
  sorted := by
    refine List.pairwise_filterMap.2 (t.sorted.imp ?_)
    intro a b hab x hx y hy
    simp only [Option.map_eq_some_iff] at hx hy
    obtain ⟨_, _, rfl⟩ := hx
    obtain ⟨_, _, rfl⟩ := hy
    exact hab

@[simp] theorem get?_empty (k : String) : (empty : Table α).get? k = none := rfl

theorem find?_put (k k' : String) (v : α) (es : List (String × α)) :
    find? k' (put k v es) = if k' = k then some v else find? k' es := by
  induction es with
  | nil => simp [put, find?]
  | cons e rest ih =>
    obtain ⟨a, b⟩ := e
    unfold put
    split
    · simp [find?]
    · split
      · rename_i hlt
        rw [find?, find?, ih]
        by_cases hk : k' = k
        · subst hk
          have hne : k' ≠ a := fun h => String.lt_irrefl _ (h ▸ hlt)
          simp [hne]
        · simp [hk]
      · rename_i h₁ h₂
        obtain rfl := eq_of_not_lt h₁ h₂
        by_cases hk : k' = k <;> simp [find?, hk]

@[simp] theorem get?_insert (t : Table α) (k k' : String) (v : α) :
    (t.insert k v).get? k' = if k' = k then some v else t.get? k' :=
  find?_put k k' v t.entries

theorem find?_eq_none {k : String} {es : List (String × α)} (h : ∀ e ∈ es, k < e.1) :
    find? k es = none := by
  induction es with
  | nil => rfl
  | cons e rest ih =>
    obtain ⟨a, b⟩ := e
    have hne : k ≠ a := fun e => String.lt_irrefl _ (e ▸ h (a, b) (by simp) : k < k)
    rw [find?, if_neg hne]
    exact ih fun x hx => h x (by simp [hx])

theorem get?_foldl_insert (es : List (String × α)) (hs : es.Pairwise fun a b => a.1 < b.1)
    (t : Table α) (k : String) :
    (es.foldl (fun t e => t.insert e.1 e.2) t).get? k = (find? k es).or (t.get? k) := by
  induction es generalizing t with
  | nil => simp [find?]
  | cons e rest ih =>
    obtain ⟨a, b⟩ := e
    rw [List.pairwise_cons] at hs
    rw [List.foldl_cons, ih hs.2, get?_insert, find?]
    by_cases hk : k = a
    · subst hk
      simp [show find? k rest = none from find?_eq_none hs.1]
    · simp [hk]

theorem get?_overlay (t s : Table α) (k : String) :
    (t.overlay s).get? k = (s.get? k).or (t.get? k) :=
  get?_foldl_insert s.entries s.sorted t k

theorem find?_append (k : String) (es fs : List (String × α)) :
    find? k (es ++ fs) = (find? k es).or (find? k fs) := by
  induction es with
  | nil => rfl
  | cons e es ih =>
    rw [List.cons_append, find?, find?, ih]
    split <;> rfl

/-- A name has the value of its last binding in the list. -/
theorem get?_ofList (es : List (String × α)) (k : String) :
    (ofList es).get? k = find? k es.reverse := by
  have h : ∀ t : Table α, (es.foldl (fun t e => t.insert e.1 e.2) t).get? k =
      (find? k es.reverse).or (t.get? k) := by
    induction es with
    | nil => exact fun t => rfl
    | cons e es ih =>
      intro t
      rw [List.foldl_cons, ih, List.reverse_cons, find?_append, Option.or_assoc, get?_insert, find?]
      split <;> rfl
  exact (h empty).trans (Option.or_none)

/-- A binding of a table is found by its name. -/
theorem get?_of_mem {t : Table α} {e : String × α} (h : e ∈ t.entries) :
    t.get? e.1 = some e.2 := by
  obtain ⟨es, hes⟩ := t
  rw [get?]
  induction es with
  | nil => cases h
  | cons f es ih =>
    obtain ⟨k, v⟩ := f
    rw [List.pairwise_cons] at hes
    rw [find?]
    rcases List.mem_cons.1 h with rfl | he
    · rw [if_pos rfl]
    · have hne : e.1 ≠ k := fun heq => String.lt_irrefl k (heq ▸ hes.1 e he)
      rw [if_neg hne]
      exact ih hes.2 he

theorem get?_filterMap (f : String → α → Option β) (t : Table α) (k : String) :
    (t.filterMap f).get? k = (t.get? k).bind (f k) := by
  obtain ⟨es, hes⟩ := t
  simp only [get?, filterMap]
  induction es with
  | nil => rfl
  | cons e es ih =>
    obtain ⟨a, v⟩ := e
    rw [List.pairwise_cons] at hes
    have hrest := ih hes.2
    rw [List.filterMap_cons, find?]
    by_cases hk : k = a
    · subst hk
      rw [if_pos rfl, Option.bind_some]
      cases hv : f k v with
      | some w => rw [Option.map_some, find?, if_pos rfl]
      | none =>
        rw [Option.map_none, hrest, find?_eq_none hes.1]
        rfl
    · rw [if_neg hk]
      cases hv : f a v with
      | some w => rw [Option.map_some, find?, if_neg hk, hrest]
      | none => rw [Option.map_none, hrest]

/-- Tables with the same bindings are equal. -/
theorem ext_get? {t s : Table α} (h : ∀ k, t.get? k = s.get? k) : t = s := by
  obtain ⟨es, hes⟩ := t
  obtain ⟨fs, hfs⟩ := s
  suffices es = fs by subst this; rfl
  simp only [get?] at h
  induction es generalizing fs with
  | nil =>
    cases fs with
    | nil => rfl
    | cons f fs => simpa [find?] using h f.1
  | cons e es ih =>
    cases fs with
    | nil => simpa [find?] using h e.1
    | cons f fs =>
      obtain ⟨a, b⟩ := e
      obtain ⟨c, d⟩ := f
      rw [List.pairwise_cons] at hes hfs
      have hac : a = c := by
        refine eq_of_not_lt (fun hlt => ?_) (fun hlt => ?_)
        · have := h a
          rw [find?, if_pos rfl, find?_eq_none] at this
          · cases this
          · intro x hx
            rcases List.mem_cons.1 hx with rfl | hx
            · exact hlt
            · exact String.lt_trans hlt (hfs.1 x hx)
        · have := h c
          rw [find?_eq_none, find?, if_pos rfl] at this
          · cases this
          · intro x hx
            rcases List.mem_cons.1 hx with rfl | hx
            · exact hlt
            · exact String.lt_trans hlt (hes.1 x hx)
      subst hac
      have hbd : b = d := by simpa [find?] using h a
      subst hbd
      rw [ih hes.2 fs hfs.2]
      intro k
      by_cases hk : k = a
      · subst hk
        rw [find?_eq_none hes.1, find?_eq_none hfs.1]
      · simpa [find?, hk] using h k

/-- Of two lists of bindings put together, those of the second one lie over those of the first. -/
theorem ofList_append (es fs : List (String × α)) :
    ofList (es ++ fs) = (ofList es).overlay (ofList fs) := by
  refine ext_get? fun k => ?_
  rw [get?_overlay, get?_ofList, get?_ofList, get?_ofList, List.reverse_append, find?_append]

end Table

end ProjectScript
