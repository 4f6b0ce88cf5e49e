import ProjectScript.Proofs.FileSystem.Steps

/-!
# Absolute paths

What is made absolute in an absolute directory is absolute (`isAbsolute_of_absolute?`). A path that
is put together from a beginning and names has the names of both (`names_below`), and behind the
root of a path another character than a slash makes no difference to this root (`rootOf_append`).
-/

namespace ProjectScript.Path

theorem exists_of_isAbsolute {p : String} (h : isAbsolute p = true) :
    ∃ s, p.toList = '/' :: s := by
  rw [isAbsolute, beq_iff_eq] at h
  exact List.head?_eq_some_iff.1 h

theorem isEmpty_of_isAbsolute {p : String} (h : isAbsolute p = true) : p.isEmpty = false := by
  rw [Bool.eq_false_iff]
  intro hempty
  rw [String.isEmpty_iff.1 hempty] at h
  cases h

theorem isAbsolute_ofList (cs : List Char) :
    isAbsolute (String.ofList cs) = (cs.head? == some '/') := by
  rw [isAbsolute, String.toList_ofList]

theorem head?_rootOf (p : String) : (rootOf p).head? = some '/' := by
  rw [rootOf]
  split <;> rfl

/-- A slash at the end does not change how a path starts. -/
theorem head?_closed {dir : List Char} (h : dir.head? = some '/') :
    (closed dir).head? = some '/' := by
  rw [closed]
  split
  · exact h
  · rw [List.head?_append, h]
    rfl

/-- What lies below an absolute path is absolute. -/
theorem isAbsolute_below {start : List Char} (h : start.head? = some '/') (names : List (List Char))
    (dir : Bool) : isAbsolute (below start names dir) = true := by
  have hpath : (if names.isEmpty then start else closed start ++ Text.join '/' names).head? =
      some '/' := by
    split
    · exact h
    · rw [List.head?_append, head?_closed h]
      rfl
  rw [below, isAbsolute_ofList, beq_iff_eq]
  split
  · exact head?_closed hpath
  · exact hpath

/-- What is made absolute in an absolute directory is absolute. -/
theorem isAbsolute_of_absolute? {here p q : String} (hh : isAbsolute here = true)
    (h : absolute? here p = some q) : isAbsolute q = true := by
  rw [absolute?] at h
  split at h
  · cases h
  · obtain rfl := Option.some.inj h
    refine isAbsolute_below ?_ _ _
    split
    · exact head?_rootOf p
    · exact beq_iff_eq.1 hh

/-! ## Names -/

theorem names_ofList_append (s t : List Char) :
    names (String.ofList (s ++ '/' :: t)) = names (String.ofList s) ++ names (String.ofList t) := by
  simp only [names, String.toList_ofList, Text.cut_append_sep, List.filter_append]

theorem names_ofList_nil : names (String.ofList []) = [] := by decide +kernel

/-- A name of a path is neither empty nor a dot, and holds no slash. -/
theorem not_void_of_mem_names {p : String} {name : List Char} (h : name ∈ names p) :
    isVoid name = false ∧ '/' ∉ name := by
  unfold names at h
  rw [List.mem_filter] at h
  exact ⟨by simpa using h.2, Text.not_mem_of_mem_cut h.1⟩

theorem names_ofList_join {ns : List (List Char)}
    (h : ∀ name ∈ ns, isVoid name = false ∧ '/' ∉ name) :
    names (String.ofList (Text.join '/' ns)) = ns := by
  cases ns with
  | nil => exact names_ofList_nil
  | cons n ns =>
    rw [names, String.toList_ofList, Text.cut_join (List.cons_ne_nil n ns) fun m hm => (h m hm).2]
    apply List.filter_eq_self.2
    intro m hm
    simp [(h m hm).1]

/-- A directory with a slash at the end is a text with a slash behind it. -/
theorem exists_closed_eq {dir : List Char} (h : dir ≠ []) :
    ∃ front, closed dir = front ++ ['/'] ∧
      names (String.ofList front) = names (String.ofList dir) := by
  unfold closed
  split
  · rename_i hdir
    obtain ⟨front, rfl⟩ := List.getLast?_eq_some_iff.1 (hdir.resolve_left (by simpa using h))
    refine ⟨front, rfl, ?_⟩
    rw [names_ofList_append, names_ofList_nil, List.append_nil]
  · exact ⟨dir, rfl, rfl⟩

theorem names_closed (dir : List Char) :
    names (String.ofList (closed dir)) = names (String.ofList dir) := by
  by_cases h : dir = []
  · subst h
    rfl
  · obtain ⟨front, hfront, hnames⟩ := exists_closed_eq h
    rw [hfront, names_ofList_append, names_ofList_nil, List.append_nil, hnames]

/-- The names below a directory stand behind those of the directory. -/
theorem names_below {start : List Char} {ns : List (List Char)} (hstart : start ≠ [])
    (h : ∀ name ∈ ns, isVoid name = false ∧ '/' ∉ name) (dir : Bool) :
    names (below start ns dir) = names (String.ofList start) ++ ns := by
  have hpath : names (String.ofList
      (if ns.isEmpty then start else closed start ++ Text.join '/' ns)) =
        names (String.ofList start) ++ ns := by
    cases ns with
    | nil => simp
    | cons n ns =>
      obtain ⟨front, hfront, hnames⟩ := exists_closed_eq hstart
      rw [List.isEmpty_cons, if_neg Bool.false_ne_true, hfront, List.append_assoc,
        List.singleton_append, names_ofList_append, names_ofList_join h, hnames]
  unfold below
  cases dir with
  | false => exact hpath
  | true => exact (names_closed _).trans hpath

/-! ## Beginnings -/

theorem rootOf_cases (p : String) : rootOf p = ['/'] ∨ rootOf p = ['/', '/'] := by
  unfold rootOf
  split <;> simp

theorem closed_rootOf (p : String) : closed (rootOf p) = rootOf p := by
  rcases rootOf_cases p with h | h <;> simp [closed, h]

theorem names_rootOf (p : String) : names (String.ofList (rootOf p)) = [] := by
  rcases rootOf_cases p with h | h <;> rw [h] <;> decide +kernel

/-- Behind one slash or two, another character makes no difference to the root. -/
theorem rootOf_append (p : String) {s : List Char} (h : s.head? ≠ some '/') :
    rootOf (String.ofList (rootOf p ++ s)) = rootOf p := by
  cases s with
  | nil => rcases rootOf_cases p with hp | hp <;> rw [hp] <;> decide +kernel
  | cons c s =>
    have hc : c ≠ '/' := by simpa using h
    rcases rootOf_cases p with hp | hp
    · rw [hp]
      simp [rootOf, hc]
    · rw [hp]
      simp [rootOf, hc]

/-! ## Absolute paths -/

theorem getLast?_closed {dir : List Char} (h : dir ≠ []) : (closed dir).getLast? = some '/' := by
  obtain ⟨front, hfront, -⟩ := exists_closed_eq h
  rw [hfront, List.getLast?_concat]

theorem closed_of_getLast? {dir : List Char} (h : dir.getLast? = some '/') : closed dir = dir := by
  unfold closed
  rw [if_pos (.inr h)]

/-- A path below an absolute directory is absolute. -/
theorem isAbsolute_join {base : String} (h : isAbsolute base = true) (p : String) :
    isAbsolute (join base p) = true := by
  obtain ⟨rest, hrest⟩ := exists_of_isAbsolute h
  unfold join
  split
  · rename_i hp
    refine hp.resolve_right ?_
    rw [isEmpty_of_isAbsolute h]
    exact Bool.false_ne_true
  · split <;> simp [isAbsolute, hrest]

end ProjectScript.Path
