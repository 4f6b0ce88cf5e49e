import ProjectScript.CallArguments
import ProjectScript.Text.Cut

/-!
# Items of an argument text

A separator behind a text that leaves the reader outside quotes and behind no backslash ends its
last item, and what follows is split as if it stood alone (`split_append_separator`). A text that
holds no separator where it is read is one item (`Passes`); such texts can be put together
(`Passes.append`), and those that start and end outside quotes are found again between commas
(`split_join`).
-/

namespace ProjectScript.CallArguments

/-- A separator leaves the place as it is. -/
theorem Place.next_of_separates {p : Place} {c : Char} (h : p.separates c = true) :
    p.next c = p := by
  simp only [Place.separates, Bool.and_eq_true, Bool.not_eq_true', beq_iff_eq] at h
  obtain ⟨⟨⟨rfl, hsingle⟩, hdouble⟩, hescaped⟩ := h
  obtain ⟨single, double, escaped⟩ := p
  cases hsingle
  cases hdouble
  cases hescaped
  rfl

theorem consFirst_ne_nil (c : Char) (items : List (List Char)) : consFirst c items ≠ [] := by
  cases items <;> exact List.cons_ne_nil _ _

theorem consFirst_append (c : Char) {items : List (List Char)} (h : items ≠ [])
    (more : List (List Char)) : consFirst c (items ++ more) = consFirst c items ++ more := by
  cases items with
  | nil => exact (h rfl).elim
  | cons item items => rfl

theorem split_ne_nil (p : Place) (s : List Char) : split p s ≠ [] := by
  cases s with
  | nil => exact List.cons_ne_nil _ _
  | cons c s =>
    rw [split]
    split
    · exact List.cons_ne_nil _ _
    · exact consFirst_ne_nil _ _

/-- A separator outside quotes ends an item. -/
theorem split_append_separator {p : Place} {s : List Char} (h : p.after s = .start)
    (t : List Char) : split p (s ++ ',' :: t) = split p s ++ split .start t := by
  induction s generalizing p with
  | nil =>
    obtain rfl : p = .start := h
    rfl
  | cons c s ih =>
    have h : (p.next c).after s = .start := h
    rw [List.cons_append, split, split]
    split
    · rename_i hc
      rw [Place.next_of_separates hc] at h
      rw [ih h, List.cons_append]
    · rw [ih h, consFirst_append c (split_ne_nil _ _)]

/-! ## One item -/

/-- Read from the place `p` the text is one item, and it leads to the place `q`. -/
structure Passes (p : Place) (s : List Char) (q : Place) : Prop where
  split_eq : split p s = [s]
  after_eq : p.after s = q

namespace Passes

variable {p q r : Place} {c : Char} {s t : List Char}

theorem nil (p : Place) : Passes p [] p := ⟨rfl, rfl⟩

theorem cons (hc : p.separates c = false) (h : Passes (p.next c) s q) : Passes p (c :: s) q where
  split_eq := by
    rw [split, hc, h.split_eq]
    rfl
  after_eq := h.after_eq

/-- The first character separates nothing, and the rest is one item behind it. -/
theorem tail (h : Passes p (c :: s) q) : p.separates c = false ∧ Passes (p.next c) s q := by
  obtain ⟨hsplit, hafter⟩ := h
  rw [split] at hsplit
  split at hsplit
  · cases hsplit
  · rename_i hc
    refine ⟨Bool.eq_false_iff.2 hc, ?_, hafter⟩
    cases hrest : split (p.next c) s with
    | nil => exact (split_ne_nil _ _ hrest).elim
    | cons item items =>
      rw [hrest] at hsplit
      obtain ⟨hitem, hitems⟩ := List.cons.inj hsplit
      rw [(List.cons.inj hitem).2, hitems]

theorem append (hs : Passes p s q) (ht : Passes q t r) : Passes p (s ++ t) r := by
  induction s generalizing p with
  | nil =>
    obtain rfl := hs.after_eq
    exact ht
  | cons c s ih => exact .cons hs.tail.1 (ih hs.tail.2)

end Passes

/-- Items that start and end outside quotes are found again between commas. -/
theorem split_join {items : List (List Char)} (hne : items ≠ [])
    (h : ∀ s ∈ items, Passes .start s .start) : split .start (Text.join ',' items) = items := by
  induction items with
  | nil => exact (hne rfl).elim
  | cons s items ih =>
    obtain ⟨hs, hitems⟩ := List.forall_mem_cons.1 h
    cases items with
    | nil => exact hs.split_eq
    | cons t items =>
      rw [Text.join, split_append_separator hs.after_eq, hs.split_eq,
        ih (List.cons_ne_nil _ _) hitems]
      · rfl
      · exact List.cons_ne_nil _ _

end ProjectScript.CallArguments
