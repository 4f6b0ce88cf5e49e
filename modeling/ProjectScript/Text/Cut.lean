/-!
# Cutting a text

A text is cut at each occurrence of a character, and the parts are put together again with that
character between them (`join_cut`). Parts that do not hold the character come back as they were
(`cut_join`), and the parts of two texts with the character between them are those of the first and
those of the second (`cut_append_sep`).
-/

namespace ProjectScript.Text

/-- The parts of a text between the occurrences of a character; there is at least one. -/
def cut (sep : Char) : List Char → List (List Char)
  | [] => [[]]
  | c :: rest =>
    if c = sep then [] :: cut sep rest
    else
      match cut sep rest with
      | [] => [[c]]
      | part :: parts => (c :: part) :: parts

/-- Parts with a character between each two. -/
def join (sep : Char) : List (List Char) → List Char
  | [] => []
  | [part] => part
  | part :: parts => part ++ sep :: join sep parts

theorem join_eq_intercalate (sep : Char) (parts : List (List Char)) :
    join sep parts = [sep].intercalate parts := by
  induction parts with
  | nil => rfl
  | cons p ps ih =>
    cases ps with
    | nil => simp [join, List.intercalate]
    | cons q qs =>
      rw [join, ih]
      · simp [List.intercalate]
      · simp

theorem cut_ne_nil (sep : Char) (s : List Char) : cut sep s ≠ [] := by
  cases s with
  | nil => simp [cut]
  | cons c rest =>
    rw [cut]
    split
    · simp
    · split <;> simp

theorem join_cut (sep : Char) (s : List Char) : join sep (cut sep s) = s := by
  induction s with
  | nil => rfl
  | cons c rest ih =>
    rw [cut]
    cases h : cut sep rest with
    | nil => exact absurd h (cut_ne_nil sep rest)
    | cons part parts =>
      rw [h] at ih
      split
      · rename_i hc
        rw [join, List.nil_append, ih, hc]
        simp
      · cases parts with
        | nil => simpa [join] using ih
        | cons q qs => simpa [join] using ih

theorem cut_of_not_mem {sep : Char} {s : List Char} (h : sep ∉ s) : cut sep s = [s] := by
  induction s with
  | nil => rfl
  | cons c rest ih =>
    simp only [List.mem_cons, not_or] at h
    rw [cut, if_neg (Ne.symm h.1), ih h.2]

theorem cut_append_sep (sep : Char) (s t : List Char) :
    cut sep (s ++ sep :: t) = cut sep s ++ cut sep t := by
  induction s with
  | nil => simp [cut]
  | cons c s ih =>
    rw [List.cons_append, cut, cut, ih]
    split
    · rfl
    · cases h : cut sep s with
      | nil => exact absurd h (cut_ne_nil sep s)
      | cons part parts => rfl

/-- A text without the separator is the first part. -/
theorem cut_append {sep : Char} {s : List Char} (h : sep ∉ s) (t : List Char) :
    cut sep (s ++ sep :: t) = s :: cut sep t := by
  rw [cut_append_sep, cut_of_not_mem h, List.singleton_append]

theorem cut_join {sep : Char} {parts : List (List Char)} (hne : parts ≠ [])
    (h : ∀ part ∈ parts, sep ∉ part) : cut sep (join sep parts) = parts := by
  induction parts with
  | nil => exact absurd rfl hne
  | cons p ps ih =>
    cases ps with
    | nil => simpa [join] using cut_of_not_mem (h p (by simp))
    | cons q qs =>
      rw [join, cut_append (h p (by simp)), ih (by simp) fun r hr => h r (by simp [hr])]
      simp

theorem not_mem_of_mem_cut {sep : Char} {s part : List Char} (h : part ∈ cut sep s) :
    sep ∉ part := by
  induction s generalizing part with
  | nil =>
    rw [cut, List.mem_singleton] at h
    simp [h]
  | cons c s ih =>
    rw [cut] at h
    split at h
    · rcases List.mem_cons.1 h with rfl | h
      · simp
      · exact ih h
    · rename_i hc
      cases hs : cut sep s with
      | nil => exact absurd hs (cut_ne_nil sep s)
      | cons p ps =>
        rw [hs] at h ih
        rcases List.mem_cons.1 h with rfl | h
        · have hp := ih (List.mem_cons_self ..)
          simp [Ne.symm hc, hp]
        · exact ih (List.mem_cons_of_mem _ h)

/-- The first part is empty exactly when the text is, or starts with a separator. -/
theorem head_cut_eq_nil_iff {sep : Char} {s part : List Char} {parts : List (List Char)}
    (h : cut sep s = part :: parts) : part = [] ↔ s = [] ∨ s.head? = some sep := by
  cases s with
  | nil =>
    cases h
    simp
  | cons c s =>
    rw [cut] at h
    split at h
    · cases h
      simp_all
    · rename_i hc
      split at h <;> cases h <;> simp [hc]

end ProjectScript.Text
