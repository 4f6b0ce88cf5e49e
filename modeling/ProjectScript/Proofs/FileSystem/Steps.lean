import ProjectScript.FileSystem
import ProjectScript.Text.Blank

/-!
# The names on the way along a path

A path that is put together from a directory and a name leads along the names of the directory
first (`steps_join`), and a path leads along the names of its parent first, with at least one more
behind them (`steps_parent?`). In both cases the names count from the same place.
-/

namespace ProjectScript

namespace Path

theorem dropVoid_prefix (parts : List (List Char)) : dropVoid parts <+: parts := by
  have h := List.reverse_prefix.2 (List.dropWhile_suffix (l := parts.reverse) isVoid)
  rwa [List.reverse_reverse] at h

/-- The last one of the parts that are left counts. -/
theorem exists_dropVoid_eq_concat {parts : List (List Char)} (h : dropVoid parts ≠ []) :
    ∃ init last, dropVoid parts = init ++ [last] ∧ last ≠ [] := by
  have hne : parts.reverse.dropWhile isVoid ≠ [] := fun h' => h (by rw [dropVoid, h']; rfl)
  obtain ⟨last, init, hl⟩ := List.exists_cons_of_ne_nil hne
  have hlast : isVoid last = false := by
    have := List.head_dropWhile_not isVoid hne
    simpa only [hl, List.head_cons] using this
  refine ⟨init.reverse, last, ?_, ?_⟩
  · rw [dropVoid, hl, List.reverse_cons]
  · rintro rfl
    cases hlast

/-- Behind the parts of the parent there is at least one that is not empty. -/
theorem exists_eq_parent_append {parts : List (List Char)} (h : dropVoid parts ≠ []) :
    ∃ rest, parts = dropVoid (dropVoid parts).dropLast ++ rest ∧
      rest.filter (!·.isEmpty) ≠ [] := by
  obtain ⟨init, last, hl, hne⟩ := exists_dropVoid_eq_concat h
  obtain ⟨back, hback⟩ := dropVoid_prefix parts
  obtain ⟨mid, hmid⟩ := dropVoid_prefix init
  refine ⟨mid ++ last :: back, ?_, ?_⟩
  · rw [hl, List.dropLast_concat, ← List.append_assoc, hmid, ← hback, hl, List.append_assoc]
    rfl
  · intro hf
    have := List.filter_eq_nil_iff.1 hf last (by simp)
    simp [hne] at this

/-- All parts of a path without a parent count as nothing. -/
theorem isVoid_of_parent?_eq_none {p : String} (h : parent? p = none) :
    ∀ part ∈ Text.cut '/' p.toList, isVoid part = true := by
  obtain ⟨first, tail, hcut⟩ := List.exists_cons_of_ne_nil (Text.cut_ne_nil '/' p.toList)
  have hsplit : split p = (first, dropVoid tail) := by
    rw [split, hcut]
    rfl
  unfold parent? at h
  rw [hsplit] at h
  split at h
  · rename_i heq
    obtain ⟨rfl, htail⟩ := Prod.mk.inj heq
    rw [dropVoid, List.reverse_eq_nil_iff, Text.dropWhile_eq_nil_iff, List.all_reverse,
      List.all_eq_true] at htail
    rw [hcut]
    exact List.forall_mem_cons.2 ⟨rfl, htail⟩
  · cases h
  · split at h <;> cases h

theorem isAbsolute_iff_of_cut {p : String} {first : List Char} {parts : List (List Char)}
    (hp : p ≠ "") (h : Text.cut '/' p.toList = first :: parts) :
    isAbsolute p = true ↔ first = [] := by
  have hnil : p.toList ≠ [] := fun h' => hp (String.toList_eq_nil_iff.1 h')
  rw [Text.head_cut_eq_nil_iff h, isAbsolute, beq_iff_eq]
  exact ⟨Or.inr, fun h' => h'.resolve_left hnil⟩

end Path

namespace FileSystem

open ProjectScript.Path

theorem steps_ofList_append (s t : List Char) :
    steps (String.ofList (s ++ '/' :: t)) = steps (String.ofList s) ++ steps (String.ofList t) := by
  simp only [steps, String.toList_ofList, Text.cut_append_sep, List.filter_append]

theorem steps_ofList_join {parts : List (List Char)} (hne : parts ≠ [])
    (h : ∀ part ∈ parts, '/' ∉ part) :
    steps (String.ofList (Text.join '/' parts)) = parts.filter (!·.isEmpty) := by
  rw [steps, String.toList_ofList, Text.cut_join hne h]

theorem getLast?_join {dir name : String} (h : name ≠ "") :
    (join dir name).toList.getLast? = name.toList.getLast? := by
  have hne : name.toList ≠ [] := fun hnil => h (String.toList_eq_nil_iff.1 hnil)
  have happend (s : String) : (s ++ name).toList.getLast? = name.toList.getLast? := by
    rw [String.toList_append, List.getLast?_append, List.getLast?_eq_some_getLast hne]
    rfl
  rw [join]
  split
  · rfl
  · split
    · exact happend dir
    · exact happend (dir ++ "/")

/-- A name below a directory. -/
theorem steps_join {dir name : String} (hd : dir ≠ "") (hn : isAbsolute name = false) :
    steps (join dir name) = steps dir ++ steps name ∧
      isAbsolute (join dir name) = isAbsolute dir := by
  have hnil : dir.toList ≠ [] := fun h => hd (String.toList_eq_nil_iff.1 h)
  have hhead : ∀ t, (dir.toList ++ t).head? = dir.toList.head? := by
    intro t
    obtain ⟨c, cs, hc⟩ := List.exists_cons_of_ne_nil hnil
    rw [hc]
    rfl
  have hempty : ¬(isAbsolute name = true ∨ dir.isEmpty = true) := by
    simp [hn, hd]
  rw [join, if_neg hempty]
  split
  · rename_i hlast
    obtain ⟨s, hs⟩ := List.getLast?_eq_some_iff.1 hlast
    have hdir : dir = String.ofList (s ++ '/' :: []) := by rw [← hs, String.ofList_toList]
    have hboth : dir ++ name = String.ofList (s ++ '/' :: name.toList) := by
      rw [← String.toList_inj, String.toList_append, hs, String.toList_ofList]
      simp
    constructor
    · rw [hboth, steps_ofList_append, hdir, steps_ofList_append, String.ofList_toList]
      simp [steps, Text.cut]
    · rw [isAbsolute, String.toList_append, hhead]
      rfl
  · have hboth : dir ++ "/" ++ name = String.ofList (dir.toList ++ '/' :: name.toList) := by
      rw [← String.toList_inj, String.toList_append, String.toList_append, String.toList_ofList]
      simp
    constructor
    · rw [hboth, steps_ofList_append, String.ofList_toList, String.ofList_toList]
    · rw [hboth, isAbsolute, String.toList_ofList, hhead]
      rfl

/-- A path leads along the names of its parent, and at least one more. -/
theorem steps_parent? {p q : String} (h : parent? p = some q) :
    (∃ rest, rest ≠ [] ∧ steps p = steps q ++ rest) ∧ isAbsolute p = isAbsolute q := by
  obtain ⟨first, tail, hcut⟩ := List.exists_cons_of_ne_nil (Text.cut_ne_nil '/' p.toList)
  have hsplit : split p = (first, dropVoid tail) := by
    rw [split, hcut]
    rfl
  have hsteps : steps p = (first :: tail).filter (!·.isEmpty) := by rw [steps, hcut]
  have hp : p ≠ "" := by
    rintro rfl
    cases h
  have habs := isAbsolute_iff_of_cut hp hcut
  have hslash : ∀ part ∈ first :: tail, '/' ∉ part := fun part hm =>
    Text.not_mem_of_mem_cut (hcut ▸ hm)
  rw [parent?, hsplit] at h
  split at h
  · cases h
  · -- a single name
    rename_i first' hfirst heq
    obtain ⟨rfl, htail⟩ := Prod.mk.inj heq
    cases h
    refine ⟨⟨steps p, ?_, rfl⟩, ?_⟩
    · rw [hsteps]
      simp [show first ≠ [] from hfirst]
    · exact Bool.eq_false_iff.2 fun h' => hfirst (habs.1 h')
  · rename_i first' r _ hr heq
    obtain ⟨rfl, rfl⟩ := Prod.mk.inj heq
    obtain ⟨rest, htail, hrest⟩ := exists_eq_parent_append hr
    generalize dropVoid (dropVoid tail).dropLast = front at h htail
    have hparts : ∀ part ∈ first :: front, '/' ∉ part := by
      intro part hm
      refine hslash part ?_
      rw [htail, ← List.cons_append]
      exact List.mem_append_left _ hm
    have hpsteps : steps p = (first :: front).filter (!·.isEmpty) ++ rest.filter (!·.isEmpty) := by
      rw [hsteps, htail, ← List.cons_append, List.filter_append]
    have hnames : q = String.ofList (Text.join '/' (first :: front)) → q ≠ "" →
        (∃ rest, rest ≠ [] ∧ steps p = steps q ++ rest) ∧ isAbsolute p = isAbsolute q := by
      rintro rfl hq
      have hqcut := Text.cut_join (List.cons_ne_nil first front) hparts
      rw [← String.toList_ofList (l := Text.join '/' (first :: front))] at hqcut
      refine ⟨⟨_, hrest, ?_⟩, ?_⟩
      · rw [hpsteps, steps_ofList_join (List.cons_ne_nil first front) hparts]
      · exact Bool.eq_iff_iff.2 (habs.trans (isAbsolute_iff_of_cut hq hqcut).symm)
    split at h
    · -- the parent is the root, or a single name
      obtain rfl := Option.some.inj h
      by_cases hfirst : first = []
      · subst hfirst
        exact ⟨⟨_, hrest, hpsteps⟩, habs.2 rfl⟩
      · rw [if_neg fun h' => hfirst (List.isEmpty_iff.1 h')] at hnames ⊢
        exact hnames rfl fun h' => hfirst (String.ofList_eq_empty_iff.1 h')
    · rename_i hfront
      obtain rfl := Option.some.inj h
      refine hnames rfl fun h' => ?_
      cases front with
      | nil => exact hfront rfl
      | cons b bs => simp [Text.join] at h'

end FileSystem

end ProjectScript
