import Mathlib.Data.List.Chain
import ProjectScript.Proofs.Path.Absolute

/-!
# Clean paths

A path is clean when it is absolute and holds nothing that counts for nothing: no name that is a
dot, and no slash behind another one, but that two slashes may open it (`IsClean`). Such a path is
its root, its names with slashes between them, and a slash at the end if there is one
(`join_filter`), and so it is absolute already (`absolute?_of_isClean`). The other way round, names
below a clean path make a clean path (`IsClean.below`), and the root of a path is clean.

So what a path is made into has the names of the path and its slash at the end (`AbsoluteForm`), and
is clean (`exists_absolute?`, `exists_absolute?_join`); then it is left as it is when it is made
absolute again (`absolutize?_gives_clean`).
-/

namespace ProjectScript.Path

/-- The two characters are not both slashes. -/
def Apart (a b : Char) : Prop := ¬(a = '/' ∧ b = '/')

instance : DecidableRel Apart := fun a b => inferInstanceAs (Decidable ¬(a = '/' ∧ b = '/'))

/-- An absolute path without idle parts: no name of it is a dot, and no two slashes follow on one
another unless they are the first two characters and no third one follows. -/
structure IsClean (p : String) : Prop where
  isAbsolute : isAbsolute p = true
  no_dot : ['.'] ∉ Text.cut '/' p.toList
  apart : p.toList.tail.IsChain Apart

instance (p : String) : Decidable (IsClean p) :=
  decidable_of_iff (isAbsolute p = true ∧ ['.'] ∉ Text.cut '/' p.toList ∧
      p.toList.tail.IsChain Apart)
    ⟨fun ⟨habs, hdot, hapart⟩ => ⟨habs, hdot, hapart⟩,
      fun ⟨habs, hdot, hapart⟩ => ⟨habs, hdot, hapart⟩⟩

/-! ## Names with slashes between them -/

theorem isChain_of_not_mem {s : List Char} (h : '/' ∉ s) : s.IsChain Apart := by
  induction s with
  | nil => exact .nil
  | cons c s ih =>
    rw [List.mem_cons, not_or] at h
    exact List.isChain_cons.2 ⟨fun d _ hd => h.1 hd.1.symm, ih h.2⟩

/-- A slash after a text without one at its end keeps the slashes apart, if no slash follows. -/
theorem isChain_append_slash_iff {s t : List Char} (hs : s.getLast? ≠ some '/') :
    (s ++ '/' :: t).IsChain Apart ↔
      s.IsChain Apart ∧ t.IsChain Apart ∧ t.head? ≠ some '/' := by
  rw [List.isChain_append, List.isChain_cons]
  constructor
  · rintro ⟨hs', ⟨ht, ht'⟩, -⟩
    exact ⟨hs', ht', fun h => ht '/' h ⟨rfl, rfl⟩⟩
  · rintro ⟨hs', ht', ht⟩
    refine ⟨hs', ⟨fun y hy h => ht ?_, ht'⟩, fun x hx y _ h => hs ?_⟩
    · rw [← h.2]
      exact hy
    · rw [← h.1]
      exact hx

theorem getLast?_append_cons {s t : List Char} (ht : t ≠ []) :
    (s ++ '/' :: t).getLast? = t.getLast? := by
  rw [← List.singleton_append, ← List.append_assoc, List.getLast?_append_of_ne_nil _ ht]

theorem join_cons_cons (a b : List Char) (parts : List (List Char)) :
    Text.join '/' (a :: b :: parts) = a ++ '/' :: Text.join '/' (b :: parts) := rfl

theorem join_ne_nil {part : List Char} (h : part ≠ []) (parts : List (List Char)) :
    Text.join '/' (part :: parts) ≠ [] := by
  cases parts <;> simp [Text.join, h]

/-- The slash at the end of a text, if there is one. -/
def lastSlash (t : List Char) : List Char := if t.getLast? = some '/' then ['/'] else []

/-- Behind a slash that another text follows, the end is that of this text. -/
theorem lastSlash_append_cons {s t : List Char} (ht : t ≠ []) :
    lastSlash (s ++ '/' :: t) = lastSlash t := by
  rw [lastSlash, getLast?_append_cons ht, lastSlash]

/-- Nothing is left of a text that does not begin with a slash if it is the slash at its end. -/
theorem eq_nil_of_lastSlash {t : List Char} (hhead : t.head? ≠ some '/') (h : lastSlash t = t) :
    t = [] := by
  rw [lastSlash] at h
  split at h
  · rw [← h] at hhead
    exact (hhead rfl).elim
  · exact h.symm

/-- Parts are told again by those that count, when no slash stands idle between them. -/
theorem join_filter {parts : List (List Char)} (hslash : ∀ part ∈ parts, '/' ∉ part)
    (hdot : ['.'] ∉ parts) (hhead : (Text.join '/' parts).head? ≠ some '/')
    (hapart : (Text.join '/' parts).IsChain Apart) :
    Text.join '/' (parts.filter (!isVoid ·)) ++ lastSlash (Text.join '/' parts) =
      Text.join '/' parts := by
  induction parts with
  | nil => rfl
  | cons a parts ih =>
    obtain ⟨ha, hslash⟩ := List.forall_mem_cons.1 hslash
    rw [List.mem_cons, not_or] at hdot
    obtain ⟨hadot, hdot⟩ := hdot
    have hlast : a.getLast? ≠ some '/' := fun h => ha (List.mem_of_getLast? h)
    cases parts with
    | nil =>
      rw [Text.join, lastSlash, if_neg hlast, List.append_nil]
      by_cases hnil : a = []
      · rw [hnil]
        rfl
      · rw [List.filter_cons_of_pos (by simp [isVoid, hnil, Ne.symm hadot])]
        rfl
    | cons b parts =>
      rw [join_cons_cons] at hhead hapart ⊢
      obtain ⟨-, hapart, hrest⟩ := (isChain_append_slash_iff hlast).1 hapart
      have htell := ih hslash hdot hrest hapart
      have hne : a ≠ [] := by
        rintro rfl
        exact hhead rfl
      rw [List.filter_cons_of_pos (by simp [isVoid, hne, Ne.symm hadot])]
      cases hf : (b :: parts).filter (!isVoid ·) with
      | nil =>
        -- nothing counts behind the slash, so nothing stands there
        rw [hf, Text.join, List.nil_append] at htell
        rw [eq_nil_of_lastSlash hrest htell, Text.join, lastSlash, List.getLast?_concat,
          if_pos rfl]
      | cons f fs =>
        have hfne : f ≠ [] := by
          have hmem : f ∈ (b :: parts).filter (!isVoid ·) := hf ▸ List.mem_cons_self
          rintro rfl
          simp [isVoid] at hmem
        rw [hf] at htell
        have hu : Text.join '/' (b :: parts) ≠ [] := by
          rw [← htell]
          exact List.append_ne_nil_of_left_ne_nil (join_ne_nil hfne fs) _
        rw [join_cons_cons, lastSlash_append_cons hu, List.append_assoc, List.cons_append, htell]

theorem getLast?_join {parts : List (List Char)} (hne : parts ≠ [])
    (h : ∀ part ∈ parts, part ≠ [] ∧ '/' ∉ part) :
    (Text.join '/' parts).getLast? ≠ some '/' := by
  induction parts with
  | nil => exact (hne rfl).elim
  | cons a parts ih =>
    obtain ⟨⟨hne, hslash⟩, h⟩ := List.forall_mem_cons.1 h
    cases parts with
    | nil => exact fun hlast => hslash (List.mem_of_getLast? hlast)
    | cons b parts =>
      rw [join_cons_cons, getLast?_append_cons (join_ne_nil (h b List.mem_cons_self).1 parts)]
      exact ih (List.cons_ne_nil _ _) h

/-- Names with slashes between them have no slash at either end and no two in a row. -/
theorem isChain_join {parts : List (List Char)} (h : ∀ part ∈ parts, part ≠ [] ∧ '/' ∉ part) :
    (Text.join '/' parts).IsChain Apart ∧ (Text.join '/' parts).head? ≠ some '/' := by
  induction parts with
  | nil => exact ⟨.nil, nofun⟩
  | cons a parts ih =>
    obtain ⟨⟨hne, hslash⟩, hparts⟩ := List.forall_mem_cons.1 h
    obtain ⟨c, cs, rfl⟩ := List.exists_cons_of_ne_nil hne
    have hc : some c ≠ some '/' := fun hc => hslash (Option.some.inj hc ▸ List.mem_cons_self)
    cases parts with
    | nil => exact ⟨isChain_of_not_mem hslash, hc⟩
    | cons b parts =>
      rw [join_cons_cons, isChain_append_slash_iff fun hl => hslash (List.mem_of_getLast? hl)]
      exact ⟨⟨isChain_of_not_mem hslash, ih hparts⟩, hc⟩

/-! ## Clean paths -/

/-- Behind its root a clean path has no idle parts. -/
theorem IsClean.exists_eq {p : String} (h : IsClean p) :
    ∃ t, p.toList = rootOf p ++ t ∧ t.head? ≠ some '/' ∧ t.IsChain Apart ∧
      ['.'] ∉ Text.cut '/' t ∧ names p = names (String.ofList t) := by
  obtain ⟨s, hs⟩ := exists_of_isAbsolute h.isAbsolute
  have hapart := h.apart
  have hdot := h.no_dot
  have hp : p = String.ofList ('/' :: s) := by rw [← hs, String.ofList_toList]
  have hcut : Text.cut '/' ('/' :: s) = [] :: Text.cut '/' s := Text.cut_append_sep '/' [] s
  rw [hs, List.tail_cons] at hapart
  rw [hs, hcut, List.mem_cons, not_or] at hdot
  by_cases hhead : s.head? = some '/'
  · obtain ⟨t, rfl⟩ := List.head?_eq_some_iff.1 hhead
    have hcut' : Text.cut '/' ('/' :: t) = [] :: Text.cut '/' t := Text.cut_append_sep '/' [] t
    obtain ⟨hnext, hapart⟩ := List.isChain_cons.1 hapart
    have ht : t.head? ≠ some '/' := fun ht => hnext '/' ht ⟨rfl, rfl⟩
    rw [hcut', List.mem_cons, not_or] at hdot
    have hroot : rootOf p = ['/', '/'] := by
      rw [hp]
      exact rootOf_append "//" ht
    refine ⟨t, by rw [hroot, hs]; rfl, ht, hapart, hdot.2.2, ?_⟩
    rw [names, names, hs, hcut, hcut', String.toList_ofList]
    rfl
  · have hroot : rootOf p = ['/'] := by
      rw [hp]
      exact rootOf_append "/" hhead
    refine ⟨s, by rw [hroot, hs]; rfl, hhead, hapart, hdot.2, ?_⟩
    rw [names, names, hs, hcut, String.toList_ofList]
    rfl

theorem closed_of_getLast?_ne {dir : List Char} (hne : dir ≠ []) (h : dir.getLast? ≠ some '/') :
    closed dir = dir ++ ['/'] := by
  unfold closed
  rw [if_neg (not_or.2 ⟨by simpa using hne, h⟩)]

theorem below_nil (start : List Char) (dir : Bool) :
    below start [] dir = String.ofList (if dir then closed start else start) := rfl

theorem below_of_ne_nil (start : List Char) {ns : List (List Char)} (hne : ns ≠ [])
    (h : ∀ name ∈ ns, name ≠ [] ∧ '/' ∉ name) (dir : Bool) :
    below start ns dir =
      String.ofList (closed start ++ (Text.join '/' ns ++ if dir then ['/'] else [])) := by
  obtain ⟨n, ns, rfl⟩ := List.exists_cons_of_ne_nil hne
  have hnames : Text.join '/' (n :: ns) ≠ [] := join_ne_nil (h n List.mem_cons_self).1 ns
  have hlast : (closed start ++ Text.join '/' (n :: ns)).getLast? ≠ some '/' := by
    rw [List.getLast?_append_of_ne_nil _ hnames]
    exact getLast?_join hne h
  unfold below
  dsimp only
  rw [List.isEmpty_cons, if_neg Bool.false_ne_true]
  cases dir with
  | false => exact congrArg (fun t => String.ofList (closed start ++ t)) (List.append_nil _).symm
  | true =>
    rw [if_pos rfl, if_pos rfl,
      closed_of_getLast?_ne (List.append_ne_nil_of_right_ne_nil _ hnames) hlast,
      List.append_assoc]

/-- A name that counts is not empty. -/
theorem ne_nil_of_not_void {name : List Char} (h : isVoid name = false ∧ '/' ∉ name) :
    name ≠ [] ∧ '/' ∉ name := by
  refine ⟨?_, h.2⟩
  rintro rfl
  cases h.1

theorem ne_nil_of_mem_names {p : String} {name : List Char} (h : name ∈ names p) :
    name ≠ [] ∧ '/' ∉ name :=
  ne_nil_of_not_void (not_void_of_mem_names h)

/-- **A clean path is absolute already.** Nothing is left to do when it is made absolute. -/
theorem absolute?_of_isClean {p : String} (h : IsClean p) (here : String) :
    absolute? here p = some p := by
  obtain ⟨t, hp, hhead, hapart, hdot, hnames⟩ := h.exists_eq
  have htell : Text.join '/' (names p) ++ lastSlash t = t := by
    rw [hnames, names, String.toList_ofList]
    have := join_filter (fun _ => Text.not_mem_of_mem_cut) hdot
      (by rwa [Text.join_cut]) (by rwa [Text.join_cut])
    rwa [Text.join_cut] at this
  have hpath : below (rootOf p) (names p) (p.toList.getLast? == some '/') = p := by
    by_cases hne : names p = []
    · rw [hne] at htell ⊢
      rw [eq_nil_of_lastSlash hhead htell, List.append_nil] at hp
      rw [below_nil, closed_rootOf, ite_self, ← hp, String.ofList_toList]
    · have ht : t ≠ [] := by
        rintro rfl
        exact hne (hnames.trans names_ofList_nil)
      have hlast : p.toList.getLast? = t.getLast? := by
        rw [hp, List.getLast?_append_of_ne_nil _ ht]
      have hend : (if (t.getLast? == some '/') = true then ['/'] else []) = lastSlash t := by
        simp only [lastSlash, beq_iff_eq]
      rw [below_of_ne_nil _ hne (fun _ => ne_nil_of_mem_names), closed_rootOf, hlast, hend, htell,
        ← hp, String.ofList_toList]
  unfold absolute?
  dsimp only
  rw [isEmpty_of_isAbsolute h.isAbsolute, if_neg Bool.false_ne_true, if_pos h.isAbsolute, hpath]

section

variable {start t : List Char}

theorem exists_of_isClean (h : IsClean (String.ofList start)) : ∃ s, start = '/' :: s := by
  have habs := exists_of_isAbsolute h.isAbsolute
  rwa [String.toList_ofList] at habs

/-- A clean path stays clean when a text without idle parts is put behind the slash at its end. -/
theorem IsClean.append (h : IsClean (String.ofList start)) (hlast : start.getLast? = some '/')
    (hhead : t.head? ≠ some '/') (hapart : t.IsChain Apart) (hdot : ['.'] ∉ Text.cut '/' t) :
    IsClean (String.ofList (start ++ t)) := by
  obtain ⟨s, rfl⟩ := exists_of_isClean h
  obtain ⟨front, hfront⟩ := List.getLast?_eq_some_iff.1 hlast
  obtain ⟨-, hno, hs⟩ := h
  rw [String.toList_ofList] at hno hs
  rw [hfront, Text.cut_append_sep, List.mem_append, not_or] at hno
  constructor
  · rw [isAbsolute_ofList]
    rfl
  · rw [String.toList_ofList, hfront, List.append_assoc, List.singleton_append,
      Text.cut_append_sep, List.mem_append, not_or]
    exact ⟨hno.1, hdot⟩
  · rw [String.toList_ofList, List.cons_append, List.tail_cons]
    exact hs.append hapart fun _ _ y hy hslash => hhead (hslash.2 ▸ hy)

/-- A clean path stays clean with a slash at its end. -/
theorem IsClean.closed (h : IsClean (String.ofList start)) :
    IsClean (String.ofList (closed start)) := by
  by_cases hlast : start.getLast? = some '/'
  · rwa [closed_of_getLast? hlast]
  · obtain ⟨s, rfl⟩ := exists_of_isClean h
    have hs : s.getLast? ≠ some '/' := by
      rw [← List.singleton_append] at hlast
      intro h'
      rw [List.getLast?_append, h'] at hlast
      exact hlast rfl
    rw [closed_of_getLast?_ne (List.cons_ne_nil _ _) hlast]
    constructor
    · rw [isAbsolute_ofList]
      rfl
    · have hdot := h.no_dot
      rw [String.toList_ofList] at hdot ⊢
      rw [Text.cut_append_sep, List.mem_append, not_or]
      exact ⟨hdot, by decide⟩
    · have hapart := h.apart
      rw [String.toList_ofList] at hapart ⊢
      exact (isChain_append_slash_iff hs).2 ⟨hapart, .nil, nofun⟩

/-- Names below a clean path make a clean path. -/
theorem IsClean.below (h : IsClean (String.ofList start)) {ns : List (List Char)}
    (hns : ∀ name ∈ ns, isVoid name = false ∧ '/' ∉ name) (dir : Bool) :
    IsClean (below start ns dir) := by
  have hnames : ∀ name ∈ ns, name ≠ [] ∧ '/' ∉ name := fun name hname =>
    ne_nil_of_not_void (hns name hname)
  have hdot : ['.'] ∉ ns := fun hmem => by cases (hns _ hmem).1
  by_cases hne : ns = []
  · rw [hne, below_nil]
    cases dir with
    | false => exact h
    | true => exact h.closed
  · obtain ⟨hapart, hhead⟩ := isChain_join hnames
    have hstart : start ≠ [] := by
      obtain ⟨s, rfl⟩ := exists_of_isClean h
      exact List.cons_ne_nil _ _
    have hend := getLast?_closed hstart
    have hcut : Text.cut '/' (Text.join '/' ns) = ns :=
      Text.cut_join hne fun name hname => (hns name hname).2
    rw [below_of_ne_nil start hne hnames dir]
    cases dir with
    | false =>
      rw [if_neg Bool.false_ne_true, List.append_nil]
      exact h.closed.append hend hhead hapart (by rwa [hcut])
    | true =>
      rw [if_pos rfl]
      refine h.closed.append hend ?_
        ((isChain_append_slash_iff (getLast?_join hne hnames)).2 ⟨hapart, .nil, nofun⟩) ?_
      · obtain ⟨n, ns, rfl⟩ := List.exists_cons_of_ne_nil hne
        have hjoin := join_ne_nil (hnames n List.mem_cons_self).1 ns
        rwa [List.head?_append_of_ne_nil _ hjoin]
      · rw [Text.cut_append_sep, hcut, List.mem_append, not_or]
        exact ⟨hdot, by decide⟩

end

theorem isClean_rootOf (p : String) : IsClean (String.ofList (rootOf p)) := by
  rcases rootOf_cases p with h | h <;> rw [h] <;> decide +kernel

/-! ## Making a path absolute -/

section

variable {here p base : String}

theorem names_eq_filter_steps (p : String) :
    names p = (FileSystem.steps p).filter (!isVoid ·) := by
  rw [names, FileSystem.steps, List.filter_filter]
  refine List.filter_congr fun part _ => ?_
  cases part <;> simp [isVoid]

theorem join_of_isAbsolute (base : String) (hp : isAbsolute p = true) : join base p = p :=
  if_pos (.inl hp)

theorem names_join (hb : isAbsolute base = true) (p : String) :
    names (join base p) = (if isAbsolute p then [] else names base) ++ names p := by
  have hne : base ≠ "" := by
    rintro rfl
    cases hb
  cases hp : isAbsolute p with
  | true => rw [join_of_isAbsolute base hp, if_pos rfl, List.nil_append]
  | false =>
    rw [if_neg Bool.false_ne_true]
    simp only [names_eq_filter_steps, (FileSystem.steps_join hne hp).1, List.filter_append]

theorem absolutize?_of_isAbsolute (hp : isAbsolute p = true) (here : String)
    (base : Option String) : absolutize? here base p = absolute? here p := by
  cases base with
  | none => rfl
  | some base => rw [absolutize?, join_of_isAbsolute base hp]

/-- The directory that a path starts from is of no account for an absolute one. -/
theorem absolute?_of_isAbsolute (hp : isAbsolute p = true) (here here' : String) :
    absolute? here p = absolute? here' p := by
  simp only [absolute?, hp, if_true]

/-- A slash is put at the end of a path where one is asked for. -/
theorem getLast?_below_true {start : List Char} (hstart : start ≠ []) {ns : List (List Char)}
    (h : ∀ name ∈ ns, name ≠ [] ∧ '/' ∉ name) :
    (below start ns true).toList.getLast? = some '/' := by
  by_cases hne : ns = []
  · rw [hne, below_nil, String.toList_ofList]
    exact getLast?_closed hstart
  · rw [below_of_ne_nil start hne h, String.toList_ofList, ← List.append_assoc]
    exact List.getLast?_concat

/-- No slash comes to the end of a path with names where none is asked for. -/
theorem getLast?_below_false (start : List Char) {ns : List (List Char)} (hne : ns ≠ [])
    (h : ∀ name ∈ ns, name ≠ [] ∧ '/' ∉ name) :
    (below start ns false).toList.getLast? ≠ some '/' := by
  obtain ⟨n, ns, rfl⟩ := List.exists_cons_of_ne_nil hne
  have hjoin := join_ne_nil (h n List.mem_cons_self).1 ns
  rw [below_of_ne_nil start hne h, String.toList_ofList, if_neg Bool.false_ne_true,
    List.append_nil, List.getLast?_append_of_ne_nil _ hjoin]
  exact getLast?_join hne h

/-- The path `r` is `p`, seen from the directory `dir`. -/
structure AbsoluteForm (dir p r : String) : Prop where
  isAbsolute : isAbsolute r = true
  /-- Its names are those of `p`, `..` among them, behind those of the directory if `p` counts from
  there. -/
  names_eq : names r = (if Path.isAbsolute p then [] else names dir) ++ names p
  /-- A slash at the end of `p` is kept. -/
  slash_kept : p.toList.getLast? = some '/' → r.toList.getLast? = some '/'
  /-- No slash is put behind the names of `p`. -/
  slash_not_put : names p ≠ [] → r.toList.getLast? = some '/' → p.toList.getLast? = some '/'

/-- A path that is not empty is made absolute in an absolute directory, and an absolute one in any.
It is made clean if nothing idle comes from the directory. -/
theorem exists_absolute? (hne : p ≠ "") (hhere : isAbsolute p = false → isAbsolute here = true) :
    ∃ r, absolute? here p = some r ∧ AbsoluteForm here p r ∧
      ((isAbsolute p = false → IsClean here) → IsClean r) := by
  have hempty : p.isEmpty = false := by simpa using hne
  obtain ⟨start, hstart, habs, hnames, hclean⟩ : ∃ start,
      (if isAbsolute p then rootOf p else here.toList) = start ∧ start.head? = some '/' ∧
        names (String.ofList start) = (if isAbsolute p then [] else names here) ∧
        ((isAbsolute p = false → IsClean here) → IsClean (String.ofList start)) := by
    cases habs : isAbsolute p with
    | true => exact ⟨_, rfl, head?_rootOf p, names_rootOf p, fun _ => isClean_rootOf p⟩
    | false =>
      refine ⟨here.toList, rfl, beq_iff_eq.1 (hhere habs), ?_, fun h => ?_⟩
      · rw [String.ofList_toList, if_neg Bool.false_ne_true]
      · rw [String.ofList_toList]
        exact h rfl
  have hne' : start ≠ [] := by
    rintro rfl
    cases habs
  have hvoid : ∀ name ∈ names p, isVoid name = false ∧ '/' ∉ name := fun _ => not_void_of_mem_names
  refine ⟨below start (names p) (p.toList.getLast? == some '/'), ?_,
    ⟨isAbsolute_below habs _ _, ?_, fun hlast => ?_, fun hnamed hlast => ?_⟩,
    fun h => (hclean h).below hvoid _⟩
  · rw [absolute?, hempty, if_neg Bool.false_ne_true, hstart]
  · rw [names_below hne' hvoid, hnames]
  · rw [beq_iff_eq.2 hlast]
    exact getLast?_below_true hne' fun _ => ne_nil_of_mem_names
  · cases hdir : p.toList.getLast? == some '/' with
    | true => exact beq_iff_eq.1 hdir
    | false =>
      rw [hdir] at hlast
      exact (getLast?_below_false start hnamed (fun _ => ne_nil_of_mem_names) hlast).elim

/-- An absolute path is made clean in any directory. -/
theorem exists_absolute?_of_isAbsolute (hp : isAbsolute p = true) (here : String) :
    ∃ r, absolute? here p = some r ∧ AbsoluteForm here p r ∧ IsClean r := by
  have hne : p ≠ "" := by
    rintro rfl
    cases hp
  have hrel : isAbsolute p ≠ false := by simp [hp]
  obtain ⟨r, hr, hform, hclean⟩ := @exists_absolute? here p hne fun h => (hrel h).elim
  exact ⟨r, hr, hform, hclean fun h => (hrel h).elim⟩

/-- An absolute path that was made absolute stays as it is when that is done once more, also in
another directory. -/
theorem absolute?_of_absolute? {q : String} (hp : isAbsolute p = true)
    (h : absolute? here p = some q) (here' : String) : absolute? here' q = some q := by
  obtain ⟨r, hr, -, hclean⟩ := exists_absolute?_of_isAbsolute hp here
  obtain rfl := Option.some.inj (h.symm.trans hr)
  exact absolute?_of_isClean hclean here'

/-- A path below an absolute directory is made clean in any directory. -/
theorem exists_absolute?_join (hb : isAbsolute base = true) (here p : String) :
    ∃ r, absolute? here (join base p) = some r ∧ AbsoluteForm base p r ∧ IsClean r := by
  have hjoin := isAbsolute_join hb p
  obtain ⟨r, hr, hform, hclean⟩ := exists_absolute?_of_isAbsolute hjoin here
  have hnames := names_join hb p
  have hend : p ≠ "" → (join base p).toList.getLast? = p.toList.getLast? :=
    FileSystem.getLast?_join
  refine ⟨r, hr, ⟨hform.isAbsolute, ?_, fun hlast => hform.slash_kept ?_, fun hnamed hlast => ?_⟩,
    hclean⟩
  · rw [hform.names_eq, hjoin, if_pos rfl, List.nil_append, hnames]
  · rw [hend, hlast]
    rintro rfl
    cases hlast
  · rw [← hend]
    · refine hform.slash_not_put (fun h => hnamed ?_) hlast
      rw [hnames] at h
      exact (List.append_eq_nil_iff.1 h).2
    · rintro rfl
      exact hnamed names_ofList_nil

end

/-- **Making a path absolute gives a clean path** that has its names and its slash at the end, and
that stays as it is when it is made absolute again, in whichever directory. From an absolute path
the same is made in every directory, and from a relative one what is made from the path below the
base.

The current directory may be any absolute path. Only a relative path without a base is put below it,
and what is made of this one is clean when the current directory is, as a system reports it. -/
theorem absolutize?_gives_clean {here p : String} {base : Option String}
    (hhere : isAbsolute here = true) (hbase : ∀ b ∈ base, isAbsolute b = true)
    (hp : base = none → p ≠ "") :
    ∃ r, absolutize? here base p = some r ∧ AbsoluteForm (base.getD here) p r ∧
      ((base = none → isAbsolute p = false → IsClean here) →
        IsClean r ∧ ∀ here' base', absolutize? here' base' r = some r) ∧
      (isAbsolute p = true → ∀ here' base', absolutize? here' base' p = some r) ∧
      (isAbsolute p = false → ∀ b ∈ base, absolutize? here none (join b p) = some r) := by
  obtain ⟨r, hr, hform, hclean⟩ : ∃ r, absolutize? here base p = some r ∧
      AbsoluteForm (base.getD here) p r ∧
        ((base = none → isAbsolute p = false → IsClean here) → IsClean r) := by
    cases base with
    | none =>
      obtain ⟨r, hr, hform, hclean⟩ := exists_absolute? (hp rfl) fun _ => hhere
      exact ⟨r, hr, hform, fun h => hclean (h rfl)⟩
    | some b =>
      obtain ⟨r, hr, hform, hclean⟩ := exists_absolute?_join (hbase b rfl) here p
      exact ⟨r, hr, hform, fun _ => hclean⟩
  refine ⟨r, hr, hform, fun h => ⟨hclean h, fun here' base' => ?_⟩, fun habs here' base' => ?_, ?_⟩
  · rw [absolutize?_of_isAbsolute hform.isAbsolute]
    exact absolute?_of_isClean (hclean h) here'
  · rw [absolutize?_of_isAbsolute habs] at hr ⊢
    rwa [absolute?_of_isAbsolute habs here' here]
  · rintro - b ⟨⟩
    exact hr

/-- A relative path with idle parts, `..` and a slash at its end. -/
theorem absolutize?_gives_clean_below_home :
    isAbsolute "/home/me" = true ∧ IsClean "/home/me" ∧
      absolutize? "/home/me" none "./a//../b/" = some "/home/me/a/../b/" ∧
      AbsoluteForm "/home/me" "./a//../b/" "/home/me/a/../b/" ∧ IsClean "/home/me/a/../b/" ∧
      ∀ here' base', absolutize? here' base' "/home/me/a/../b/" = some "/home/me/a/../b/" := by
  have hhere : IsClean "/home/me" := by decide +kernel
  have hpath : absolutize? "/home/me" none "./a//../b/" = some "/home/me/a/../b/" := by
    decide +kernel
  obtain ⟨r, hr, hform, hclean, -⟩ := @absolutize?_gives_clean "/home/me" "./a//../b/" none
    hhere.isAbsolute nofun (fun _ => by decide +kernel)
  obtain rfl := Option.some.inj (hpath.symm.trans hr)
  exact ⟨hhere.isAbsolute, hhere, hpath, hform, hclean fun _ _ => hhere⟩

end ProjectScript.Path
