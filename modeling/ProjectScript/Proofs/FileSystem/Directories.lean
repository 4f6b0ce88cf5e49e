import ProjectScript.Proofs.FileSystem.Content
import ProjectScript.Proofs.FileSystem.Steps
import ProjectScript.Proofs.Outcome

/-!
# Making directories

A path leads somewhere only if its parent is a directory (`isDirectory_parent?`), and the path of a
file in a directory only if that directory is there (`isDirectory_of_locate_join`). A path that
leads to a file has a parent (`exists_parent?_of_content?`).

A file system only grows when directories are made (`extends_makeDirs`), and the one that was asked
for is there (`isDirectory_of_makeDirs`). Where making it fails it is not there, and making it once
more fails, too (`makeDirs_error`).
-/

namespace ProjectScript

namespace Text

theorem mem_iff_mem_cut {sep c : Char} (hc : c ≠ sep) (s : List Char) :
    c ∈ s ↔ ∃ part ∈ cut sep s, c ∈ part := by
  induction s with
  | nil => simp [cut]
  | cons d s ih =>
    rw [List.mem_cons, ih, cut]
    split
    · rename_i hd
      simp [hd, hc]
    · cases cut sep s with
      | nil => simp
      | cons part parts => simp [or_assoc]

end Text

namespace FileSystem

open ProjectScript.Path

/-- The characters of a path are those of its names, slashes apart. -/
theorem mem_iff_mem_steps {c : Char} (hc : c ≠ '/') (p : String) :
    c ∈ p.toList ↔ ∃ name ∈ steps p, c ∈ name := by
  rw [Text.mem_iff_mem_cut hc]
  constructor
  · rintro ⟨part, hp, hm⟩
    refine ⟨part, List.mem_filter.2 ⟨hp, ?_⟩, hm⟩
    cases part with
    | nil => cases hm
    | cons a as => rfl
  · rintro ⟨name, hn, hm⟩
    exact ⟨name, (List.mem_filter.1 hn).1, hm⟩

theorem check_eq_ok_iff {p : String} :
    check p = .ok () ↔ (∀ name ∈ steps p, '\x00' ∉ name) ∧ p ≠ "" := by
  have hnul : p.toList.contains '\x00' = true ↔ ∃ name ∈ steps p, '\x00' ∈ name := by
    rw [List.contains_iff_mem]
    exact mem_iff_mem_steps (by decide) p
  rw [check]
  by_cases h : p.toList.contains '\x00' = true
  · obtain ⟨name, hn, hm⟩ := hnul.1 h
    rw [if_pos h]
    simp only [reduceCtorEq, false_iff, not_and]
    exact fun hall => absurd hm (hall name hn)
  · have hall : ∀ name ∈ steps p, '\x00' ∉ name := fun name hn hm => h (hnul.2 ⟨name, hn, hm⟩)
    rw [if_neg h]
    by_cases he : p = ""
    · simp [he]
    · simpa [he] using hall

/-! ## Directories that are there -/

theorem isDirectory_iff {fs : FileSystem} {cwd : Location} {p : String} :
    fs.isDirectory cwd p = true ↔ check p = .ok () ∧
      ∃ l, fs.walk (origin cwd p) (steps p) = .ok l ∧ fs.at? l = some .directory := by
  have hentry : fs.isDirectory cwd p = true ↔ fs.entry cwd p = .ok .directory := by
    rw [isDirectory]
    split
    · rename_i he
      simp [he]
    · rename_i hne
      simp only [Bool.false_eq_true, false_iff]
      exact hne
  rw [hentry, entry_eq_ok_iff]
  simp only [locate_eq_ok_iff, and_assoc, exists_and_left]
  refine and_congr_right fun _ => ?_
  rw [route]
  split
  · -- a slash at the end asks for what the names lead to
    constructor
    · rintro ⟨l, hl, hd⟩
      obtain ⟨m, hm, hl⟩ := walk_append_eq_ok_iff.1 hl
      obtain ⟨hd', -, hl⟩ := walk_cons_eq_ok_iff.1 hl
      exact ⟨m, hm, hd'⟩
    · rintro ⟨l, hl, hd⟩
      exact ⟨l, walk_append_eq_ok_iff.2 ⟨l, hl, walk_cons_eq_ok_iff.2 ⟨hd, by decide, rfl⟩⟩, hd⟩
  · rfl

/-- What names lead behind some others must be directories. -/
theorem directory_of_walk_append {fs : FileSystem} {here l : Location} {a b : List (List Char)}
    (hb : b ≠ []) (h : fs.walk here (a ++ b) = .ok l) :
    ∃ m, fs.walk here a = .ok m ∧ fs.at? m = some .directory := by
  obtain ⟨m, hm, hl⟩ := walk_append_eq_ok_iff.1 h
  obtain ⟨name, names, rfl⟩ := List.exists_cons_of_ne_nil hb
  exact ⟨m, hm, (walk_cons_eq_ok_iff.1 hl).1⟩

theorem origin_congr {cwd : Location} {p q : String} (h : isAbsolute p = isAbsolute q) :
    origin cwd p = origin cwd q := by
  rw [origin, origin, h]

/-- What lies on the way along a path is a directory. -/
theorem isDirectory_of_walk_append {fs : FileSystem} {cwd l : Location} {p q : String}
    {rest : List (List Char)} (hc : check p = .ok ())
    (hw : fs.walk (origin cwd p) (steps p) = .ok l) (hq : q ≠ "") (hr : rest ≠ [])
    (hs : steps p = steps q ++ rest) (ha : isAbsolute p = isAbsolute q) :
    fs.isDirectory cwd q = true := by
  rw [hs, origin_congr ha] at hw
  refine isDirectory_iff.2 ⟨check_eq_ok_iff.2 ⟨fun name hn => ?_, hq⟩, ?_⟩
  · exact (check_eq_ok_iff.1 hc).1 name (by rw [hs]; exact List.mem_append_left _ hn)
  · exact directory_of_walk_append hr hw

/-- The parent of a path that leads somewhere is a directory. -/
theorem isDirectory_parent? {fs : FileSystem} {cwd l : Location} {p q : String}
    (hq : parent? p = some q) (hne : q ≠ "") (hc : check p = .ok ())
    (hw : fs.walk (origin cwd p) (steps p) = .ok l) : fs.isDirectory cwd q = true := by
  obtain ⟨⟨rest, hrest, hsteps⟩, habs⟩ := steps_parent? hq
  exact isDirectory_of_walk_append hc hw hne hrest hsteps habs

theorem exists_walk_of_locate {fs : FileSystem} {cwd l : Location} {p : String}
    (h : fs.locate cwd p = .ok l) :
    check p = .ok () ∧ ∃ m, fs.walk (origin cwd p) (steps p) = .ok m := by
  obtain ⟨hc, hw⟩ := locate_eq_ok_iff.1 h
  refine ⟨hc, ?_⟩
  rw [route] at hw
  split at hw
  · obtain ⟨m, hm, -⟩ := walk_append_eq_ok_iff.1 hw
    exact ⟨m, hm⟩
  · exact ⟨l, hw⟩

/-- Where the path of a file below a directory leads somewhere, the directory is there. -/
theorem isDirectory_of_locate_join {fs : FileSystem} {cwd l : Location} {dir name : String}
    (hd : dir ≠ "") (hn : isAbsolute name = false) (hs : steps name ≠ [])
    (h : fs.locate cwd (join dir name) = .ok l) : fs.isDirectory cwd dir = true := by
  obtain ⟨hsteps, habs⟩ := steps_join hd hn
  obtain ⟨hc, m, hm⟩ := exists_walk_of_locate h
  exact isDirectory_of_walk_append hc hm hd hs hsteps habs

/-- From a directory that is there a name leads somewhere. -/
theorem exists_locate_join {fs : FileSystem} {cwd : Location} {dir name : String}
    {last : List Char} (hdir : dir ≠ "") (hd : fs.isDirectory cwd dir = true)
    (hn : isAbsolute name = false) (hs : steps name = [last]) (hnul : '\x00' ∉ last)
    (hlen : (String.ofList last).utf8ByteSize ≤ nameLimit)
    (hlast : name.toList.getLast? ≠ some '/') : ∃ l, fs.locate cwd (join dir name) = .ok l := by
  obtain ⟨hsteps, habs⟩ := steps_join hdir hn
  obtain ⟨hcheck, m, hm, hdirectory⟩ := isDirectory_iff.1 hd
  have hname : name ≠ "" := by
    rintro rfl
    cases hs
  have hroute : route (join dir name) = steps dir ++ [last] := by
    rw [route, getLast?_join hname, if_neg hlast, hsteps, hs]
  have hjoin : check (join dir name) = .ok () := by
    refine check_eq_ok_iff.2 ⟨fun n hmem => ?_, fun hempty => ?_⟩
    · rw [hsteps, hs, List.mem_append, List.mem_singleton] at hmem
      rcases hmem with hmem | rfl
      · exact (check_eq_ok_iff.1 hcheck).1 n hmem
      · exact hnul
    · rw [hempty, hs] at hsteps
      simp [steps, Text.cut] at hsteps
  refine ⟨step m last, locate_eq_ok_iff.2 ⟨hjoin, ?_⟩⟩
  rw [hroute, origin_congr habs]
  exact walk_append_eq_ok_iff.2 ⟨m, hm, walk_cons_eq_ok_iff.2 ⟨hdirectory, hlen, rfl⟩⟩

theorem isDirectory_iff_of_locate {fs : FileSystem} {cwd l : Location} {p : String}
    (hl : fs.locate cwd p = .ok l) :
    fs.isDirectory cwd p = true ↔ fs.at? l = some .directory := by
  have hentry : fs.entry cwd p = (fs.at? l).elim (.error .notFound) .ok := by
    rw [entry, hl]
    simp only [bind, Except.bind]
    cases fs.at? l <;> rfl
  rw [isDirectory, hentry]
  cases fs.at? l with
  | none => simp
  | some e => cases e <;> simp

/-! ## Files that are there -/

/-- Dots lead nowhere, and only from a directory. -/
theorem walk_dots {fs : FileSystem} {here l : Location} {names : List (List Char)}
    (hdots : ∀ name ∈ names, name = ['.']) (h : fs.walk here names = .ok l) :
    l = here ∧ (names ≠ [] → fs.at? l = some .directory) := by
  induction names with
  | nil => exact ⟨(Except.ok.inj h).symm, fun hne => (hne rfl).elim⟩
  | cons name names ih =>
    obtain ⟨hname, hnames⟩ := List.forall_mem_cons.1 hdots
    obtain ⟨hd, -, hw⟩ := walk_cons_eq_ok_iff.1 h
    rw [hname, step, if_pos rfl] at hw
    obtain ⟨rfl, -⟩ := ih hnames hw
    exact ⟨rfl, fun _ => hd⟩

/-- Only the empty path leads along nothing. -/
theorem route_ne_nil {p : String} (hp : p ≠ "") : route p ≠ [] := by
  unfold route
  split
  · simp
  · rename_i hlast
    intro hnil
    -- without names all characters of a path are slashes
    have hslash : ∀ c ∈ p.toList, c = '/' := by
      intro c hc
      refine Decidable.byContradiction fun hne => ?_
      obtain ⟨name, hname, -⟩ := (mem_iff_mem_steps hne p).1 hc
      rw [hnil] at hname
      cases hname
    have hne : p.toList ≠ [] := fun h => hp (String.toList_eq_nil_iff.1 h)
    apply hlast
    rw [List.getLast?_eq_some_getLast hne, hslash _ (List.getLast_mem hne)]

/-- The path of a file has a parent. -/
theorem exists_parent?_of_content? {fs : FileSystem} {cwd : Location} {p : String} {c : Content}
    (h : fs.content? cwd p = some c) : ∃ q, parent? p = some q := by
  refine Option.ne_none_iff_exists'.1 fun hnone => ?_
  obtain ⟨l, x, hl, ha⟩ := content?_eq_some_iff.1 h
  obtain ⟨hcheck, hw⟩ := locate_eq_ok_iff.1 hl
  have hsteps : ∀ name ∈ steps p, name = ['.'] := by
    intro name hname
    obtain ⟨hpart, hne⟩ := List.mem_filter.1 hname
    have hvoid := isVoid_of_parent?_eq_none hnone name hpart
    unfold isVoid at hvoid
    simp_all
  have hroute : ∀ name ∈ route p, name = ['.'] := by
    unfold route
    split
    · exact List.forall_mem_append.2 ⟨hsteps, by simp⟩
    · exact hsteps
  rw [(walk_dots hroute hw).2 (route_ne_nil (check_eq_ok_iff.1 hcheck).2)] at ha
  cases ha

/-! ## New directories -/

/-- A new directory is put at the end of the way, where nothing stood. -/
theorem exists_of_makeDir {fs fs' : FileSystem} {cwd : Location} {p : String}
    (h : fs.makeDir cwd p = .ok fs') :
    ∃ l, check p = .ok () ∧ fs.walk (origin cwd p) (steps p) = .ok l ∧ fs.at? l = none ∧
      fs' = fs.set l (some .directory) := by
  obtain ⟨u, hc, h⟩ := exists_of_bind_eq_ok h
  obtain ⟨here, hh, h⟩ := exists_of_bind_eq_ok h
  split at h
  · cases h
  · rename_i name hname
    obtain ⟨l, hl, h⟩ := exists_of_bind_eq_ok h
    obtain ⟨names, hsteps⟩ := List.getLast?_eq_some_iff.1 hname
    have hw : fs.walk (origin cwd p) (steps p) = .ok l := by
      rw [hsteps, List.dropLast_concat] at hh
      rw [hsteps]
      exact walk_append_eq_ok_iff.2 ⟨here, hh, hl⟩
    split at h
    · cases h
    split at h
    · cases h
    · rename_i ha
      exact ⟨l, hc, hw, ha, (Except.ok.inj h).symm⟩

theorem extends_of_makeDir {fs fs' : FileSystem} {cwd : Location} {p : String}
    (h : fs.makeDir cwd p = .ok fs') : fs.Extends fs' := by
  obtain ⟨l, -, -, hl, rfl⟩ := exists_of_makeDir h
  intro m e he
  have hne : m ≠ l := by
    rintro rfl
    rw [hl] at he
    cases he
  rw [at?_set, if_neg hne, he]

/-- A directory that was made is there. -/
theorem isDirectory_of_makeDir {fs fs' : FileSystem} {cwd : Location} {p : String}
    (h : fs.makeDir cwd p = .ok fs') : fs'.isDirectory cwd p = true := by
  have hext := extends_of_makeDir h
  obtain ⟨l, hc, hw, -, rfl⟩ := exists_of_makeDir h
  exact isDirectory_iff.2 ⟨hc, l, hext.keepsDirectories.walk hw, by rw [at?_set, if_pos rfl]⟩

/-- A directory that is there is not made again. -/
theorem makeDir_of_isDirectory {fs : FileSystem} {cwd : Location} {p : String}
    (h : fs.isDirectory cwd p = true) : fs.makeDir cwd p = .error .alreadyExists := by
  obtain ⟨hc, l, hw, hd⟩ := isDirectory_iff.1 h
  rw [makeDir, hc]
  rcases List.eq_nil_or_concat (steps p) with hs | ⟨names, name, hs⟩
  · rw [hs]
    rfl
  · rw [hs, List.concat_eq_append] at hw
    rw [hs, List.concat_eq_append]
    obtain ⟨m, hm, hl⟩ := walk_append_eq_ok_iff.1 hw
    simp only [List.dropLast_concat, List.getLast?_concat, hm, hl, hd, bind, Except.bind]
    split <;> rfl

/-- A file system grows when a chain of directories is made, also when that fails. -/
theorem extends_makeChain (cwd : Location) (ps : List String) (fs : FileSystem) :
    fs.Extends (makeChain cwd ps fs).2 := by
  induction ps generalizing fs with
  | nil => exact fun _ _ h => h
  | cons p ps ih =>
    rw [makeChain]
    split
    · rename_i hd
      exact extends_of_makeDir hd
    · have hps := ih fs
      split
      · rename_i heq
        rw [heq] at hps
        exact hps
      · rename_i heq
        rw [heq] at hps
        split
        · rename_i hd
          exact hps.trans (extends_of_makeDir hd)
        · exact hps
    · exact fun _ _ h => h

theorem extends_makeDirs (fs : FileSystem) (cwd : Location) (p : String) :
    fs.Extends (fs.makeDirs cwd p).2 := extends_makeChain cwd _ fs

theorem ancestors_empty (fuel : Nat) : ancestors fuel "" = [] := by
  cases fuel <;> rfl

/-! ## Failures -/

/-- Making a directory that could not be made has succeeded only if the directory is there. -/
theorem isDirectory_iff_of_unmade {cwd : Location} {p : String} {e : Failure}
    {result : Except Failure Unit} {fs fs' : FileSystem}
    (h : (if fs.isDirectory cwd p then Except.ok () else .error e, fs) = (result, fs')) :
    fs = fs' ∧ (fs'.isDirectory cwd p = true ↔ result = .ok ()) := by
  obtain ⟨rfl, rfl⟩ := Prod.mk.inj h
  refine ⟨rfl, ?_⟩
  split <;> simp [*]

/-- Where making a chain of directories fails, either making the rest of it does, or the first one
is not there and cannot be made. -/
theorem makeChain_cons_error {cwd : Location} {why : Failure} {p : String} {ps : List String}
    {fs fs' : FileSystem} (h : makeChain cwd (p :: ps) fs = (.error why, fs')) :
    makeChain cwd ps fs = (.error why, fs') ∨
      fs'.isDirectory cwd p = false ∧ ∃ e, fs'.makeDir cwd p = .error e ∧
        (e = .notFound → makeChain cwd ps fs = (.ok (), fs')) := by
  have hnot : (fs'.isDirectory cwd p = true ↔ Except.error why = .ok ()) →
      fs'.isDirectory cwd p = false := by
    intro hd
    rw [← Bool.not_eq_true, hd]
    exact fun he => by cases he
  rw [makeChain] at h
  split at h
  · cases h
  · split at h
    · rename_i heq
      exact .inl (heq.trans h)
    · rename_i heq
      split at h
      · cases h
      · rename_i e hm
        obtain ⟨rfl, hd⟩ := isDirectory_iff_of_unmade h
        exact .inr ⟨hnot hd, e, hm, fun _ => heq⟩
  · rename_i e hne hm
    obtain ⟨rfl, hd⟩ := isDirectory_iff_of_unmade h
    exact .inr ⟨hnot hd, e, hm, fun he => (hne he).elim⟩

/-- Making a chain of directories fails where the first one is not there and cannot be made, unless
making the rest of it changes that. -/
theorem exists_makeChain_cons_error {cwd : Location} {p : String} {ps : List String}
    {fs : FileSystem} {e : Failure} (hd : fs.isDirectory cwd p = false)
    (hm : fs.makeDir cwd p = .error e)
    (hps : e = .notFound → makeChain cwd ps fs = (.ok (), fs) ∨
      ∃ why fs', makeChain cwd ps fs = (.error why, fs')) :
    ∃ why fs', makeChain cwd (p :: ps) fs = (.error why, fs') := by
  rw [makeChain]
  split
  · rename_i hm'
    rw [hm] at hm'
    cases hm'
  · rename_i hm'
    rw [hm] at hm'
    obtain rfl := Except.error.inj hm'
    rcases hps rfl with hps | ⟨why, fs', hps⟩
    · rw [hps]
      dsimp only
      rw [hm]
      dsimp only
      rw [hd]
      exact ⟨_, _, rfl⟩
    · rw [hps]
      exact ⟨why, fs', rfl⟩
  · rw [hd]
    exact ⟨_, _, rfl⟩

/-- A chain of directories that was made is there. -/
theorem isDirectory_of_makeChain {cwd : Location} {p : String} {ps : List String}
    {fs fs' : FileSystem} (h : makeChain cwd (p :: ps) fs = (.ok (), fs')) :
    fs'.isDirectory cwd p = true := by
  rw [makeChain] at h
  split at h
  · rename_i hm
    obtain ⟨-, rfl⟩ := Prod.mk.inj h
    exact isDirectory_of_makeDir hm
  · split at h
    · cases h
    · split at h
      · rename_i hm
        obtain ⟨-, rfl⟩ := Prod.mk.inj h
        exact isDirectory_of_makeDir hm
      · exact (isDirectory_iff_of_unmade h).2.2 rfl
  · exact (isDirectory_iff_of_unmade h).2.2 rfl

/-- Making a chain of directories once more changes nothing. -/
theorem makeChain_again {cwd : Location} {ps : List String} {fs fs' : FileSystem}
    (h : makeChain cwd ps fs = (.ok (), fs')) : makeChain cwd ps fs' = (.ok (), fs') := by
  cases ps with
  | nil => rfl
  | cons p ps =>
    have hd := isDirectory_of_makeChain h
    rw [makeChain, makeDir_of_isDirectory hd]
    dsimp only
    rw [if_pos hd]

/-- Where making a directory and those on the way to it fails, the directory is not there, and
making it once more fails, too. By induction along the way: if a parent is not there, neither is
what lies below it, and it cannot be made. -/
theorem makeChain_ancestors_error {cwd : Location} {why : Failure} {fuel : Nat} {p : String}
    {fs fs' : FileSystem} (h : makeChain cwd (ancestors fuel p) fs = (.error why, fs')) :
    fs'.isDirectory cwd p = false ∧
      ∃ why' fs'', makeChain cwd (ancestors fuel p) fs' = (.error why', fs'') := by
  induction fuel generalizing p fs fs' with
  | zero => cases h
  | succ fuel ih =>
    rw [ancestors] at h ⊢
    split
    · rename_i he
      rw [if_pos he] at h
      cases h
    · rename_i he
      rw [if_neg he] at h
      rcases makeChain_cons_error h with hps | ⟨hd, e, hm, hps⟩
      · cases hq : parent? p with
        | none =>
          rw [hq] at hps
          cases hps
        | some q =>
          rw [hq, Option.elim] at hps
          have hne : q ≠ "" := by
            rintro rfl
            rw [ancestors_empty] at hps
            cases hps
          obtain ⟨hqd, hagain⟩ := ih hps
          have hdead : ∀ l, check p = .ok () → fs'.walk (origin cwd p) (steps p) ≠ .ok l := by
            intro l hc hw
            rw [isDirectory_parent? hq hne hc hw] at hqd
            cases hqd
          have hd : fs'.isDirectory cwd p = false := by
            rw [← Bool.not_eq_true]
            intro hd
            obtain ⟨hc, l, hl, -⟩ := isDirectory_iff.1 hd
            exact hdead l hc hl
          cases hm : fs'.makeDir cwd p with
          | ok fs'' =>
            obtain ⟨l, hc, hl, -⟩ := exists_of_makeDir hm
            exact (hdead l hc hl).elim
          | error e => exact ⟨hd, exists_makeChain_cons_error hd hm fun _ => .inr hagain⟩
      · exact ⟨hd, exists_makeChain_cons_error hd hm fun he => .inl (makeChain_again (hps he))⟩

theorem makeDirs_error {cwd : Location} {why : Failure} {p : String} {fs fs' : FileSystem}
    (h : fs.makeDirs cwd p = (.error why, fs')) :
    fs'.isDirectory cwd p = false ∧ ∃ why' fs'', fs'.makeDirs cwd p = (.error why', fs'') :=
  makeChain_ancestors_error h

/-- Directories that were made are there, and making them once more changes nothing. -/
theorem isDirectory_of_makeDirs {cwd : Location} {p : String} {fs fs' : FileSystem} (hp : p ≠ "")
    (h : fs.makeDirs cwd p = (.ok (), fs')) : fs'.isDirectory cwd p = true := by
  rw [makeDirs, ancestors, if_neg (by simpa using hp)] at h
  exact isDirectory_of_makeChain h

end FileSystem

end ProjectScript
