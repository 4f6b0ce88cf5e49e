import ProjectScript.Proofs.FileSystem.Directories

/-!
# Where directories are made

Making a directory and those on the way to it changes nothing but locations where nothing stood:
there are directories now, and each of them lies on the way along the path (`MadeAlong`,
`madeAlong_makeDirs`).

A path that leads somewhere in a file system that has grown led there before, or some directory on
its way was missing (`locate_of_extends`).
-/

namespace ProjectScript.FileSystem

/-- A location on the way along a path. -/
def OnWay (fs : FileSystem) (cwd : Location) (p : String) (l : Location) : Prop :=
  ∃ names, names <+: steps p ∧ fs.walk (origin cwd p) names = .ok l

/-- A directory stands where nothing stood, on the way along a path. -/
structure NewDirectory (cwd : Location) (p : String) (fs fs' : FileSystem) (l : Location) :
    Prop where
  before : fs.at? l = none
  after : fs'.at? l = some .directory
  onWay : fs'.OnWay cwd p l

/-- A file system has grown by directories on the way along a path, and by nothing else. -/
structure MadeAlong (cwd : Location) (p : String) (fs fs' : FileSystem) : Prop where
  grown : fs.Extends fs'
  new : ∀ l, fs'.at? l ≠ fs.at? l → NewDirectory cwd p fs fs' l

variable {fs fs' fs'' : FileSystem} {cwd l : Location} {p q : String}

theorem KeepsDirectories.onWay (h : fs.KeepsDirectories fs') (ho : fs.OnWay cwd p l) :
    fs'.OnWay cwd p l := by
  obtain ⟨names, hp, hw⟩ := ho
  exact ⟨names, hp, h.walk hw⟩

/-- What lies on the way to the parent of a path lies on the way along the path. -/
theorem OnWay.of_parent (hq : Path.parent? p = some q) (h : fs.OnWay cwd q l) :
    fs.OnWay cwd p l := by
  obtain ⟨⟨rest, -, hsteps⟩, habs⟩ := steps_parent? hq
  obtain ⟨names, hp, hw⟩ := h
  refine ⟨names, ?_, ?_⟩
  · rw [hsteps]
    exact hp.trans (List.prefix_append _ _)
  · rw [origin_congr habs]
    exact hw

namespace MadeAlong

theorem refl (cwd : Location) (p : String) (fs : FileSystem) : MadeAlong cwd p fs fs :=
  ⟨fun _ _ h => h, fun _ h => (h rfl).elim⟩

theorem trans (h : MadeAlong cwd p fs fs') (h' : MadeAlong cwd p fs' fs'') :
    MadeAlong cwd p fs fs'' := by
  refine ⟨h.grown.trans h'.grown, fun l hl => ?_⟩
  by_cases hsame : fs'.at? l = fs.at? l
  · rw [← hsame] at hl
    have hnew := h'.new l hl
    exact ⟨hsame.symm.trans hnew.before, hnew.after, hnew.onWay⟩
  · have hnew := h.new l hsame
    exact ⟨hnew.before, h'.grown l _ hnew.after, h'.grown.keepsDirectories.onWay hnew.onWay⟩

theorem of_parent (hq : Path.parent? p = some q) (h : MadeAlong cwd q fs fs') :
    MadeAlong cwd p fs fs' :=
  ⟨h.grown, fun l hl => ⟨(h.new l hl).before, (h.new l hl).after, (h.new l hl).onWay.of_parent hq⟩⟩

theorem of_makeDir (h : fs.makeDir cwd p = .ok fs') : MadeAlong cwd p fs fs' := by
  have hext := extends_of_makeDir h
  obtain ⟨m, -, hw, hm, rfl⟩ := exists_of_makeDir h
  refine ⟨hext, fun l hl => ?_⟩
  by_cases hlm : l = m
  · subst hlm
    exact ⟨hm, by rw [at?_set, if_pos rfl], steps p, List.prefix_rfl,
      hext.keepsDirectories.walk hw⟩
  · rw [at?_set, if_neg hlm] at hl
    exact (hl rfl).elim

end MadeAlong

/-- A directory is made after those on the way to it. -/
theorem madeAlong_makeChain_cons {ps : List String}
    (h : MadeAlong cwd p fs (makeChain cwd ps fs).2) :
    MadeAlong cwd p fs (makeChain cwd (p :: ps) fs).2 := by
  rw [makeChain]
  split
  · rename_i hd
    exact .of_makeDir hd
  · split
    · rename_i heq
      rw [heq] at h
      exact h
    · rename_i heq
      rw [heq] at h
      split
      · rename_i hd
        exact h.trans (.of_makeDir hd)
      · exact h
  · exact .refl cwd p fs

theorem madeAlong_ancestors (fuel : Nat) (p : String) (fs : FileSystem) :
    MadeAlong cwd p fs (makeChain cwd (ancestors fuel p) fs).2 := by
  induction fuel generalizing p with
  | zero => exact .refl cwd p fs
  | succ fuel ih =>
    rw [ancestors]
    split
    · exact .refl cwd p fs
    · refine madeAlong_makeChain_cons ?_
      cases hq : Path.parent? p with
      | none => exact .refl cwd p fs
      | some q => exact .of_parent hq (ih q)

theorem madeAlong_makeDirs (fs : FileSystem) (cwd : Location) (p : String) :
    MadeAlong cwd p fs (fs.makeDirs cwd p).2 := madeAlong_ancestors _ p fs

/-! ## Ways that were not there -/

theorem walk_of_extends (h : fs.Extends fs') {here : Location} {names : List (List Char)}
    (hw : fs'.walk here names = .ok l) :
    fs.walk here names = .ok l ∨ fs.walk here names = .error .notFound := by
  induction names generalizing here with
  | nil => exact .inl hw
  | cons name names ih =>
    obtain ⟨hd', hn, hw⟩ := walk_cons_eq_ok_iff.1 hw
    cases he : fs.at? here with
    | none =>
      refine .inr ?_
      rw [walk, directory?, he]
      rfl
    | some e =>
      have hd : fs.at? here = some .directory := by
        rw [he, ← hd', h here e he]
      rcases ih hw with hok | herr
      · exact .inl (walk_cons_eq_ok_iff.2 ⟨hd, hn, hok⟩)
      · refine .inr ?_
        rw [walk, directory?_eq_ok_iff.2 hd]
        simp only [bind, Except.bind, if_neg (Nat.not_lt.2 hn), herr]

theorem locate_of_extends (h : fs.Extends fs') (hl : fs'.locate cwd p = .ok l) :
    fs.locate cwd p = .ok l ∨ fs.locate cwd p = .error .notFound := by
  obtain ⟨hc, hw⟩ := locate_eq_ok_iff.1 hl
  rw [locate, hc]
  exact walk_of_extends h hw

/-- A file that is found only after a file system has grown was looked for in vain before. -/
theorem read_eq_notFound_of_extends (h : fs.Extends fs') {c : Content}
    (hc : fs'.content? cwd p = some c) (hn : fs.content? cwd p = none) :
    fs.read cwd p = .error .notFound := by
  obtain ⟨l, x, hl, ha⟩ := content?_eq_some_iff.1 hc
  have hentry : fs.entry cwd p = .error .notFound := by
    rw [entry]
    rcases locate_of_extends h hl with hok | herr
    · rw [hok]
      cases he : fs.at? l with
      | none => simp only [bind, Except.bind, he]
      | some e =>
        have hfile : fs.at? l = some (.file c x) := by rw [he, ← ha, h l e he]
        rw [content?_eq_some_iff.2 ⟨l, x, hok, hfile⟩] at hn
        cases hn
    · rw [herr]
      rfl
  rw [read, hentry]
  rfl

/-! ## Files that are looked for and written -/

theorem content?_of_read_notFound (h : fs.read cwd p = .error .notFound) :
    fs.content? cwd p = none := by
  refine Option.eq_none_iff_forall_ne_some.2 fun c hc => ?_
  obtain ⟨l, x, hl, ha⟩ := content?_eq_some_iff.1 hc
  rw [read, entry_eq_ok_iff.2 ⟨l, hl, ha⟩] at h
  cases c <;> cases h

/-- A file that is written over stays executable, or not. -/
theorem write_of_file {c : Content} {x : Bool} {s : String} (hl : fs.locate cwd p = .ok l)
    (ha : fs.at? l = some (.file c x)) :
    fs.write cwd p s = .ok (fs.set l (some (.file (.text s) x))) := by
  simp only [write, hl, ha, bind, Except.bind, pure, Except.pure]

end ProjectScript.FileSystem
