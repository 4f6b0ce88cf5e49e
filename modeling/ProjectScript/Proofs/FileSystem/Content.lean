import ProjectScript.FileSystem

/-!
# What stands in a file

The content of the file at the end of a path (`content?`), and what reading and writing have to do
with it: a text is read exactly when it is the content, and what was written is the content from
then on (`content?_of_write`). Writing fails only where no file stands, and leaves none there.

File systems grow when directories are made, and then every entry stays (`Extends`); when a file is
written the directories stay (`KeepsDirectories`), and with them every way along a path.
-/

namespace ProjectScript.FileSystem

/-- The content of the file at the end of a path, if a file stands there. -/
def content? (fs : FileSystem) (cwd : Location) (p : String) : Option Content :=
  match fs.entry cwd p with
  | .ok (.file c _) => some c
  | _ => none

/-! ## Ways along a path -/

/-- Every directory of a file system is one of another. -/
def KeepsDirectories (fs fs' : FileSystem) : Prop :=
  ∀ l, fs.at? l = some .directory → fs'.at? l = some .directory

/-- Every entry of a file system is one of another. -/
def Extends (fs fs' : FileSystem) : Prop := ∀ l e, fs.at? l = some e → fs'.at? l = some e

theorem directory?_eq_ok_iff {fs : FileSystem} {l : Location} :
    fs.directory? l = .ok () ↔ fs.at? l = some .directory := by
  rw [directory?]
  split <;> simp_all

theorem walk_cons_eq_ok_iff {fs : FileSystem} {here l : Location} {name : List Char}
    {names : List (List Char)} :
    fs.walk here (name :: names) = .ok l ↔
      fs.at? here = some .directory ∧ (String.ofList name).utf8ByteSize ≤ nameLimit ∧
        fs.walk (step here name) names = .ok l := by
  rw [walk, ← directory?_eq_ok_iff]
  cases fs.directory? here with
  | error why => simp [bind, Except.bind]
  | ok u =>
    rw [show (Except.ok u : Except Failure Unit) = .ok () from rfl]
    by_cases h : nameLimit < (String.ofList name).utf8ByteSize
    · simp [bind, Except.bind, h, Nat.not_le_of_lt h]
    · simp [bind, Except.bind, h, Nat.le_of_not_lt h]

theorem walk_append_eq_ok_iff {fs : FileSystem} {here l : Location} {a b : List (List Char)} :
    fs.walk here (a ++ b) = .ok l ↔ ∃ m, fs.walk here a = .ok m ∧ fs.walk m b = .ok l := by
  induction a generalizing here with
  | nil => simp [walk]
  | cons name a ih =>
    rw [List.cons_append, walk_cons_eq_ok_iff, ih]
    constructor
    · rintro ⟨hd, hn, m, hm, hl⟩
      exact ⟨m, walk_cons_eq_ok_iff.2 ⟨hd, hn, hm⟩, hl⟩
    · rintro ⟨m, hm, hl⟩
      obtain ⟨hd, hn, hm⟩ := walk_cons_eq_ok_iff.1 hm
      exact ⟨hd, hn, m, hm, hl⟩

theorem Extends.keepsDirectories {fs fs' : FileSystem} (h : fs.Extends fs') :
    fs.KeepsDirectories fs' := fun l => h l .directory

theorem Extends.trans {fs₁ fs₂ fs₃ : FileSystem} (h₁ : fs₁.Extends fs₂) (h₂ : fs₂.Extends fs₃) :
    fs₁.Extends fs₃ := fun l e he => h₂ l e (h₁ l e he)

theorem KeepsDirectories.walk {fs fs' : FileSystem} (h : fs.KeepsDirectories fs')
    {here l : Location} {names : List (List Char)} (hw : fs.walk here names = .ok l) :
    fs'.walk here names = .ok l := by
  induction names generalizing here with
  | nil => exact hw
  | cons name names ih =>
    obtain ⟨hd, hn, hw⟩ := walk_cons_eq_ok_iff.1 hw
    exact walk_cons_eq_ok_iff.2 ⟨h here hd, hn, ih hw⟩

theorem locate_eq_ok_iff {fs : FileSystem} {cwd l : Location} {p : String} :
    fs.locate cwd p = .ok l ↔ check p = .ok () ∧ fs.walk (origin cwd p) (route p) = .ok l := by
  rw [locate]
  cases check p with
  | error why => simp [bind, Except.bind]
  | ok u => simp [bind, Except.bind]

theorem KeepsDirectories.locate {fs fs' : FileSystem} (h : fs.KeepsDirectories fs')
    {cwd l : Location} {p : String} (hl : fs.locate cwd p = .ok l) : fs'.locate cwd p = .ok l := by
  obtain ⟨hc, hw⟩ := locate_eq_ok_iff.1 hl
  exact locate_eq_ok_iff.2 ⟨hc, h.walk hw⟩

/-! ## Contents -/

theorem entry_eq_ok_iff {fs : FileSystem} {cwd : Location} {p : String} {e : Entry} :
    fs.entry cwd p = .ok e ↔ ∃ l, fs.locate cwd p = .ok l ∧ fs.at? l = some e := by
  rw [entry]
  cases fs.locate cwd p with
  | error why => simp [bind, Except.bind]
  | ok l => cases h : fs.at? l <;> simp [bind, Except.bind, pure, Except.pure, h]

theorem content?_eq_some_iff {fs : FileSystem} {cwd : Location} {p : String} {c : Content} :
    fs.content? cwd p = some c ↔
      ∃ l x, fs.locate cwd p = .ok l ∧ fs.at? l = some (.file c x) := by
  rw [content?]
  constructor
  · intro h
    split at h
    · rename_i c' x he
      cases h
      obtain ⟨l, hl, ha⟩ := entry_eq_ok_iff.1 he
      exact ⟨l, x, hl, ha⟩
    · cases h
  · rintro ⟨l, x, hl, ha⟩
    rw [entry_eq_ok_iff.2 ⟨l, hl, ha⟩]

/-- Reading a file gives its text. -/
theorem read_of_content? {fs : FileSystem} {cwd : Location} {p s : String}
    (h : fs.content? cwd p = some (.text s)) : fs.read cwd p = .ok s := by
  obtain ⟨l, x, hl, ha⟩ := content?_eq_some_iff.1 h
  rw [read, entry_eq_ok_iff.2 ⟨l, hl, ha⟩]
  rfl

/-- Where no file stands nothing is read. -/
theorem read_of_content?_eq_none {fs : FileSystem} {cwd : Location} {p : String}
    (h : fs.content? cwd p = none) : ∃ why, fs.read cwd p = .error why := by
  rw [content?] at h
  rw [read]
  cases he : fs.entry cwd p with
  | error why => exact ⟨why, rfl⟩
  | ok e =>
    cases e with
    | directory => exact ⟨.isDirectory, rfl⟩
    | file c x =>
      rw [he] at h
      cases h

/-- What is read is the text of the file. -/
theorem content?_of_read {fs : FileSystem} {cwd : Location} {p s : String}
    (h : fs.read cwd p = .ok s) : fs.content? cwd p = some (.text s) := by
  cases hc : fs.content? cwd p with
  | none =>
    obtain ⟨why, herr⟩ := read_of_content?_eq_none hc
    rw [h] at herr
    cases herr
  | some c =>
    obtain ⟨l, x, hl, ha⟩ := content?_eq_some_iff.1 hc
    rw [read, entry_eq_ok_iff.2 ⟨l, hl, ha⟩] at h
    cases c with
    | binary => cases h
    | text t => rw [Except.ok.inj h]

theorem isFile_iff {fs : FileSystem} {cwd : Location} {p : String} :
    fs.isFile cwd p = true ↔ ∃ c, fs.content? cwd p = some c := by
  rw [← Option.isSome_iff_exists]
  unfold isFile content?
  rcases fs.entry cwd p with why | _ | _ <;> simp

/-- A file system that grows keeps its files. -/
theorem Extends.content? {fs fs' : FileSystem} (h : fs.Extends fs') {cwd : Location} {p : String}
    {c : Content} (hc : fs.content? cwd p = some c) : fs'.content? cwd p = some c := by
  obtain ⟨l, x, hl, ha⟩ := content?_eq_some_iff.1 hc
  exact content?_eq_some_iff.2 ⟨l, x, h.keepsDirectories.locate hl, h l _ ha⟩

/-- A file that is written is put at the end of the way, where no directory stands. -/
theorem exists_of_write {fs fs' : FileSystem} {cwd : Location} {p s : String}
    (h : fs.write cwd p s = .ok fs') :
    ∃ l x, fs.locate cwd p = .ok l ∧ fs.at? l ≠ some .directory ∧
      fs' = fs.set l (some (.file (.text s) x)) := by
  rw [write] at h
  cases hl : fs.locate cwd p with
  | error why =>
    rw [hl] at h
    cases h
  | ok l =>
    simp only [hl, bind, Except.bind, pure, Except.pure] at h
    cases ha : fs.at? l with
    | none =>
      simp only [ha, Except.ok.injEq] at h
      exact ⟨l, false, rfl, by simp [ha], h.symm⟩
    | some e =>
      cases e with
      | directory =>
        rw [ha] at h
        cases h
      | file c x =>
        simp only [ha, Except.ok.injEq] at h
        exact ⟨l, x, rfl, by simp [ha], h.symm⟩

/-- A file is written wherever no directory stands. -/
theorem write_of_not_directory {fs : FileSystem} {cwd l : Location} {p s : String}
    (hl : fs.locate cwd p = .ok l) (hd : fs.at? l ≠ some .directory) :
    ∃ fs', fs.write cwd p s = .ok fs' := by
  simp only [write, hl, bind, Except.bind]
  cases ha : fs.at? l with
  | none => exact ⟨_, rfl⟩
  | some e =>
    cases e with
    | directory => exact (hd ha).elim
    | file c x => exact ⟨_, rfl⟩

/-- What was written is the content. -/
theorem content?_of_write {fs fs' : FileSystem} {cwd : Location} {p s : String}
    (h : fs.write cwd p s = .ok fs') : fs'.content? cwd p = some (.text s) := by
  obtain ⟨l, x, hl, hd, rfl⟩ := exists_of_write h
  have hk : fs.KeepsDirectories (fs.set l (some (.file (.text s) x))) := by
    intro m hm
    have hne : m ≠ l := by
      rintro rfl
      exact hd hm
    rw [at?_set, if_neg hne, hm]
  exact content?_eq_some_iff.2 ⟨l, x, hk.locate hl, by rw [at?_set, if_pos rfl]⟩

/-- Writing fails only where no file stands. -/
theorem content?_of_write_error {fs : FileSystem} {cwd : Location} {p s : String} {why : Failure}
    (h : fs.write cwd p s = .error why) : fs.content? cwd p = none := by
  refine Option.eq_none_iff_forall_ne_some.2 fun c hc => ?_
  obtain ⟨l, x, hl, ha⟩ := content?_eq_some_iff.1 hc
  simp only [write, hl, ha, bind, Except.bind, pure, Except.pure] at h
  cases h

end ProjectScript.FileSystem
