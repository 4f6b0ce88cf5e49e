import ProjectScript.Proofs.Outcome
import ProjectScript.Proofs.Path.Absolute
import ProjectScript.Registry

/-!
# The entry of a project file

Registering a project has two parts: first the entry is made of the project file (`draft`), which
changes no file, and then it is put into the registry (`enter`); `add_cases` takes the two apart.
The entry has a name that is not blank and absolute paths (`wellFormed_of_draft`), and it depends on
nothing but the project file (`draft_congr`).
-/

namespace ProjectScript

/-- The project that the file at a path describes. -/
def Config.projectIn (host : Host) (fs : FileSystem) (file : String) :
    Except Config.Error Project :=
  match fs.read host.here file with
  | .error why => .error (.unreadable file why)
  | .ok text => (parseProject file text).1

theorem Config.reads_loadProject (host : Host) (file : String) :
    (loadProject host file).Reads fun fs => projectIn host fs file := by
  intro w
  rw [loadProject, Act.outcome_bind, Act.outcome_files]
  dsimp only [projectIn]
  cases w.files.read host.here file with
  | error why => exact ⟨rfl, rfl⟩
  | ok text => exact ⟨rfl, rfl⟩

/-- An entry of the registry as it ought to be. -/
structure Registered.WellFormed (e : Registered) : Prop where
  name : Text.isBlank e.name = false
  file : Path.isAbsolute e.file = true
  root : Path.isAbsolute e.root = true

namespace Registry

variable {host : Host} {home : Home} {path : String} {fs fs' : FileSystem} {w w' : World}

/-- Puts an entry into the registry. -/
def enter (host : Host) (home : Home) (new : Registered) : Act Error Registered := do
  let r ← load host home
  save host home (r.insert new)
  return new

theorem isAbsolute_of_absolutize {base : Option String} {p q : String}
    (hh : Path.isAbsolute host.cwd = true) (h : absolutize host base p = .ok q) :
    Path.isAbsolute q = true := by
  rw [absolutize] at h
  cases ha : Path.absolutize? host.cwd base p with
  | none =>
    rw [ha] at h
    cases h
  | some q' =>
    rw [ha] at h
    obtain rfl := Except.ok.inj h
    exact Path.isAbsolute_of_absolute? hh ha

/-- The project at a path, and the absolute path of its file. -/
def fileIn (host : Host) (fs : FileSystem) (path : String) : Except Error (String × Project) := do
  let file ← absolutize host none path
  let project ← (Config.projectIn host fs file).mapError .config
  return (file, project)

theorem reads_loadFile (host : Host) (path : String) :
    (loadFile host path).Reads fun fs => fileIn host fs path :=
  (Act.reads_ofExcept _).bind fun file =>
    (Config.reads_loadProject host file).mapError.bind fun _ => Act.reads_pure _

/-- The entry that a project makes. -/
def entryOf (host : Host) (file : String) (project : Project) : Except Error Registered :=
  if Text.isBlank project.info.name || Text.isBlank project.info.root then
    .error (.incomplete file)
  else return ⟨project.info.name, file, ← projectRoot host project file⟩

/-- The entry that the project file at a path makes. -/
def draft (host : Host) (fs : FileSystem) (path : String) : Except Error Registered := do
  let path ← expandPath host path
  if fs.isFile host.here path then
    let (file, project) ← fileIn host fs path
    entryOf host file project
  else .error (.noFile path)

/-- Registering a project makes its entry, or fails and leaves the files as they are; then it puts
the entry into the registry. -/
theorem add_cases {answer : Except Error Registered}
    (h : (add host home path).outcome w = (answer, w')) :
    (∃ e, draft host w.files path = .error e ∧ answer = .error e ∧ w'.files = w.files) ∨
      ∃ new w₁, draft host w.files path = .ok new ∧ w₁.files = w.files ∧
        (enter host home new).outcome w₁ = (answer, w') := by
  rw [add] at h
  rw [draft]
  rcases (Act.reads_ofExcept _).bind_cases h with ⟨e, hp, rfl, hw⟩ | ⟨p, w₁, hp, hw₁, h⟩
  · exact .inl ⟨e, by rw [hp]; rfl, rfl, hw⟩
  rcases Act.reads_files.bind_cases h with ⟨_, hf, -⟩ | ⟨fs, w₂, hf, hw₂, h⟩
  · cases hf
  obtain rfl := Except.ok.inj hf
  have hfs : w₂.files = w.files := hw₂.trans hw₁
  rw [hp, ← hfs]
  rw [hw₁, ← hfs] at h
  dsimp only [bind, Except.bind]
  dsimp only at h
  by_cases hfile : w₂.files.isFile host.here p = true
  · rw [if_neg (by simp [hfile])] at h
    rw [if_pos hfile]
    rcases (reads_loadFile host p).bind_cases h with
      ⟨e, hl, rfl, hw⟩ | ⟨⟨file, project⟩, w₃, hl, hw₃, h⟩
    · exact .inl ⟨e, by rw [hl], rfl, hw⟩
    rw [hl]
    dsimp only [entryOf] at h ⊢
    by_cases hblank : (Text.isBlank project.info.name || Text.isBlank project.info.root) = true
    · rw [if_pos hblank] at h
      rw [if_pos hblank]
      obtain ⟨rfl, rfl⟩ := Prod.mk.inj h
      exact .inl ⟨_, rfl, rfl, hw₃⟩
    · rw [if_neg hblank] at h
      rw [if_neg hblank]
      rcases (Act.reads_ofExcept _).bind_cases h with ⟨e, hr, rfl, hw⟩ | ⟨root, w₄, hr, hw₄, h⟩
      · exact .inl ⟨e, by rw [hr]; rfl, rfl, hw.trans hw₃⟩
      · exact .inr ⟨⟨project.info.name, file, root⟩, w₄, by rw [hr]; rfl, hw₄.trans hw₃, h⟩
  · rw [if_pos (by simp [hfile])] at h
    rw [if_neg hfile]
    obtain ⟨rfl, rfl⟩ := Prod.mk.inj h
    exact .inl ⟨_, rfl, rfl, rfl⟩

/-! ## The entry -/

/-- An entry that is made on a host with an absolute directory is as it ought to be. -/
theorem wellFormed_of_draft {e : Registered} (hh : Path.isAbsolute host.cwd = true)
    (h : draft host fs path = .ok e) : e.WellFormed := by
  obtain ⟨p, -, h⟩ := exists_of_bind_eq_ok h
  split at h
  · obtain ⟨⟨file, project⟩, hl, h⟩ := exists_of_bind_eq_ok h
    obtain ⟨file', hf, hl⟩ := exists_of_bind_eq_ok hl
    obtain ⟨_, -, hl⟩ := exists_of_bind_eq_ok hl
    obtain ⟨rfl, rfl⟩ := Prod.mk.inj (Except.ok.inj hl)
    dsimp only [entryOf] at h
    split at h
    · cases h
    · rename_i hblank
      obtain ⟨root, hr, h⟩ := exists_of_bind_eq_ok h
      obtain rfl := Except.ok.inj h
      obtain ⟨_, -, hr⟩ := exists_of_bind_eq_ok hr
      simp only [Bool.or_eq_true, not_or, Bool.not_eq_true] at hblank
      exact ⟨hblank.1, isAbsolute_of_absolutize hh hf, isAbsolute_of_absolutize hh hr⟩
  · cases h

/-- Two file systems have the same project file at a path. -/
def SameFile (host : Host) (path : String) (fs fs' : FileSystem) : Prop :=
  ∀ p, expandPath host path = .ok p →
    fs'.isFile host.here p = fs.isFile host.here p ∧
      ∀ file, absolutize host none p = .ok file → fs'.read host.here file = fs.read host.here file

/-- The entry depends on nothing but the project file. -/
theorem draft_congr (h : SameFile host path fs fs') : draft host fs' path = draft host fs path := by
  rw [draft, draft]
  cases hp : expandPath host path with
  | error e => rfl
  | ok p =>
    obtain ⟨hfile, hread⟩ := h p hp
    have hl : fileIn host fs' p = fileIn host fs p := by
      rw [fileIn, fileIn]
      cases hf : absolutize host none p with
      | error e => rfl
      | ok file =>
        dsimp only [bind, Except.bind, Config.projectIn]
        rw [hread file hf]
    dsimp only [bind, Except.bind]
    rw [hfile, hl]

end Registry

end ProjectScript
