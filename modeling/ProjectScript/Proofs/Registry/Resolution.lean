import ProjectScript.Proofs.Path.Clean
import ProjectScript.Proofs.Registry.Confinement
import ProjectScript.Proofs.Registry.RoundTrip

/-!
# Names and paths lead to the same project

The entry of a project that was added says what the file of the project does (`Describes`,
`describes_of_draft`), and it stands in the registry (`stored_of_added`). Adding the project has
changed no file but that of the registry (`confined_of_added`), so the entry still says what the
file does, unless this is the file of the registry itself (`describes_of_confined`).

A project is resolved by the path of its file, which is expanded and made absolute once more
(`outcome_resolve_path`), or by its name, from the paths that the registry keeps
(`outcome_resolve_name`). Both ways lead to the root of the entry, since nothing is left to do when
that is made absolute for the second time (`absolutize_root`).
-/

namespace ProjectScript

open FileSystem

/-- Two paths lead to one place. -/
def FileSystem.SamePlace (fs : FileSystem) (cwd : Location) (p q : String) : Prop :=
  ∃ l, fs.locate cwd p = .ok l ∧ fs.locate cwd q = .ok l

instance (fs : FileSystem) (cwd : Location) (p q : String) : Decidable (fs.SamePlace cwd p q) :=
  decidable_of_iff ((fs.locate cwd p).toOption.isSome = true ∧
      (fs.locate cwd p).toOption = (fs.locate cwd q).toOption) (by
    unfold FileSystem.SamePlace
    cases fs.locate cwd p <;> cases fs.locate cwd q <;> simp [Except.toOption, eq_comm])

namespace Home

variable {home : Home} {cwd : Location} {fs fs' : FileSystem} {p : String}

/-- Where the registry is written a file stays a file, and it keeps its content unless it is the
file of the registry. -/
theorem content?_of_confined {c : Content}
    (h : home.Confined cwd Registry.Rewritten fs fs') (hc : fs.content? cwd p = some c) :
    (∃ c', fs'.content? cwd p = some c') ∧
      (¬fs'.SamePlace cwd p home.registryFile → fs'.content? cwd p = some c) := by
  obtain ⟨l, x, hl, ha⟩ := content?_eq_some_iff.1 hc
  have hl' := (Registry.keepsDirectories_of_confined h).locate hl
  by_cases hsame : fs'.at? l = fs.at? l
  · rw [ha] at hsame
    have hc' := content?_eq_some_iff.2 ⟨l, x, hl', hsame⟩
    exact ⟨⟨c, hc'⟩, fun _ => hc'⟩
  · rcases h l hsame with hnew | ⟨hreg, -, r, y, hfile⟩
    · rw [hnew.before] at ha
      cases ha
    · refine ⟨⟨_, content?_eq_some_iff.2 ⟨l, y, hl', hfile⟩⟩, fun hother => ?_⟩
      exact (hother ⟨l, hl', hreg⟩).elim

theorem isFile_of_confined (h : home.Confined cwd Registry.Rewritten fs fs')
    (hp : fs.isFile cwd p = true) : fs'.isFile cwd p = true := by
  obtain ⟨c, hc⟩ := isFile_iff.1 hp
  exact isFile_iff.2 (content?_of_confined h hc).1

theorem read_of_confined {s : String} (h : home.Confined cwd Registry.Rewritten fs fs')
    (hother : ¬fs'.SamePlace cwd p home.registryFile) (hs : fs.read cwd p = .ok s) :
    fs'.read cwd p = .ok s :=
  read_of_content? ((content?_of_confined h (content?_of_read hs)).2 hother)

end Home

namespace Registry

section

variable {host : Host} {home : Home} {path : String} {e : Registered} {project : Project}
  {fs fs' : FileSystem} {w w' : World} {r : Registry}

/-! ## What an entry says -/

/-- An entry says what the project file at a path does: it has the absolute path of the file, and
the name and the root of the project. -/
structure Describes (host : Host) (fs : FileSystem) (path : String) (e : Registered)
    (project : Project) : Prop where
  file : ∃ p, expandPath host path = .ok p ∧ fs.isFile host.here p = true ∧
    absolutize host none p = .ok e.file
  read : Config.projectIn host fs e.file = .ok project
  name : project.info.name = e.name
  root : projectRoot host project e.file = .ok e.root

theorem describes_of_draft (h : draft host fs path = .ok e) :
    ∃ project, Describes host fs path e project := by
  obtain ⟨p, hp, h⟩ := exists_of_bind_eq_ok h
  split at h
  · rename_i hfile
    obtain ⟨⟨file, project⟩, hl, h⟩ := exists_of_bind_eq_ok h
    obtain ⟨file', hf, hl⟩ := exists_of_bind_eq_ok hl
    obtain ⟨project', hproject, hl⟩ := exists_of_bind_eq_ok hl
    obtain ⟨rfl, rfl⟩ := Prod.mk.inj (Except.ok.inj hl)
    dsimp only [entryOf] at h
    split at h
    · cases h
    · obtain ⟨root, hr, h⟩ := exists_of_bind_eq_ok h
      obtain rfl := Except.ok.inj h
      exact ⟨project', ⟨p, hp, hfile, hf⟩, mapError_eq_ok_iff.1 hproject, rfl, hr⟩
  · cases h

/-- The project that an entry describes is read from a text. -/
theorem Describes.exists_read (h : Describes host fs path e project) :
    ∃ s, fs.read host.here e.file = .ok s := by
  have hproject := h.read
  unfold Config.projectIn at hproject
  split at hproject
  · cases hproject
  · rename_i s hs
    exact ⟨s, hs⟩

/-- An entry still says what its file does when the registry has been written, unless this is the
file that was written. -/
theorem describes_of_confined (h : Describes host fs path e project)
    (hc : home.Confined host.here Rewritten fs fs')
    (hother : ¬fs'.SamePlace host.here e.file home.registryFile) :
    Describes host fs' path e project := by
  obtain ⟨p, hp, hfile, habs⟩ := h.file
  obtain ⟨s, hs⟩ := h.exists_read
  refine ⟨⟨p, hp, home.isFile_of_confined hc hfile, habs⟩, ?_, h.name, h.root⟩
  rw [Config.projectIn, home.read_of_confined hc hother hs, ← h.read, Config.projectIn, hs]

/-! ## What adding leaves -/

theorem rewritten_of_load {answer : Except Error Registry}
    (h : (load host home).outcome w = (answer, w')) :
    home.Confined host.here Rewritten w.files w'.files := by
  cases hread : w.files.read host.here home.registryFile with
  | ok text =>
    rw [outcome_load_text hread] at h
    obtain ⟨-, rfl⟩ := Prod.mk.inj h
    exact .of_eq rfl
  | error why =>
    by_cases hnf : why = .notFound
    · subst hnf
      rw [outcome_load_notFound hread] at h
      obtain ⟨-, rfl⟩ := Prod.mk.inj h
      exact confined_of_save (Prod.eta _).symm
    · rw [outcome_load_error hnf hread] at h
      obtain ⟨-, rfl⟩ := Prod.mk.inj h
      exact .of_eq rfl

/-- Adding a project changes the file of the registry, and makes directories on the way to it. -/
theorem confined_of_added {answer : Except Error Registered}
    (h : (add host home path).outcome w = (answer, w')) :
    home.Confined host.here Rewritten w.files w'.files := by
  rcases course_of_added h with ⟨hw, -⟩ | ⟨hw, hload, hw', -⟩ | ⟨hw, hload, hsave, hw', -⟩
  · exact .of_eq hw
  · rw [← hw, ← hw']
    exact rewritten_of_load hload
  · rw [← hw, ← hw']
    exact confined_trans (rewritten_of_load hload) (confined_of_save hsave)

/-- A project that was added has an entry that says what its file did, and the registry is written
with this entry. -/
theorem stored_of_added (h : (add host home path).outcome w = (.ok e, w')) :
    draft host w.files path = .ok e ∧
      ∃ r, home.stored host.here w'.files = some (.text (text (insert r e))) := by
  rcases add_cases h with ⟨_, -, he, -⟩ | ⟨new, w₁, hdraft, -, h⟩
  · cases he
  · rw [enter, Act.outcome_bind_eq_ok_iff] at h
    obtain ⟨r, w₂, hload, h⟩ := h
    obtain ⟨u, w₃, hsave, h⟩ := Act.outcome_bind_eq_ok_iff.1 h
    obtain ⟨he, rfl⟩ := Prod.mk.inj h
    obtain rfl := Except.ok.inj he
    exact ⟨hdraft, r, (save_of_load (stored_of_load hload) hsave).2⟩

theorem find?_insert (r : Registry) (e : Registered) : (insert r e).find? e.name = some e := by
  have herased : (r.erase e.name).projects.find? (fun p => p.name == e.name) = none := by
    apply List.find?_eq_none.2
    intro p hp
    simpa using (List.mem_filter.1 hp).2
  unfold find? insert
  rw [List.find?_append, herased]
  simp

/-! ## Roots -/

theorem absolutize_eq_ok_iff {base : Option String} {p q : String} :
    absolutize host base p = .ok q ↔ Path.absolutize? host.cwd base p = some q := by
  unfold absolutize
  cases Path.absolutize? host.cwd base p <;> simp

/-- The root of a project is absolute and stays as it is. -/
theorem absolutize_root {file root : String} (hfile : Path.isAbsolute file = true)
    (hparent : ∃ dir, Path.parent? file = some dir)
    (h : projectRoot host project file = .ok root) : absolutize host none root = .ok root := by
  obtain ⟨dir, hdir⟩ := hparent
  obtain ⟨raw, -, h⟩ := exists_of_bind_eq_ok h
  rw [hdir, absolutize_eq_ok_iff] at h
  have habs : Path.isAbsolute dir = true := by
    rw [← (steps_parent? hdir).2, hfile]
  exact absolutize_eq_ok_iff.2
    (Path.absolute?_of_absolute? (Path.isAbsolute_join habs raw) h host.cwd)

theorem Describes.absolutize_root (hh : Path.isAbsolute host.cwd = true)
    (h : Describes host fs path e project) : absolutize host none e.root = .ok e.root := by
  obtain ⟨p, -, -, habs⟩ := h.file
  obtain ⟨s, hs⟩ := h.exists_read
  exact Registry.absolutize_root (isAbsolute_of_absolutize hh habs)
    (exists_parent?_of_content? (content?_of_read hs)) h.root

/-! ## Resolving -/

/-- A project is resolved by the path of its file. -/
theorem outcome_resolve_path (h : Describes host w.files path e project)
    (hext : ∀ p, expandPath host path = .ok p → Path.isProjectFile p = true) :
    ∃ w', (resolve host home path).outcome w = (.ok ⟨project, e.root⟩, w') ∧
      w'.files = w.files := by
  obtain ⟨p, hp, hfile, habs⟩ := h.file
  have hdirect : directFile? host w.files path = some p := by
    have hexpand : Path.expand host.env path = .ok p := mapError_eq_ok_iff.1 hp
    unfold directFile?
    simp [hexpand, hfile, hext p hp]
  have hreads := (reads_loadFile host p).bind fun x =>
    (Act.reads_ofExcept (projectRoot host x.2 x.1)).bind fun root =>
      Act.reads_pure (ε := Error) (⟨x.2, root⟩ : Resolved)
  have hresult : (fileIn host w.files p >>= fun x => projectRoot host x.2 x.1 >>= fun root =>
      .ok ⟨x.2, root⟩) = (.ok ⟨project, e.root⟩ : Except Error Resolved) := by
    unfold fileIn
    rw [habs]
    dsimp only [bind, Except.bind]
    rw [h.read]
    dsimp only [Except.mapError, pure, Except.pure]
    rw [h.root]
  rw [resolve, Act.outcome_files_bind, hdirect]
  exact ⟨_, Prod.ext ((hreads w).1.trans hresult) rfl, (hreads w).2⟩

/-- A project is resolved by its name, if that leads to no project file itself. -/
theorem outcome_resolve_name (hh : Path.isAbsolute host.cwd = true)
    (h : Describes host w.files path e project)
    (hs : home.stored host.here w.files = some (.text (text r))) (hr : r.find? e.name = some e)
    (hname : directFile? host w.files e.name = none) :
    ∃ w', (resolve host home e.name).outcome w = (.ok ⟨project, e.root⟩, w') ∧
      w'.files = w.files := by
  have hreads := (Config.reads_loadProject host e.file).mapError (f := Error.config) |>.bind
    fun project => (Act.reads_ofExcept (absolutize host none e.root)).bind fun root =>
      Act.reads_pure (ε := Error) (⟨project, root⟩ : Resolved)
  have hresult : ((Config.projectIn host w.files e.file).mapError Error.config >>= fun project =>
      absolutize host none e.root >>= fun root => .ok ⟨project, root⟩) =
        (.ok ⟨project, e.root⟩ : Except Error Resolved) := by
    rw [h.read, h.absolutize_root hh]
    rfl
  rw [resolve, Act.outcome_files_bind, hname]
  dsimp only
  rw [Act.outcome_bind, outcome_load_of_parse hs (parse_text r)]
  dsimp only
  rw [hr]
  exact ⟨_, Prod.ext ((hreads w).1.trans hresult) rfl, (hreads w).2⟩

/-- **A project that was added is found by its path and by its name.** As long as no file changes,
both give the project that its file describes, with the root of its entry. The path must have the
extension of a project file once it is expanded, the name must lead to no project file, and the
project file must not be the file of the registry. -/
theorem resolve_added (hh : Path.isAbsolute host.cwd = true)
    (h : (add host home path).outcome w = (.ok e, w'))
    (hext : ∀ p, expandPath host path = .ok p → Path.isProjectFile p = true)
    (hname : directFile? host w'.files e.name = none)
    (hother : ¬w'.files.SamePlace host.here e.file home.registryFile) :
    ∃ project, Config.projectIn host w.files e.file = .ok project ∧ project.info.name = e.name ∧
      ∀ w₁, w₁.files = w'.files → ∀ ref, ref = path ∨ ref = e.name →
        ∃ w₂, (resolve host home ref).outcome w₁ = (.ok ⟨project, e.root⟩, w₂) ∧
          w₂.files = w'.files := by
  obtain ⟨hdraft, r, hs⟩ := stored_of_added h
  obtain ⟨project, hd⟩ := describes_of_draft hdraft
  refine ⟨project, hd.read, hd.name, fun w₁ hw₁ ref href => ?_⟩
  have hd₁ := describes_of_confined hd (confined_of_added h) hother
  rw [← hw₁] at hd₁ hs hname ⊢
  rcases href with rfl | rfl
  · exact outcome_resolve_path hd₁ hext
  · exact outcome_resolve_name hh hd₁ hs (find?_insert r e) hname

end

namespace Sample

/-- A host with variables for paths. -/
def variablesHost : Host where
  env := fun name =>
    if name = "WORK" then some "/work" else if name = "SRC" then some "../src" else none
  cwd := "/work/here"
  run := fun _ _ _ _ => .notLaunched .notFound

/-- There is a project file, and the name and the root of its project look like references. -/
def shelf : World where
  files := ((FileSystem.empty.set ["work".toList] (some .directory)).set
    ["work".toList, "p".toList] (some .directory)).set
    ["work".toList, "p".toList, "a.yml".toList]
    (some (.file (.text "info:\n  name: $a b\n  root: $SRC/.//x/\n") false))
  notices := []
  output := ""

/-- The entry of the project. -/
def book : Registered := ⟨"$a b", "/work/p/a.yml", "/work/p/../src/x/"⟩

def shelved : World := ((add variablesHost home "$WORK/./p//a.yml").outcome shelf).2

theorem resolve_added_book :
    Path.isAbsolute variablesHost.cwd = true ∧
      (add variablesHost home "$WORK/./p//a.yml").outcome shelf = (.ok book, shelved) ∧
      (∀ p, expandPath variablesHost "$WORK/./p//a.yml" = .ok p → Path.isProjectFile p = true) ∧
      directFile? variablesHost shelved.files book.name = none ∧
      ¬shelved.files.SamePlace variablesHost.here book.file home.registryFile ∧
      ∃ project, project.info.name = "$a b" ∧ ∀ ref ∈ ["$WORK/./p//a.yml", "$a b"],
        ∃ w, (resolve variablesHost home ref).outcome shelved =
          (.ok ⟨project, "/work/p/../src/x/"⟩, w) := by
  have hh : Path.isAbsolute variablesHost.cwd = true := by decide +kernel
  have hadd : (add variablesHost home "$WORK/./p//a.yml").outcome shelf = (.ok book, shelved) :=
    Prod.ext (eq_ok (by decide +kernel)) rfl
  have hexpand : expandPath variablesHost "$WORK/./p//a.yml" = .ok "/work/./p//a.yml" :=
    eq_ok (by decide +kernel)
  have hext : ∀ p, expandPath variablesHost "$WORK/./p//a.yml" = .ok p →
      Path.isProjectFile p = true := by
    intro p hp
    obtain rfl := Except.ok.inj (hexpand.symm.trans hp)
    decide +kernel
  have hname : directFile? variablesHost shelved.files book.name = none := by decide +kernel
  have hother : ¬shelved.files.SamePlace variablesHost.here book.file home.registryFile := by
    decide +kernel
  obtain ⟨project, -, hproject, hresolve⟩ := resolve_added hh hadd hext hname hother
  refine ⟨hh, hadd, hext, hname, hother, project, hproject, fun ref href => ?_⟩
  obtain ⟨w, hw, -⟩ := hresolve shelved rfl ref (by simpa [book] using href)
  exact ⟨w, hw⟩

end Sample

end Registry

end ProjectScript
