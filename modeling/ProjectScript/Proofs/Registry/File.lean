import ProjectScript.Proofs.FileSystem.Directories
import ProjectScript.Proofs.Outcome
import ProjectScript.Registry

/-!
# The file of the registry

The file of the registry is `stored`, and `held` is the registry that it holds; where there is no
file it is the empty one. Writing the registry either leaves it in the file, or fails where there
is no file and leaves none (`save_cases`). Reading it gives the registry that is held, or fails,
and in both cases the file holds the same registry afterwards (`load_cases`).

What failed fails again when nothing has changed since (`save_error_again`, `load_error_again`),
although directories that were made on the way are there now.
-/

namespace ProjectScript

/-- What stands in the file of the registry, if there is one. -/
def Home.stored (home : Home) (cwd : Location) (fs : FileSystem) : Option Content :=
  fs.content? cwd home.registryFile

namespace Home

variable {host : Host} {home : Home} {w w' w₂ : World}

theorem isAbsolute_registryFile : Path.isAbsolute "registry.yml" = false := by decide +kernel

theorem steps_registryFile : FileSystem.steps "registry.yml" ≠ [] := by decide +kernel

/-- The home is the same one from two directories. -/
def SameFrom (home : Home) (cwd cwd' : Location) : Prop :=
  cwd' = cwd ∨ Path.isAbsolute home.dir = true

theorem SameFrom.stored {cwd cwd' : Location} (h : home.SameFrom cwd cwd') (fs : FileSystem) :
    home.stored cwd' fs = home.stored cwd fs := by
  rcases h with rfl | ha
  · rfl
  · have hd : home.dir ≠ "" := by
      intro he
      rw [he] at ha
      cases ha
    have hf : Path.isAbsolute home.registryFile = true :=
      (FileSystem.steps_join hd isAbsolute_registryFile).2.trans ha
    rw [Home.stored, Home.stored, FileSystem.content?, FileSystem.content?, FileSystem.entry,
      FileSystem.entry, FileSystem.locate, FileSystem.locate, FileSystem.origin, FileSystem.origin,
      if_pos hf, if_pos hf]

/-- Where the home directory is not there, nothing is in it. -/
theorem locate_registryFile_ne_ok {cwd l : Location} {fs : FileSystem} (hd : home.dir ≠ "")
    (h : fs.isDirectory cwd home.dir = false) : fs.locate cwd home.registryFile ≠ .ok l := by
  intro hl
  rw [FileSystem.isDirectory_of_locate_join hd isAbsolute_registryFile steps_registryFile hl] at h
  cases h

theorem stored_eq_none {cwd : Location} {fs : FileSystem} (hd : home.dir ≠ "")
    (h : fs.isDirectory cwd home.dir = false) : home.stored cwd fs = none := by
  refine Option.eq_none_iff_forall_ne_some.2 fun c hc => ?_
  obtain ⟨l, x, hl, -⟩ := FileSystem.content?_eq_some_iff.1 hc
  exact locate_registryFile_ne_ok hd h hl

theorem stored_of_extends {cwd : Location} {fs fs' : FileSystem} (h : fs.Extends fs')
    (hn : home.stored cwd fs' = none) : home.stored cwd fs = none :=
  Option.eq_none_iff_forall_ne_some.2 fun c hc => by
    rw [stored, h.content? hc] at hn
    cases hn

/-! ## Making the home directory -/

theorem outcome_ensure (host : Host) (home : Home) (w : World) :
    (home.ensure host).outcome w =
      if w.files.pathExists host.here home.dir then (.ok (), w)
      else ((w.files.makeDirs host.here home.dir).1.mapError (.notCreated home.dir),
        { w with files := (w.files.makeDirs host.here home.dir).2 }) := by
  rw [ensure, Act.outcome_files_bind]
  split
  · rfl
  · rw [Act.outcome_bind, Act.outcome_setFiles]
    cases (w.files.makeDirs host.here home.dir).1 <;> rfl

/-- Making the home directory leaves all entries. -/
theorem extends_of_ensure {answer : Except Path.Error Unit}
    (h : (home.ensure host).outcome w = (answer, w')) : w.files.Extends w'.files := by
  rw [outcome_ensure] at h
  split at h
  · obtain ⟨-, rfl⟩ := Prod.mk.inj h
    exact fun _ _ he => he
  · obtain ⟨-, rfl⟩ := Prod.mk.inj h
    exact FileSystem.extends_makeDirs w.files host.here home.dir

theorem makeDirs_empty (fs : FileSystem) (cwd : Location) : fs.makeDirs cwd "" = (.ok (), fs) := by
  rw [FileSystem.makeDirs, FileSystem.ancestors_empty]
  rfl

/-- Once the home directory is made, making it changes nothing. -/
theorem ensure_again (h : (home.ensure host).outcome w = (.ok (), w')) (hw : w₂.files = w'.files) :
    (home.ensure host).outcome w₂ = (.ok (), w₂) := by
  rw [outcome_ensure] at h ⊢
  rw [hw]
  split at h
  · rename_i hex
    obtain ⟨-, rfl⟩ := Prod.mk.inj h
    rw [if_pos hex]
  · obtain ⟨hok, rfl⟩ := Prod.mk.inj h
    rcases hm : w.files.makeDirs host.here home.dir with ⟨result, fs⟩
    rw [hm] at hok hw
    dsimp only at hok hw ⊢
    cases result with
    | error why => cases hok
    | ok u =>
      by_cases hd : home.dir = ""
      · rw [hd, makeDirs_empty, ← hw]
        split <;> rfl
      · have hdir := FileSystem.isDirectory_of_makeDirs hd hm
        have hex : fs.pathExists host.here home.dir = true := by
          rw [FileSystem.isDirectory] at hdir
          rw [FileSystem.pathExists]
          split at hdir
          · rename_i he
            rw [he]
            rfl
          · cases hdir
        rw [if_pos hex]

/-- Where making the home directory fails it is not there, and making it once more either fails or
finds something else in its place. -/
theorem ensure_error {e : Path.Error} (h : (home.ensure host).outcome w = (.error e, w'))
    (hw : w₂.files = w'.files) :
    home.dir ≠ "" ∧ w'.files.isDirectory host.here home.dir = false ∧
      ((home.ensure host).outcome w₂ = (.ok (), w₂) ∨
        ∃ e' w₃, (home.ensure host).outcome w₂ = (.error e', w₃)) := by
  rw [outcome_ensure] at h
  split at h
  · cases h
  · obtain ⟨herr, rfl⟩ := Prod.mk.inj h
    have hd : home.dir ≠ "" := by
      intro he
      rw [he, makeDirs_empty] at herr
      cases herr
    rcases hm : w.files.makeDirs host.here home.dir with ⟨result, fs⟩
    rw [hm] at herr hw
    dsimp only at herr hw ⊢
    cases result with
    | ok u => cases herr
    | error why =>
      obtain ⟨hdir, why', fs', hm'⟩ := FileSystem.makeDirs_error hm
      refine ⟨hd, hdir, ?_⟩
      rw [outcome_ensure, hw, hm']
      split
      · exact .inl rfl
      · exact .inr ⟨_, _, rfl⟩

end Home

namespace Registry

variable {host : Host} {home : Home} {w w' w₂ : World} {r : Registry}

/-- The registry that the content of its file writes; where there is no file it is the empty one. -/
def ofContent : Option Content → Option Registry
  | none => some empty
  | some (.text s) => parse s
  | some .binary => none

/-- The registry that its file holds. -/
def held (cwd : Location) (home : Home) (fs : FileSystem) : Option Registry :=
  ofContent (home.stored cwd fs)

theorem held_of_sameFrom {cwd cwd' : Location} (h : home.SameFrom cwd cwd') (fs : FileSystem) :
    held cwd' home fs = held cwd home fs := by
  rw [held, held, h.stored]

theorem parse_text_empty : parse empty.text = some empty := by decide +kernel

/-! ## Writing -/

theorem outcome_save {w₁ : World} (h : (home.ensure host).outcome w = (.ok (), w₁)) :
    (save host home r).outcome w =
      match w₁.files.write host.here home.registryFile r.text with
      | .error why => (.error (.io why), w₁)
      | .ok fs => (.ok (), { w₁ with files := fs }) := by
  rw [save, Act.outcome_bind, Act.outcome_mapError, h]
  dsimp only [Except.mapError]
  rw [Act.outcome_files_bind]
  cases w₁.files.write host.here home.registryFile r.text <;> rfl

theorem outcome_save_error {w₁ : World} {e : Path.Error}
    (h : (home.ensure host).outcome w = (.error e, w₁)) :
    (save host home r).outcome w = (.error (.path e), w₁) := by
  rw [save, Act.outcome_bind, Act.outcome_mapError, h]
  rfl

/-- Saving leaves the registry in its file, or fails where there was no file and leaves none. -/
theorem save_cases {answer : Except Error Unit}
    (h : (save host home r).outcome w = (answer, w')) :
    (answer = .ok () ∧ home.stored host.here w'.files = some (.text r.text)) ∨
      ∃ e, answer = .error e ∧ home.stored host.here w.files = none ∧
        home.stored host.here w'.files = none := by
  rcases hens : (home.ensure host).outcome w with ⟨e | u, w₁⟩
  · rw [outcome_save_error hens] at h
    obtain ⟨rfl, rfl⟩ := Prod.mk.inj h
    obtain ⟨hd, hdir, -⟩ := Home.ensure_error hens rfl
    have hnone := Home.stored_eq_none hd hdir
    exact .inr ⟨_, rfl, Home.stored_of_extends (Home.extends_of_ensure hens) hnone, hnone⟩
  · rw [outcome_save hens] at h
    split at h
    · rename_i why hw
      obtain ⟨rfl, rfl⟩ := Prod.mk.inj h
      have hnone := FileSystem.content?_of_write_error hw
      exact .inr ⟨_, rfl, Home.stored_of_extends (Home.extends_of_ensure hens) hnone, hnone⟩
    · rename_i fs hw
      obtain ⟨rfl, rfl⟩ := Prod.mk.inj h
      exact .inl ⟨rfl, FileSystem.content?_of_write hw⟩

/-- Saving that failed fails again. -/
theorem save_error_again {e : Error} (h : (save host home r).outcome w = (.error e, w'))
    (hw : w₂.files = w'.files) : ∃ e' w₃, (save host home r).outcome w₂ = (.error e', w₃) := by
  rcases hens : (home.ensure host).outcome w with ⟨e₁ | u, w₁⟩
  · rw [outcome_save_error hens] at h
    obtain ⟨-, rfl⟩ := Prod.mk.inj h
    obtain ⟨hd, hdir, hok | ⟨e', w₃, herr⟩⟩ := Home.ensure_error hens hw
    · rw [outcome_save hok, hw]
      split
      · exact ⟨_, _, rfl⟩
      · rename_i hwrite
        obtain ⟨l, x, hl, -⟩ := FileSystem.exists_of_write hwrite
        exact (Home.locate_registryFile_ne_ok hd hdir hl).elim
    · exact ⟨_, _, outcome_save_error herr⟩
  · rw [outcome_save hens] at h
    split at h
    · rename_i hwrite
      obtain ⟨-, rfl⟩ := Prod.mk.inj h
      rw [outcome_save (Home.ensure_again hens hw), hw, hwrite]
      exact ⟨_, _, rfl⟩
    · cases h

/-! ## Reading -/

theorem held_of_stored_eq_none {cwd : Location} {fs : FileSystem} (h : home.stored cwd fs = none) :
    held cwd home fs = some empty := by
  rw [held, h]
  rfl

theorem outcome_load_text {text : String}
    (h : w.files.read host.here home.registryFile = .ok text) :
    (load host home).outcome w = ((parse text).elim (.error .corrupted) .ok, w) := by
  rw [load, Act.outcome_files_bind, h]
  dsimp only
  cases parse text <;> rfl

theorem outcome_load_notFound (h : w.files.read host.here home.registryFile = .error .notFound) :
    (load host home).outcome w =
      (((save host home empty).outcome w).1.map fun _ => empty,
        ((save host home empty).outcome w).2) := by
  rw [load, Act.outcome_files_bind, h]
  dsimp only
  rw [Act.outcome_bind]
  rcases (save host home empty).outcome w with ⟨_ | _, _⟩ <;> rfl

theorem outcome_load_error {why : Failure} (hne : why ≠ .notFound)
    (h : w.files.read host.here home.registryFile = .error why) :
    (load host home).outcome w = (.error (.io why), w) := by
  rw [load, Act.outcome_files_bind, h]
  split
  · rename_i heq
    cases heq
  · rename_i heq
    exact (hne (Except.error.inj heq)).elim
  · rename_i heq
    rw [Except.error.inj heq]
    rfl

/-- Loading gives the registry that is held and leaves it in its file, or it fails where there was
no file and leaves none; in both cases the same registry is held afterwards. -/
theorem load_cases {answer : Except Error Registry} (hr : held host.here home w.files = some r)
    (h : (load host home).outcome w = (answer, w')) :
    held host.here home w'.files = some r ∧
      ((answer = .ok r ∧ (home.stored host.here w'.files).isSome) ∨
        ∃ e, answer = .error e ∧ home.stored host.here w.files = none ∧
          home.stored host.here w'.files = none) := by
  cases hs : home.stored host.here w.files with
  | none =>
    rw [held_of_stored_eq_none hs] at hr
    obtain rfl := Option.some.inj hr
    obtain ⟨why, hread⟩ := FileSystem.read_of_content?_eq_none hs
    by_cases hnf : why = .notFound
    · -- the registry is made
      subst hnf
      rw [outcome_load_notFound hread] at h
      rcases hsave : (save host home empty).outcome w with ⟨result, w₁⟩
      rw [hsave] at h
      obtain ⟨rfl, rfl⟩ := Prod.mk.inj h
      rcases save_cases hsave with ⟨rfl, hw⟩ | ⟨e, rfl, -, hn⟩
      · refine ⟨?_, .inl ⟨rfl, ?_⟩⟩
        · rw [held, hw]
          exact parse_text_empty
        · rw [hw]
          rfl
      · exact ⟨held_of_stored_eq_none hn, .inr ⟨e, rfl, rfl, hn⟩⟩
    · rw [outcome_load_error hnf hread] at h
      obtain ⟨rfl, rfl⟩ := Prod.mk.inj h
      exact ⟨held_of_stored_eq_none hs, .inr ⟨_, rfl, rfl, hs⟩⟩
  | some c =>
    have hheld := hr
    rw [held, hs] at hr
    cases c with
    | binary => cases hr
    | text t =>
      rw [outcome_load_text (FileSystem.read_of_content? hs), show parse t = some r from hr] at h
      obtain ⟨rfl, rfl⟩ := Prod.mk.inj h
      refine ⟨hheld, .inl ⟨rfl, ?_⟩⟩
      rw [hs]
      rfl

/-- Where loading fails although nothing else than a registry stands in its file, either the file
could not be read, which changes nothing, or the registry could not be made. -/
theorem load_error_cases {e : Error} (hr : held host.here home w.files = some r)
    (h : (load host home).outcome w = (.error e, w')) :
    (w' = w ∧ ∃ why, why ≠ .notFound ∧ w.files.read host.here home.registryFile = .error why) ∨
      ∃ e₁, (save host home empty).outcome w = (.error e₁, w') := by
  obtain ⟨-, ⟨hok, -⟩ | ⟨-, -, -, hnone⟩⟩ := load_cases hr h
  · cases hok
  cases hread : w.files.read host.here home.registryFile with
  | ok text =>
    rw [outcome_load_text hread] at h
    obtain ⟨-, rfl⟩ := Prod.mk.inj h
    obtain ⟨why, herr⟩ := FileSystem.read_of_content?_eq_none hnone
    rw [hread] at herr
    cases herr
  | error why =>
    by_cases hnf : why = .notFound
    · subst hnf
      rw [outcome_load_notFound hread] at h
      rcases hs : (save host home empty).outcome w with ⟨e₁ | u, w₁⟩
      · rw [hs] at h
        obtain ⟨-, rfl⟩ := Prod.mk.inj h
        exact .inr ⟨e₁, rfl⟩
      · rw [hs] at h
        cases (Prod.mk.inj h).1
    · rw [outcome_load_error hnf hread] at h
      obtain ⟨-, rfl⟩ := Prod.mk.inj h
      exact .inl ⟨rfl, why, hnf, rfl⟩

/-- Loading that failed fails again. -/
theorem load_error_again {e : Error} (hr : held host.here home w.files = some r)
    (h : (load host home).outcome w = (.error e, w')) (hw : w₂.files = w'.files) :
    ∃ e' w₃, (load host home).outcome w₂ = (.error e', w₃) := by
  rcases load_error_cases hr h with ⟨rfl, why, hnf, hread⟩ | ⟨e₁, hsave⟩
  · rw [← hw] at hread
    exact ⟨_, _, outcome_load_error hnf hread⟩
  · obtain ⟨-, ⟨hok, -⟩ | ⟨-, -, -, hnone⟩⟩ := load_cases hr h
    · cases hok
    obtain ⟨why, hread⟩ := FileSystem.read_of_content?_eq_none hnone
    rw [← hw] at hread
    by_cases hnf : why = .notFound
    · subst hnf
      obtain ⟨e', w₃, hagain⟩ := save_error_again hsave hw
      rw [outcome_load_notFound hread, hagain]
      exact ⟨e', w₃, rfl⟩
    · exact ⟨_, _, outcome_load_error hnf hread⟩

end Registry

end ProjectScript
