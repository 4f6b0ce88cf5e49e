import ProjectScript.Proofs.FileSystem.Growth
import ProjectScript.Proofs.Registry.History

/-!
# What the operations leave alone

An operation of the registry changes the files in three ways at most (`Course`): not at all, by
loading the registry, or by loading it and saving another one. What is changed is confined to the
file of the registry and to new directories on the way to the home (`Home.Confined`); an operation
that fails or only reads changes no file at all, unless it makes an empty registry where there was
none.

There is one exception. A home like `a/../b` is there only when `a` is. As long as it is missing
the registry in `b` is looked for in vain, and it is found as soon as the directories on the way to
the home are made (`Home.Hidden`). Such a registry is lost (`hidden_registry_lost`), and there is no
other exception (`guarded_iff`).

A file that holds no registry is never changed (`stored_of_history`), and nothing is changed by
adding a project without a project file that can be used (`files_of_unusable`).
-/

namespace ProjectScript

open FileSystem

/-- Where two file systems differ, a directory on the way to the home has been made, or the file of
the registry has been changed in the manner that is allowed. -/
def Home.Confined (home : Home) (cwd : Location) (allowed : Option Entry → Option Entry → Prop)
    (fs fs' : FileSystem) : Prop :=
  ∀ l, fs'.at? l ≠ fs.at? l →
    NewDirectory cwd home.dir fs fs' l ∨
      (fs'.locate cwd home.registryFile = .ok l ∧ allowed (fs.at? l) (fs'.at? l))

/-- The files when the home directory has been made. -/
def Home.made (home : Home) (cwd : Location) (fs : FileSystem) : FileSystem :=
  if fs.pathExists cwd home.dir then fs else (fs.makeDirs cwd home.dir).2

/-- The file of the registry is looked for in vain, but it is found, and holds more than an empty
registry, when the home directory has been made. -/
def Home.Hidden (home : Home) (cwd : Location) (fs : FileSystem) : Prop :=
  home.stored cwd fs = none ∧
    ∃ c, home.stored cwd (home.made cwd fs) = some c ∧ c ≠ .text Registry.empty.text

namespace Home

variable {home : Home} {host : Host} {cwd l : Location} {fs fs₁ fs₂ : FileSystem}
  {allowed allowed' : Option Entry → Option Entry → Prop} {w : World}

theorem files_of_ensure (host : Host) (home : Home) (w : World) :
    ((home.ensure host).outcome w).2.files = home.made host.here w.files := by
  rw [outcome_ensure, made]
  split <;> rfl

theorem madeAlong_made (home : Home) (cwd : Location) (fs : FileSystem) :
    MadeAlong cwd home.dir fs (home.made cwd fs) := by
  rw [made]
  split
  · exact .refl cwd home.dir fs
  · exact madeAlong_makeDirs fs cwd home.dir

theorem Confined.of_eq (h : fs₁ = fs) : home.Confined cwd allowed fs fs₁ :=
  fun _ hl => (hl (by rw [h])).elim

theorem Confined.of_madeAlong (h : MadeAlong cwd home.dir fs fs₁) :
    home.Confined cwd allowed fs fs₁ := fun l hl => .inl (h.new l hl)

theorem Confined.mono (h : home.Confined cwd allowed fs fs₁)
    (ha : ∀ old new, allowed old new → allowed' old new) : home.Confined cwd allowed' fs fs₁ :=
  fun l hl => (h l hl).imp_right fun ⟨hloc, hc⟩ => ⟨hloc, ha _ _ hc⟩

/-- The file of the registry is changed when the directories on the way to it have been made. -/
theorem confined_of_set {e : Option Entry} (hm : MadeAlong cwd home.dir fs fs₁)
    (hl : fs₁.locate cwd home.registryFile = .ok l) (hd : fs₁.at? l ≠ some .directory)
    (ha : fs₁.at? l ≠ e → allowed (fs₁.at? l) e) :
    home.Confined cwd allowed fs (fs₁.set l e) := by
  have hk : fs₁.KeepsDirectories (fs₁.set l e) := by
    intro m hdir
    rw [at?_set, if_neg, hdir]
    rintro rfl
    exact hd hdir
  intro m hne
  by_cases hml : m = l
  · subst hml
    have hsame : fs₁.at? m = fs.at? m :=
      Decidable.byContradiction fun h => hd (hm.new m h).after
    rw [at?_set, if_pos rfl] at hne ⊢
    rw [← hsame] at hne ⊢
    exact .inr ⟨hk.locate hl, ha (Ne.symm hne)⟩
  · rw [at?_set, if_neg hml] at hne
    have hnew := hm.new m hne
    exact .inl ⟨hnew.before, by rw [at?_set, if_neg hml, hnew.after], hk.onWay hnew.onWay⟩

end Home

namespace Registry

/-- A file, or nothing, becomes a file with a registry. -/
def Rewritten (old new : Option Entry) : Prop :=
  old ≠ some .directory ∧ ∃ (r : Registry) (x : Bool), new = some (.file (.text r.text) x)

/-- Nothing becomes a file with an empty registry. -/
def Made (old new : Option Entry) : Prop :=
  old = none ∧ ∃ x, new = some (.file (.text empty.text) x)

theorem Made.rewritten (old new : Option Entry) (h : Made old new) : Rewritten old new :=
  ⟨by simp [h.1], empty, h.2⟩

/-- How an event changes the files. The worlds in which it starts to load and to save have the
files that it has found or left. -/
inductive Course (host : Host) (home : Home) (fs fs' : FileSystem) (event : Event) : Prop
  | idle : fs' = fs → event.name? = none → Course host home fs fs' event
  | loads {w w' : World} {result : Except Error Registry} :
    w.files = fs → (load host home).outcome w = (result, w') → w'.files = fs' →
      event.name? = none → Course host home fs fs' event
  | saves {w w₁ w' : World} {r r' : Registry} {result : Except Error Unit} :
    w.files = fs → (load host home).outcome w = (.ok r, w₁) →
      (save host home r').outcome w₁ = (result, w') → w'.files = fs' →
      (result = .ok () → event.name? ≠ none) → Course host home fs fs' event

section

variable {host : Host} {home : Home} {w w' : World} {event : Event} {r : Registry}

/-! ## The courses of the operations -/

theorem course_of_added {path : String} {answer : Except Error Registered}
    (h : (add host home path).outcome w = (answer, w')) :
    Course host home w.files w'.files (.added path answer) := by
  rcases add_cases h with ⟨e, -, rfl, hw⟩ | ⟨new, w₀, -, hw₀, h⟩
  · exact .idle hw rfl
  · rcases Act.outcome_bind_cases h with ⟨r, w₁, hload, h⟩ | ⟨e, hload, rfl⟩
    · rcases Act.outcome_bind_cases h with ⟨u, w₂, hsave, h⟩ | ⟨e, hsave, rfl⟩
      · obtain ⟨rfl, rfl⟩ := Prod.mk.inj h
        exact .saves hw₀ hload hsave rfl fun _ => Option.some_ne_none _
      · exact .saves hw₀ hload hsave rfl fun hok => by cases hok
    · exact .loads hw₀ hload rfl rfl

theorem course_of_removed {name : String} {answer : Except Error Unit}
    (h : (remove host home name).outcome w = (answer, w')) :
    Course host home w.files w'.files (.removed name answer) := by
  rcases Act.outcome_bind_cases h with ⟨r, w₁, hload, h⟩ | ⟨e, hload, rfl⟩
  · dsimp only at h
    split at h
    · obtain ⟨rfl, rfl⟩ := Prod.mk.inj h
      exact .loads rfl hload rfl rfl
    · refine .saves rfl hload h rfl ?_
      rintro rfl
      exact Option.some_ne_none _
  · exact .loads rfl hload rfl rfl

theorem course_of_listed {answer : Except Error (List Registered)}
    (h : (list host home).outcome w = (answer, w')) :
    Course host home w.files w'.files (.listed answer) := by
  rcases Act.outcome_bind_cases h with ⟨r, w₁, hload, h⟩ | ⟨e, hload, rfl⟩
  · obtain ⟨-, rfl⟩ := Prod.mk.inj h
    exact .loads rfl hload rfl rfl
  · exact .loads rfl hload rfl rfl

theorem course_of_resolved {ref : String} {answer : Except Error Resolved}
    (h : (resolve host home ref).outcome w = (answer, w')) :
    Course host home w.files w'.files (.resolved ref answer) := by
  rw [resolve, Act.outcome_files_bind] at h
  split at h
  · rename_i path _
    have hreads := (reads_loadFile host path).bind fun x =>
      (Act.reads_ofExcept (projectRoot host x.2 x.1)).bind fun root =>
        Act.reads_pure (ε := Error) (⟨x.2, root⟩ : Resolved)
    exact .idle (hreads.outcome h).2 rfl
  · rcases Act.outcome_bind_cases h with ⟨r, w₁, hload, h⟩ | ⟨e, hload, rfl⟩
    · split at h
      · obtain ⟨-, rfl⟩ := Prod.mk.inj h
        exact .loads rfl hload rfl rfl
      · rename_i p _
        have hreads := (Config.reads_loadProject host p.file).mapError (f := Error.config) |>.bind
          fun project => (Act.reads_ofExcept (absolutize host none p.root)).bind fun root =>
            Act.reads_pure (ε := Error) (⟨project, root⟩ : Resolved)
        exact .loads rfl hload (hreads.outcome h).2.symm rfl
    · exact .loads rfl hload rfl rfl

theorem course_of_happens (h : event.Happens host home w w') :
    Course host home w.files w'.files event := by
  cases event with
  | added path answer => exact course_of_added h
  | removed name answer => exact course_of_removed h
  | listed answer => exact course_of_listed h
  | resolved ref answer => exact course_of_resolved h

/-! ## What is changed -/

/-- Saving leaves the home directory made, or puts the registry into its file then. -/
theorem files_of_save {answer : Except Error Unit}
    (h : (save host home r).outcome w = (answer, w')) :
    w'.files = home.made host.here w.files ∨
      (home.made host.here w.files).write host.here home.registryFile r.text = .ok w'.files := by
  rw [← Home.files_of_ensure]
  rcases hens : (home.ensure host).outcome w with ⟨e | u, w₁⟩
  · rw [outcome_save_error hens] at h
    obtain ⟨-, rfl⟩ := Prod.mk.inj h
    exact .inl rfl
  · rw [outcome_save hens] at h
    split at h
    · obtain ⟨-, rfl⟩ := Prod.mk.inj h
      exact .inl rfl
    · rename_i fs hw
      obtain ⟨-, rfl⟩ := Prod.mk.inj h
      exact .inr hw

theorem confined_of_save {answer : Except Error Unit}
    (h : (save host home r).outcome w = (answer, w')) :
    home.Confined host.here Rewritten w.files w'.files := by
  have hm := home.madeAlong_made host.here w.files
  rcases files_of_save h with hw | hw
  · rw [hw]
    exact .of_madeAlong hm
  · obtain ⟨l, x, hl, hd, hw⟩ := exists_of_write hw
    rw [hw]
    exact Home.confined_of_set hm hl hd fun _ => ⟨hd, r, x, rfl⟩

/-- Where no registry is found, an empty one is made, unless there is a hidden one. -/
theorem confined_of_save_empty {answer : Except Error Unit}
    (hh : ¬home.Hidden host.here w.files) (hn : home.stored host.here w.files = none)
    (h : (save host home empty).outcome w = (answer, w')) :
    home.Confined host.here Made w.files w'.files := by
  have hm := home.madeAlong_made host.here w.files
  rcases files_of_save h with hw | hwrite
  · rw [hw]
    exact .of_madeAlong hm
  · obtain ⟨l, x, hl, hd, hw⟩ := exists_of_write hwrite
    rw [hw]
    refine Home.confined_of_set hm hl hd fun hne => ⟨?_, x, rfl⟩
    rcases ha : (home.made host.here w.files).at? l with _ | _ | ⟨c, y⟩
    · rfl
    · exact (hd ha).elim
    · -- what is found there is an empty registry already
      have hc : c = .text empty.text := Decidable.byContradiction fun hc =>
        hh ⟨hn, c, content?_eq_some_iff.2 ⟨l, y, hl, ha⟩, hc⟩
      rw [write_of_file hl ha] at hwrite
      have hsame := congrArg (·.at? l) ((Except.ok.inj hwrite).trans hw)
      simp only [at?_set, if_true] at hsame
      rw [ha, hc, hsame] at hne
      exact (hne rfl).elim

theorem confined_of_load {answer : Except Error Registry}
    (hh : ¬home.Hidden host.here w.files) (h : (load host home).outcome w = (answer, w')) :
    home.Confined host.here Made w.files w'.files := by
  cases hread : w.files.read host.here home.registryFile with
  | ok text =>
    rw [outcome_load_text hread] at h
    obtain ⟨-, rfl⟩ := Prod.mk.inj h
    exact .of_eq rfl
  | error why =>
    by_cases hnf : why = .notFound
    · subst hnf
      rw [outcome_load_notFound hread] at h
      obtain ⟨-, rfl⟩ := Prod.mk.inj h
      exact confined_of_save_empty hh (content?_of_read_notFound hread) (Prod.eta _).symm
    · rw [outcome_load_error hnf hread] at h
      obtain ⟨-, rfl⟩ := Prod.mk.inj h
      exact .of_eq rfl

/-- A registry that was loaded is in its file. -/
theorem stored_of_load (h : (load host home).outcome w = (.ok r, w')) :
    (home.stored host.here w'.files).isSome := by
  cases hread : w.files.read host.here home.registryFile with
  | ok text =>
    rw [outcome_load_text hread] at h
    obtain ⟨-, rfl⟩ := Prod.mk.inj h
    cases hs : home.stored host.here w.files with
    | some c => rfl
    | none =>
      obtain ⟨why, herr⟩ := read_of_content?_eq_none hs
      rw [hread] at herr
      cases herr
  | error why =>
    by_cases hnf : why = .notFound
    · subst hnf
      rw [outcome_load_notFound hread] at h
      rcases hsave : (save host home empty).outcome w with ⟨result, w₁⟩
      rw [hsave] at h
      obtain ⟨hok, rfl⟩ := Prod.mk.inj h
      rcases save_cases hsave with ⟨-, hs⟩ | ⟨e, rfl, -, -⟩
      · rw [hs]
        rfl
      · cases hok
    · rw [outcome_load_error hnf hread] at h
      cases (Prod.mk.inj h).1

theorem keepsDirectories_of_confined {cwd : Location} {fs fs' : FileSystem}
    (h : home.Confined cwd Rewritten fs fs') : fs.KeepsDirectories fs' := by
  intro l hd
  by_cases hl : fs'.at? l = fs.at? l
  · rw [hl, hd]
  · rcases h l hl with hnew | ⟨-, hc⟩
    · rw [hnew.before] at hd
      cases hd
    · exact (hc.1 hd).elim

theorem confined_trans {cwd : Location} {fs fs₁ fs₂ : FileSystem}
    (h : home.Confined cwd Rewritten fs fs₁) (h' : home.Confined cwd Rewritten fs₁ fs₂) :
    home.Confined cwd Rewritten fs fs₂ := by
  have hk := keepsDirectories_of_confined h'
  intro l hl
  by_cases h₁ : fs₁.at? l = fs.at? l
  · rw [← h₁] at hl ⊢
    exact (h' l hl).imp_left fun hnew => ⟨h₁.symm.trans hnew.before, hnew.after, hnew.onWay⟩
  · rcases h l h₁ with hnew | ⟨hloc, hc⟩
    · exact .inl ⟨hnew.before, hk l hnew.after, hk.onWay hnew.onWay⟩
    · refine .inr ⟨hk.locate hloc, ?_⟩
      by_cases h₂ : fs₂.at? l = fs₁.at? l
      · rw [h₂]
        exact hc
      · obtain ⟨hold, s, x, hfile⟩ := hc
        rcases h' l h₂ with hnew | ⟨-, hc'⟩
        · rw [hnew.before] at hfile
          cases hfile
        · exact ⟨hold, hc'.2⟩

/-! ## Operations -/

/-- In a world the operations change nothing but the file of the registry, and make nothing but
directories on the way to the home; those that fail or only read change no file, but may make an
empty registry where there is none. -/
def Guarded (host : Host) (home : Home) (w : World) : Prop :=
  ∀ (event : Event) (w' : World), event.Happens host home w w' →
    home.Confined host.here Rewritten w.files w'.files ∧
      (event.name? = none → home.Confined host.here Made w.files w'.files)

theorem guarded_of_not_hidden (hh : ¬home.Hidden host.here w.files) : Guarded host home w := by
  intro event w' h
  have hmono {fs fs' : FileSystem} (hc : home.Confined host.here Made fs fs') :
      home.Confined host.here Rewritten fs fs' := hc.mono Made.rewritten
  rcases course_of_happens h with ⟨hw, -⟩ | ⟨hw, hload, hw', -⟩ | ⟨hw, hload, hsave, hw', hchanges⟩
  · exact ⟨.of_eq hw, fun _ => .of_eq hw⟩
  · rw [← hw] at hh ⊢
    rw [← hw']
    have hc := confined_of_load hh hload
    exact ⟨hmono hc, fun _ => hc⟩
  · rw [← hw] at hh ⊢
    rw [← hw']
    have hload' := hmono (confined_of_load hh hload)
    have hok := (save_of_load (stored_of_load hload) hsave).1
    exact ⟨confined_trans hload' (confined_of_save hsave), fun hname => (hchanges hok hname).elim⟩

/-- Making an empty registry replaces one that is found when the home directory is made. -/
theorem write_of_save {answer : Except Error Unit} {c : Content}
    (hc : home.stored host.here (home.made host.here w.files) = some c) (hne : c ≠ .text r.text)
    (h : (save host home r).outcome w = (answer, w')) :
    (home.made host.here w.files).write host.here home.registryFile r.text = .ok w'.files := by
  rcases files_of_save h with hw | hw
  · rw [← hw] at hc
    rcases save_cases h with ⟨-, hs⟩ | ⟨_, -, -, hs⟩
    · rw [hs] at hc
      exact (hne (Option.some.inj hc).symm).elim
    · rw [hs] at hc
      cases hc
  · exact hw

theorem files_of_list (host : Host) (home : Home) (w : World) :
    ((list host home).outcome w).2 = ((load host home).outcome w).2 := by
  rw [list, Act.outcome_bind]
  rcases (load host home).outcome w with ⟨_ | _, _⟩ <;> rfl

/-- Listing loses a hidden registry. -/
theorem not_guarded_of_hidden (hh : home.Hidden host.here w.files) : ¬Guarded host home w := by
  intro hg
  obtain ⟨hn, c, hc, hne⟩ := hh
  have hm := home.madeAlong_made host.here w.files
  obtain ⟨l, x, hl, ha⟩ := content?_eq_some_iff.1 hc
  -- the registry stands there already, since only directories have been made
  have hold : w.files.at? l = some (.file c x) := by
    rw [← ha]
    refine Decidable.byContradiction fun hne => ?_
    rw [(hm.new l (Ne.symm hne)).after] at ha
    cases ha
  rcases hlist : (list host home).outcome w with ⟨answer, w'⟩
  have hwrite : (home.made host.here w.files).write host.here home.registryFile empty.text =
      .ok w'.files := by
    have hw' := files_of_list host home w
    rw [hlist, outcome_load_notFound (read_eq_notFound_of_extends hm.grown hc hn)] at hw'
    rw [show w' = _ from hw']
    exact write_of_save hc hne (Prod.eta _).symm
  rw [write_of_file hl ha] at hwrite
  have hdiff : w'.files.at? l ≠ w.files.at? l := by
    rw [← Except.ok.inj hwrite, at?_set, if_pos rfl, hold]
    intro he
    injection he with he
    injection he with he
    exact hne he.symm
  rcases (hg (.listed answer) w' hlist).2 rfl l hdiff with hnew | ⟨-, hnone, -⟩
  · rw [hnew.before] at hold
    cases hold
  · rw [hnone] at hold
    cases hold

/-- Only a hidden registry can be lost. -/
theorem guarded_iff : Guarded host home w ↔ ¬home.Hidden host.here w.files :=
  ⟨fun hg hh => not_guarded_of_hidden hh hg, guarded_of_not_hidden⟩

/-! ## Files that hold no registry, and project files that cannot be used -/

/-- Loading fails where its file holds no registry, and changes nothing. -/
theorem load_of_held_eq_none (hr : held host.here home w.files = none) :
    ∃ e, (load host home).outcome w = (.error e, w) := by
  cases hs : home.stored host.here w.files with
  | none =>
    rw [held_of_stored_eq_none hs] at hr
    cases hr
  | some c =>
    rw [held, hs] at hr
    cases c with
    | text s =>
      refine ⟨.corrupted, ?_⟩
      rw [outcome_load_text (read_of_content? hs), show parse s = none from hr]
      rfl
    | binary =>
      obtain ⟨l, x, hl, ha⟩ := content?_eq_some_iff.1 hs
      have hread : w.files.read host.here home.registryFile = .error .notText := by
        rw [FileSystem.read, entry_eq_ok_iff.2 ⟨l, hl, ha⟩]
        rfl
      exact ⟨_, outcome_load_error (by decide) hread⟩

theorem files_of_held_eq_none (hr : held host.here home w.files = none)
    (h : event.Happens host home w w') : w'.files = w.files := by
  rcases course_of_happens h with ⟨hw, -⟩ | ⟨hw, hload, hw', -⟩ | ⟨hw, hload, -, -, -⟩
  · exact hw
  · rw [← hw] at hr ⊢
    obtain ⟨e, he⟩ := load_of_held_eq_none hr
    rw [hload] at he
    rw [← hw', (Prod.mk.inj he).2]
  · rw [← hw] at hr
    obtain ⟨e, he⟩ := load_of_held_eq_none hr
    rw [hload] at he
    cases (Prod.mk.inj he).1

/-- A file that holds no registry is never changed. -/
theorem stored_of_history {here : Location} {start fs : FileSystem} {events : List Event}
    (hr : held here home start = none) (h : History home here start events fs) :
    home.stored here fs = home.stored here start := by
  induction h with
  | nil => rfl
  | @step events fs host w w' event hist hf hh ih =>
    have hw : held host.here home w.files = none := by
      rw [hf.held, held, ih]
      exact hr
    rw [files_of_held_eq_none hw hh, hf.stored, ih]

/-- A path leads to no project file, to one that describes no project, or to one of a project
without a name or without a root. -/
inductive Unusable (host : Host) (fs : FileSystem) (path : String) : Prop
  | missing : (∀ p, expandPath host path = .ok p → fs.isFile host.here p = false) →
    Unusable host fs path
  | unparsable {p file : String} {why : Config.Error} :
    expandPath host path = .ok p → absolutize host none p = .ok file →
      Config.projectIn host fs file = .error why → Unusable host fs path
  | incomplete {p file : String} {project : Project} :
    expandPath host path = .ok p → absolutize host none p = .ok file →
      Config.projectIn host fs file = .ok project →
      (Text.isBlank project.info.name || Text.isBlank project.info.root) = true →
      Unusable host fs path

theorem draft_of_unusable {fs : FileSystem} {path : String} (h : Unusable host fs path) :
    ∃ e, draft host fs path = .error e := by
  cases h with
  | missing hmissing =>
    rw [draft]
    cases hp : expandPath host path with
    | error e => exact ⟨e, rfl⟩
    | ok p =>
      refine ⟨.noFile p, ?_⟩
      dsimp only [bind, Except.bind]
      rw [hmissing p hp]
      rfl
  | unparsable hp hf hproject =>
    rw [draft, hp]
    dsimp only [bind, Except.bind]
    split
    · rw [fileIn, hf]
      dsimp only [bind, Except.bind]
      rw [hproject]
      exact ⟨_, rfl⟩
    · exact ⟨_, rfl⟩
  | incomplete hp hf hproject hblank =>
    rw [draft, hp]
    dsimp only [bind, Except.bind]
    split
    · rw [fileIn, hf]
      dsimp only [bind, Except.bind]
      rw [hproject]
      dsimp only [Except.mapError, pure, Except.pure]
      rw [entryOf, if_pos hblank]
      exact ⟨_, rfl⟩
    · exact ⟨_, rfl⟩

/-- Adding a project without a usable project file fails and changes nothing. -/
theorem files_of_unusable {path : String} {answer : Except Error Registered}
    (hu : Unusable host w.files path) (h : (add host home path).outcome w = (answer, w')) :
    (∃ e, answer = .error e) ∧ w'.files = w.files := by
  obtain ⟨e, he⟩ := draft_of_unusable hu
  rcases add_cases h with ⟨e', -, rfl, hw⟩ | ⟨new, w₁, hok, -, -⟩
  · exact ⟨⟨e', rfl⟩, hw⟩
  · rw [he] at hok
    cases hok

/-- **Operations of the registry are confined to its file.** They change no other file and make
nothing but directories on the way to the home, and those that fail or only read leave its file as
it is or make an empty registry where there is none; only a hidden registry is not safe. A file that
holds no registry is never changed, and adding a project without a usable project file changes
nothing. -/
theorem operations_confined (host : Host) (home : Home) :
    (∀ w, Guarded host home w ↔ ¬home.Hidden host.here w.files) ∧
      (∀ (path : String) (w w' : World) (answer : Except Error Registered),
        Unusable host w.files path → (add host home path).outcome w = (answer, w') →
          (∃ e, answer = .error e) ∧ w'.files = w.files) ∧
      ∀ (here : Location) (start fs : FileSystem) (events : List Event),
        held here home start = none → History home here start events fs →
          home.stored here fs = home.stored here start :=
  ⟨fun _ => guarded_iff, fun _ _ _ _ => files_of_unusable, fun _ _ _ _ => stored_of_history⟩

end

namespace Sample

/-- A file stands in the place of the registry that is not one. -/
def spoiled : World :=
  ⟨(FileSystem.empty.set ["pm".toList] (some .directory)).set ["pm".toList, "registry.yml".toList]
    (some (.file (.text "projects: [") false)), [], ""⟩

def spoiledAfter : World := ((list host home).outcome spoiled).2

theorem operations_confined_sample :
    Guarded host home start ∧
      Unusable host start.files "b.yml" ∧
      ((add host home "b.yml").outcome start).2.files = start.files ∧
      held [] home spoiled.files = none ∧
      History home [] spoiled.files [.listed (.error .corrupted)] spoiledAfter.files ∧
      home.stored [] spoiledAfter.files = some (.text "projects: [") := by
  obtain ⟨hguarded, hadd, hhistory⟩ := operations_confined host home
  have hpath : expandPath host "b.yml" = .ok "b.yml" := eq_ok (by decide +kernel)
  have hu : Unusable host start.files "b.yml" := .missing fun p hp => by
    obtain rfl := Except.ok.inj (hpath.symm.trans hp)
    decide +kernel
  have hspoiled : held [] home spoiled.files = none := by decide +kernel
  have hanswer : ((list host home).outcome spoiled).1 = .error .corrupted :=
    eq_error (by decide +kernel)
  have hlisted : (Event.listed (.error .corrupted)).Happens host home spoiled spoiledAfter := by
    rw [Event.Happens, ← hanswer, spoiledAfter]
  have hist := History.nil.step (follows spoiled) hlisted
  refine ⟨(hguarded start).2 ?_, hu, (hadd _ _ _ _ hu (Prod.eta _).symm).2, hspoiled, hist,
    (hhistory _ _ _ _ hspoiled hist).trans (by decide +kernel)⟩
  rintro ⟨-, c, hc, -⟩
  rw [show home.stored host.here (home.made host.here start.files) = none by decide +kernel] at hc
  cases hc

/-- A home behind a directory that is missing. -/
def behind : Home := ⟨"/a/../b"⟩

/-- The registry of another project stands in the directory of the home. -/
def occupied : World :=
  ⟨(FileSystem.empty.set ["b".toList] (some .directory)).set ["b".toList, "registry.yml".toList]
    (some (.file (.text "projects:\n- name: x\n  meta: /m.yml\n  root: /r\n") false)), [], ""⟩

/-- Taking away a project that is not there empties a hidden registry. -/
theorem hidden_registry_lost :
    ((remove host behind "ghost").outcome occupied).1 = .error (.unknown "ghost") ∧
      occupied.files.at? ["b".toList, "registry.yml".toList] =
        some (.file (.text (text ⟨[⟨"x", "/m.yml", "/r"⟩]⟩)) false) ∧
      ((remove host behind "ghost").outcome occupied).2.files.at?
        ["b".toList, "registry.yml".toList] = some (.file (.text empty.text) false) := by
  exact ⟨eq_error (by decide +kernel), by decide +kernel, by decide +kernel⟩

end Sample

end Registry

end ProjectScript
