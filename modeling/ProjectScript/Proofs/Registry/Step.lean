import ProjectScript.Proofs.Registry.Entry
import ProjectScript.Proofs.Registry.File

/-!
# What the operations do to the entries

An operation of the registry and what it gave make an `Event`, and every event has an effect on a
list of entries (`Event.effect`): what was added stands at the end, in place of an entry of its
name; what was removed is gone; all else leaves the list as it is. An event takes the entries that
are held to those of its effect (`held_of_happens`).

An effect keeps entries `Sound`: their names are distinct, and each of them is well-formed
(`sound_effect`). An event under one name leaves the entry that is found under another one
(`find?_effect`). What was added can be added again, and stands there once (`added_again`); what
could not be added still cannot be added (`added_error_again`).
-/

namespace ProjectScript.Registry

/-- An operation of the registry, and what it gave. -/
inductive Event
  | added (path : String) (answer : Except Error Registered)
  | removed (name : String) (answer : Except Error Unit)
  | listed (answer : Except Error (List Registered))
  | resolved (ref : String) (answer : Except Error Resolved)

namespace Event

/-- The operation of an event gives what the event says, on a host, and leads from one world to
another one. -/
def Happens (host : Host) (home : Home) (w w' : World) : Event → Prop
  | added path answer => (add host home path).outcome w = (answer, w')
  | removed name answer => (remove host home name).outcome w = (answer, w')
  | listed answer => (list host home).outcome w = (answer, w')
  | resolved ref answer => (resolve host home ref).outcome w = (answer, w')

/-- The entries after an event. -/
def effect (ps : List Registered) : Event → List Registered
  | added _ (.ok e) => ps.filter (fun p => p.name != e.name) ++ [e]
  | removed name (.ok ()) => ps.filter fun p => p.name != name
  | _ => ps

/-- What the answer of an event says about the entries before it. -/
def Tells (ps : List Registered) : Event → Prop
  | removed name (.ok ()) => ∃ p ∈ ps, p.name = name
  | listed (.ok qs) => qs = ps
  | _ => True

/-- The name under which an event changes the entries, if it does. -/
def name? : Event → Option String
  | added _ (.ok e) => some e.name
  | removed name (.ok ()) => some name
  | _ => none

end Event

/-- Entries with distinct names, each of them well-formed. -/
structure Sound (ps : List Registered) : Prop where
  nodup : (ps.map (·.name)).Nodup
  wellFormed : ∀ e ∈ ps, e.WellFormed

/-- The text that is written for some entries is read back as them. -/
def Readable (ps : List Registered) : Prop := parse (text ⟨ps⟩) = some ⟨ps⟩

instance (ps : List Registered) : Decidable (Readable ps) :=
  inferInstanceAs (Decidable (parse (text ⟨ps⟩) = some ⟨ps⟩))

/-! ## Effects -/

section Effect

variable {ps : List Registered} {event : Event}

theorem sound_filter (h : Sound ps) (q : Registered → Bool) : Sound (ps.filter q) where
  nodup := h.nodup.sublist (List.filter_sublist.map _)
  wellFormed e he := h.wellFormed e (List.mem_filter.1 he).1

theorem sound_effect (h : Sound ps)
    (hnew : ∀ path e, event = .added path (.ok e) → e.WellFormed) : Sound (event.effect ps) := by
  rcases event with ⟨path, _ | e⟩ | ⟨name, _ | ⟨⟩⟩ | _ | _
  · exact h
  · have hold := sound_filter h fun p => p.name != e.name
    refine ⟨?_, fun p hp => ?_⟩
    · rw [Event.effect, List.map_append, List.map_singleton]
      refine List.nodup_append.2 ⟨hold.nodup, List.pairwise_singleton _ _, fun a ha b hb => ?_⟩
      obtain ⟨p, hp, rfl⟩ := List.mem_map.1 ha
      rw [List.mem_singleton.1 hb]
      simpa using (List.mem_filter.1 hp).2
    · rcases List.mem_append.1 hp with hp | hp
      · exact hold.wellFormed p hp
      · rw [List.mem_singleton.1 hp]
        exact hnew path e rfl
  · exact h
  · exact sound_filter h _
  · exact h
  · exact h

/-- Taking away one name leaves what is found under another one. -/
theorem find?_filter_of_ne {n m : String} (hn : n ≠ m) :
    find? ⟨ps.filter fun p => p.name != n⟩ m = find? ⟨ps⟩ m := by
  rw [find?, find?, List.find?_filter]
  congr
  funext p
  by_cases hm : p.name = m
  · simp [hm, hn.symm]
  · simp [hm]

/-- An event under one name leaves what is found under another one. -/
theorem find?_effect {m : String} (h : event.name? ≠ some m) :
    find? ⟨event.effect ps⟩ m = find? ⟨ps⟩ m := by
  rcases event with ⟨path, _ | e⟩ | ⟨name, _ | ⟨⟩⟩ | _ | _
  · rfl
  · have hne : e.name ≠ m := fun he => h (congrArg some he)
    refine Eq.trans ?_ (find?_filter_of_ne hne)
    rw [Event.effect, find?, find?, List.find?_append]
    simp [hne]
  · rfl
  · exact find?_filter_of_ne fun he => h (congrArg some he)
  · rfl
  · rfl

/-- What is added twice stands there once. -/
theorem effect_added_again (path path' : String) (e : Registered) :
    (Event.added path' (.ok e)).effect ((Event.added path (.ok e)).effect ps) =
      (Event.added path (.ok e)).effect ps := by
  simp [Event.effect, List.filter_append]

end Effect

/-! ## Steps -/

section Step

variable {host : Host} {home : Home} {w w' : World} {ps : List Registered}

theorem held_of_stored {cwd : Location} {fs : FileSystem}
    (h : home.stored cwd fs = some (.text (text ⟨ps⟩))) (hread : Readable ps) :
    held cwd home fs = some ⟨ps⟩ := by
  rw [held, h]
  exact hread

/-- Writing a registry that was loaded succeeds. -/
theorem save_of_load {answer : Except Error Unit} {r : Registry}
    (hs : (home.stored host.here w.files).isSome)
    (h : (save host home r).outcome w = (answer, w')) :
    answer = .ok () ∧ home.stored host.here w'.files = some (.text r.text) := by
  rcases save_cases h with hok | ⟨e, -, hnone, -⟩
  · exact hok
  · rw [hnone] at hs
    cases hs

/-- Putting an entry into the registry fails only where the registry cannot be loaded. -/
theorem enter_cases {new : Registered} {answer : Except Error Registered}
    (hr : held host.here home w.files = some ⟨ps⟩)
    (h : (enter host home new).outcome w = (answer, w')) :
    (answer = .ok new ∧
        home.stored host.here w'.files = some (.text (text (insert ⟨ps⟩ new)))) ∨
      ∃ e, answer = .error e ∧ (load host home).outcome w = (.error e, w') := by
  rcases Act.outcome_bind_cases h with ⟨r, w₁, hload, h⟩ | ⟨e, hload, rfl⟩
  · obtain ⟨-, ⟨hok, hs⟩ | ⟨_, he, -⟩⟩ := load_cases hr hload
    · obtain rfl := Except.ok.inj hok
      rcases Act.outcome_bind_cases h with ⟨u, w₂, hsave, h⟩ | ⟨e, hsave, -⟩
      · obtain ⟨rfl, rfl⟩ := Prod.mk.inj h
        exact .inl ⟨rfl, (save_of_load hs hsave).2⟩
      · cases (save_of_load hs hsave).1
    · cases he
  · exact .inr ⟨e, rfl, hload⟩

theorem held_of_added {path : String} {answer : Except Error Registered}
    (hr : held host.here home w.files = some ⟨ps⟩)
    (hread : Readable ((Event.added path answer).effect ps))
    (h : (add host home path).outcome w = (answer, w')) :
    held host.here home w'.files = some ⟨(Event.added path answer).effect ps⟩ := by
  rcases add_cases h with ⟨e, -, rfl, hw⟩ | ⟨new, w₁, -, hw, h⟩
  · rw [hw]
    exact hr
  · rw [← hw] at hr
    rcases enter_cases hr h with ⟨rfl, hs⟩ | ⟨e, rfl, hload⟩
    · exact held_of_stored hs hread
    · exact (load_cases hr hload).1

/-- What was added is the entry that the project file makes, and the registry is written with it. -/
theorem draft_of_added {path : String} {e : Registered}
    (hr : held host.here home w.files = some ⟨ps⟩)
    (h : (add host home path).outcome w = (.ok e, w')) :
    draft host w.files path = .ok e ∧
      home.stored host.here w'.files = some (.text (text (insert ⟨ps⟩ e))) := by
  rcases add_cases h with ⟨_, -, he, -⟩ | ⟨new, w₁, hdraft, hw, h⟩
  · cases he
  · rw [← hw] at hr
    rcases enter_cases hr h with ⟨hok, hs⟩ | ⟨_, he, -⟩
    · obtain rfl := Except.ok.inj hok
      exact ⟨hdraft, hs⟩
    · cases he

theorem held_of_removed {name : String} {answer : Except Error Unit}
    (hr : held host.here home w.files = some ⟨ps⟩)
    (hread : Readable ((Event.removed name answer).effect ps))
    (h : (remove host home name).outcome w = (answer, w')) :
    held host.here home w'.files = some ⟨(Event.removed name answer).effect ps⟩ ∧
      (Event.removed name answer).Tells ps := by
  rcases Act.outcome_bind_cases h with ⟨r, w₁, hload, h⟩ | ⟨e, hload, rfl⟩
  · obtain ⟨hheld, ⟨hok, hs⟩ | ⟨_, he, -⟩⟩ := load_cases hr hload
    · obtain rfl := Except.ok.inj hok
      dsimp only at h
      split at h
      · obtain ⟨rfl, rfl⟩ := Prod.mk.inj h
        exact ⟨hheld, trivial⟩
      · rename_i hfind
        obtain ⟨rfl, hs'⟩ := save_of_load hs h
        refine ⟨held_of_stored hs' hread, ?_⟩
        rw [Bool.not_eq_true, Option.isNone_eq_false_iff] at hfind
        obtain ⟨p, hp⟩ := Option.isSome_iff_exists.1 hfind
        exact ⟨p, List.mem_of_find?_eq_some hp, by simpa using List.find?_some hp⟩
    · cases he
  · exact ⟨(load_cases hr hload).1, trivial⟩

theorem held_of_listed {answer : Except Error (List Registered)}
    (hr : held host.here home w.files = some ⟨ps⟩)
    (h : (list host home).outcome w = (answer, w')) :
    held host.here home w'.files = some ⟨ps⟩ ∧ (Event.listed answer).Tells ps := by
  rcases Act.outcome_bind_cases h with ⟨r, w₁, hload, h⟩ | ⟨e, hload, rfl⟩
  · obtain ⟨hheld, ⟨hok, -⟩ | ⟨_, he, -⟩⟩ := load_cases hr hload
    · obtain ⟨rfl, rfl⟩ := Prod.mk.inj h
      obtain rfl := Except.ok.inj hok
      exact ⟨hheld, rfl⟩
    · cases he
  · exact ⟨(load_cases hr hload).1, trivial⟩

theorem held_of_resolved {ref : String} {answer : Except Error Resolved}
    (hr : held host.here home w.files = some ⟨ps⟩)
    (h : (resolve host home ref).outcome w = (answer, w')) :
    held host.here home w'.files = some ⟨ps⟩ := by
  rw [resolve, Act.outcome_files_bind] at h
  split at h
  · rcases (reads_loadFile host _).bind_cases h with ⟨_, -, -, hw⟩ | ⟨x, w₁, -, hw₁, h⟩
    · rw [hw]
      exact hr
    · have hw := (((Act.reads_ofExcept _).bind fun _ => Act.reads_pure _).outcome h).2
      rw [hw, hw₁]
      exact hr
  · rcases Act.outcome_bind_cases h with ⟨r, w₁, hload, h⟩ | ⟨e, hload, -⟩
    · have hheld := (load_cases hr hload).1
      split at h
      · obtain ⟨-, rfl⟩ := Prod.mk.inj h
        exact hheld
      · rename_i p _
        rcases (Config.reads_loadProject host p.file).mapError.bind_cases h with
          ⟨_, -, -, hw⟩ | ⟨x, w₂, -, hw₂, h⟩
        · rw [hw]
          exact hheld
        · have hw := (((Act.reads_ofExcept _).bind fun _ => Act.reads_pure _).outcome h).2
          rw [hw, hw₂]
          exact hheld
    · exact (load_cases hr hload).1

/-- What an event does to the registry that is held. -/
theorem held_of_happens {event : Event} (hr : held host.here home w.files = some ⟨ps⟩)
    (hread : Readable (event.effect ps)) (h : event.Happens host home w w') :
    held host.here home w'.files = some ⟨event.effect ps⟩ ∧ event.Tells ps := by
  cases event with
  | added path answer =>
    refine ⟨held_of_added hr hread h, ?_⟩
    cases answer <;> trivial
  | removed name answer => exact held_of_removed hr hread h
  | listed answer =>
    obtain ⟨hheld, htells⟩ := held_of_listed hr h
    cases answer <;> exact ⟨hheld, htells⟩
  | resolved ref answer => exact ⟨held_of_resolved hr h, trivial⟩

theorem wellFormed_of_happens {event : Event} (hh : Path.isAbsolute host.cwd = true)
    (hr : held host.here home w.files = some ⟨ps⟩) (h : event.Happens host home w w') :
    ∀ path e, event = .added path (.ok e) → e.WellFormed := by
  rintro path e rfl
  exact wellFormed_of_draft hh (draft_of_added hr h).1

/-- A project that was added is added again, with the same entry, as long as nobody has changed the
registry or the project file. -/
theorem added_again {path : String} {e : Registered} {w₁ w₂ : World}
    (hr : held host.here home w.files = some ⟨ps⟩)
    (hread : Readable ((Event.added path (.ok e)).effect ps))
    (h : (add host home path).outcome w = (.ok e, w₁))
    (hs : home.stored host.here w₂.files = home.stored host.here w₁.files)
    (hf : SameFile host path w.files w₂.files) :
    ∃ w₃, (add host home path).outcome w₂ = (.ok e, w₃) ∧
      held host.here home w₃.files = held host.here home w₁.files := by
  have hr₁ := held_of_added hr hread h
  have hr₂ : held host.here home w₂.files = some ⟨(Event.added path (.ok e)).effect ps⟩ := by
    rw [held, hs]
    exact hr₁
  obtain ⟨hdraft, hs₁⟩ := draft_of_added hr h
  rcases h₂ : (add host home path).outcome w₂ with ⟨answer, w₃⟩
  rcases add_cases h₂ with ⟨_, herr, -, -⟩ | ⟨new', w₄, hdraft', hw₄, henter⟩
  · rw [draft_congr hf, hdraft] at herr
    cases herr
  · rw [draft_congr hf, hdraft] at hdraft'
    obtain rfl := Except.ok.inj hdraft'
    have hr₄ := hr₂
    rw [← hw₄] at hr₄
    rcases enter_cases hr₄ henter with ⟨rfl, -⟩ | ⟨_, -, hload⟩
    · have hread₂ := hread
      rw [← effect_added_again path path e] at hread₂
      refine ⟨w₃, rfl, ?_⟩
      rw [held_of_added hr₂ hread₂ h₂, hr₁, effect_added_again]
    · obtain ⟨-, ⟨hok, -⟩ | ⟨_, -, hnone, -⟩⟩ := load_cases hr₄ hload
      · cases hok
      · rw [hw₄, hs, hs₁] at hnone
        cases hnone

/-- What could not be added cannot be added when nothing has changed since. -/
theorem added_error_again {path : String} {why : Error} {w₁ w₂ : World}
    (hr : held host.here home w.files = some ⟨ps⟩)
    (h : (add host home path).outcome w = (.error why, w₁)) (hw : w₂.files = w₁.files) :
    ∃ why' w₃, (add host home path).outcome w₂ = (.error why', w₃) := by
  rcases h₂ : (add host home path).outcome w₂ with ⟨why' | e, w₃⟩
  · exact ⟨why', w₃, rfl⟩
  rcases add_cases h₂ with ⟨_, -, he, -⟩ | ⟨new', w₄, hdraft', hw₄, henter⟩
  · cases he
  rcases add_cases h with ⟨_, hdraft, -, hw₁⟩ | ⟨new, w₀, -, hw₀, h⟩
  · rw [hw, hw₁, hdraft] at hdraft'
    cases hdraft'
  · rw [← hw₀] at hr
    rcases enter_cases hr h with ⟨hok, -⟩ | ⟨_, -, hload⟩
    · cases hok
    · obtain ⟨_, w₅, hagain⟩ := load_error_again hr hload (hw₄.trans hw)
      rw [enter, Act.outcome_bind, hagain] at henter
      cases (Prod.mk.inj henter).1

end Step

end ProjectScript.Registry
