import ProjectScript.Proofs.Registry.Step

/-!
# Histories of the registry

A `History` is a run of operations of the registry, in any order and on any hosts. Between them
others may change all files but that of the registry. A history that starts without a registry
takes the empty list of entries to what its events make of it (`replay`), one after the other
(`held_of_history`), and the entries are sound at all times (`sound_of_history`): the registry is
a map from names to entries, in the order in which they were added last. Adding a project once
more, wherever a history has led, leaves the entries as they are (`addsOnce`).
-/

namespace ProjectScript.Registry

/-- The entries after some events, from none on. -/
def replay (events : List Event) : List Registered := events.foldl Event.effect []

theorem replay_concat (events : List Event) (event : Event) :
    replay (events ++ [event]) = event.effect (replay events) := by
  rw [replay, List.foldl_append]
  rfl

/-- An operation may come next on a host and in a world: the home is the one of the history, the
directory of the host is absolute, and since then nobody else has written the registry. -/
structure Follows (home : Home) (here : Location) (fs : FileSystem) (host : Host) (w : World) :
    Prop where
  sameFrom : home.SameFrom here host.here
  absolute : Path.isAbsolute host.cwd = true
  stored : home.stored here w.files = home.stored here fs

/-- The runs of operations that start with some files, with the files that they end with. -/
inductive History (home : Home) (here : Location) (start : FileSystem) :
    List Event → FileSystem → Prop
  | nil : History home here start [] start
  | step {events : List Event} {fs : FileSystem} {host : Host} {w w' : World} {event : Event} :
    History home here start events fs → Follows home here fs host w →
      event.Happens host home w w' → History home here start (events ++ [event]) w'.files

/-- Adding a project once more leaves the entries as they are. -/
structure AddsOnce (home : Home) (here : Location) (fs : FileSystem) (ps : List Registered) :
    Prop where
  /-- What was added is added again with the same entry, when others have changed neither the
  registry nor the project file. -/
  added {host : Host} {path : String} {e : Registered} {w w₁ w₂ : World} :
    Follows home here fs host w → (Event.added path (.ok e)).Happens host home w w₁ →
      Readable ((Event.added path (.ok e)).effect ps) →
      Follows home here w₁.files host w₂ → SameFile host path w.files w₂.files →
      ∃ w₃, (Event.added path (.ok e)).Happens host home w₂ w₃ ∧
        held here home w₃.files = held here home w₁.files
  /-- What could not be added cannot be added when nothing has changed. -/
  failed {host : Host} {path : String} {why : Error} {w w₁ w₂ : World} :
    Follows home here fs host w → (Event.added path (.error why)).Happens host home w w₁ →
      w₂.files = w₁.files →
      ∃ why' w₃, (Event.added path (.error why')).Happens host home w₂ w₃ ∧
        held here home w₃.files = held here home w₁.files

section

variable {home : Home} {here : Location} {start fs : FileSystem} {events : List Event}
  {host : Host} {w w' : World} {ps : List Registered}

theorem Follows.held (h : Follows home here fs host w) :
    Registry.held host.here home w.files = Registry.held here home fs := by
  rw [held_of_sameFrom h.sameFrom, Registry.held, Registry.held, h.stored]

/-- One event of a history. -/
theorem held_of_follows {event : Event} (hf : Follows home here fs host w)
    (h : event.Happens host home w w') (hr : held here home fs = some ⟨ps⟩)
    (hread : Readable (event.effect ps)) :
    held here home w'.files = some ⟨event.effect ps⟩ ∧ event.Tells ps := by
  rw [← hf.held] at hr
  obtain ⟨hheld, htells⟩ := held_of_happens hr hread h
  rw [held_of_sameFrom hf.sameFrom] at hheld
  exact ⟨hheld, htells⟩

/-- What the file of the registry holds after a history. By induction on the history, one event at
a time. -/
theorem held_of_history (hstart : home.stored here start = none)
    (h : History home here start events fs)
    (hread : ∀ es, es <+: events → Readable (replay es)) :
    held here home fs = some ⟨replay events⟩ ∧
      ∀ es event, es ++ [event] <+: events → event.Tells (replay es) := by
  induction h with
  | nil =>
    refine ⟨held_of_stored_eq_none hstart, fun es event hp => ?_⟩
    have hnil := List.prefix_nil.1 hp
    simp at hnil
  | @step events fs host w w' event _ hf hh ih =>
    obtain ⟨hheld, htells⟩ := ih fun es hp => hread es (hp.trans (List.prefix_append _ _))
    have hlast := hread _ List.prefix_rfl
    rw [replay_concat] at hlast
    obtain ⟨hheld', htells'⟩ := held_of_follows hf hh hheld hlast
    rw [replay_concat]
    refine ⟨hheld', fun es event' hp => ?_⟩
    rcases List.prefix_concat_iff.1 hp with heq | hp
    · obtain ⟨rfl, he⟩ := List.append_inj' heq rfl
      obtain rfl := List.singleton_inj.1 he
      exact htells'
    · exact htells es event' hp

/-- The entries are sound at all times. -/
theorem sound_of_history (hstart : home.stored here start = none)
    (h : History home here start events fs)
    (hread : ∀ es, es <+: events → Readable (replay es)) :
    ∀ es, es <+: events → Sound (replay es) := by
  induction h with
  | nil =>
    intro es hp
    rw [List.prefix_nil.1 hp]
    exact ⟨List.Pairwise.nil, fun e he => by cases he⟩
  | @step events fs host w w' event hist hf hh ih =>
    have hpre : ∀ es, es <+: events → Readable (replay es) :=
      fun es hp => hread es (hp.trans (List.prefix_append _ _))
    have hsound := ih hpre
    have hheld := (held_of_history hstart hist hpre).1
    rw [← hf.held] at hheld
    intro es hp
    rcases List.prefix_concat_iff.1 hp with rfl | hp
    · rw [replay_concat]
      exact sound_effect (hsound _ List.prefix_rfl) (wellFormed_of_happens hf.absolute hheld hh)
    · exact hsound es hp

/-- Adding once more, wherever the registry holds some entries. -/
theorem addsOnce (hr : held here home fs = some ⟨ps⟩) (hread : Readable ps) :
    AddsOnce home here fs ps where
  added {host path e w w₁ w₂} hf hh hre hf₂ hs := by
    have hheld := hr
    rw [← hf.held] at hheld
    have hstored : home.stored host.here w₂.files = home.stored host.here w₁.files := by
      rw [hf₂.sameFrom.stored, hf₂.sameFrom.stored, hf₂.stored]
    obtain ⟨w₃, hh₃, hsame⟩ := added_again hheld hre hh hstored hs
    rw [held_of_sameFrom hf.sameFrom, held_of_sameFrom hf.sameFrom] at hsame
    exact ⟨w₃, hh₃, hsame⟩
  failed {host path why w w₁ w₂} hf hh hw := by
    have hheld := hr
    rw [← hf.held] at hheld
    have hsame : ∀ why', Readable ((Event.added path (.error why')).effect ps) := fun _ => hread
    have hheld₁ := held_of_added hheld (hsame why) hh
    obtain ⟨why', w₃, hh₃⟩ := added_error_again hheld hh hw
    have hheld₂ := hheld₁
    rw [← hw] at hheld₂
    have hheld₃ := held_of_added hheld₂ (hsame why') hh₃
    refine ⟨why', w₃, hh₃, ?_⟩
    rw [← held_of_sameFrom hf.sameFrom, ← held_of_sameFrom hf.sameFrom, hheld₁]
    exact hheld₃

/-- **The registry is a map in the order of adding.** After every history that starts without a
registry, its file holds what the events make of the empty list, if the texts written on the way
are read back as what they were written for. At all times the names are distinct, no name is
blank and all paths are absolute; an event leaves what is found under other names; and adding a
project once more is as adding it once. -/
theorem ordered_map_of_history (hstart : home.stored here start = none)
    (h : History home here start events fs)
    (hread : ∀ es, es <+: events → Readable (replay es)) :
    held here home fs = some ⟨replay events⟩ ∧
      (∀ es, es <+: events → Sound (replay es)) ∧
      (∀ es event, es ++ [event] <+: events →
        event.Tells (replay es) ∧ ∀ m, event.name? ≠ some m →
          find? ⟨replay (es ++ [event])⟩ m = find? ⟨replay es⟩ m) ∧
      AddsOnce home here fs (replay events) := by
  obtain ⟨hheld, htells⟩ := held_of_history hstart h hread
  refine ⟨hheld, sound_of_history hstart h hread, fun es event hp => ?_,
    addsOnce hheld (hread _ List.prefix_rfl)⟩
  refine ⟨htells es event hp, fun m hm => ?_⟩
  rw [replay_concat]
  exact find?_effect hm

end

/-! ## A history -/

namespace Sample

/-- A host without variables and programs. -/
def host : Host := ⟨fun _ => none, "/", fun _ _ _ _ => .notLaunched .notFound⟩

/-- A home that is not there yet. -/
def home : Home := ⟨"/pm"⟩

/-- There is a project file and nothing else. -/
def start : World :=
  ⟨FileSystem.empty.set ["a.yml".toList]
    (some (.file (.text "info:\n  name: a\n  root: src\n") false)), [], ""⟩

/-- The entry of the project. -/
def project : Registered := ⟨"a", "/a.yml", "/src"⟩

/-- The project is added, and the registry is listed. -/
def events : List Event := [.added "a.yml" (.ok project), .listed (.ok [project])]

def added : World := ((add host home "a.yml").outcome start).2

def listed : World := ((list host home).outcome added).2

theorem follows (w : World) : Follows home [] w.files host w :=
  ⟨.inl (by decide +kernel), by decide +kernel, rfl⟩

theorem history : History home [] start.files events listed.files := by
  have ha : (Event.added "a.yml" (.ok project)).Happens host home start added :=
    Prod.ext (eq_ok (by decide +kernel)) rfl
  have hl : (Event.listed (.ok [project])).Happens host home added listed :=
    Prod.ext (eq_ok (by decide +kernel)) rfl
  exact (History.nil.step (follows _) ha).step (follows _) hl

theorem readable (es : List Event) (h : es <+: events) : Readable (replay es) := by
  simp only [events, List.prefix_cons_iff, List.prefix_nil] at h
  rcases h with rfl | ⟨_, rfl, rfl | ⟨_, rfl, rfl⟩⟩ <;> decide +kernel

theorem ordered_map_of_sample :
    home.stored [] start.files = none ∧ History home [] start.files events listed.files ∧
      (∀ es, es <+: events → Readable (replay es)) ∧
      held [] home listed.files = some ⟨[project]⟩ := by
  have hstart : home.stored [] start.files = none := by decide +kernel
  have hheld := (ordered_map_of_history hstart history readable).1
  exact ⟨hstart, history, readable, hheld⟩

end Sample

end ProjectScript.Registry
