import ProjectScript.Proofs.Outcome
import ProjectScript.Session

/-!
# What is written to the output

Most actions write nothing, also when they fail (`Silent`): those that read and write files, all
operations of the registry, and the loading of configuration files. An action that writes at the
very end, after silent ones, writes all or nothing: if it fails, nothing has been written
(`WritesLast`, with `Silent.bind_writesLast`). Everything that a session does is of this kind
(`writesLast_dispatch`).
-/

namespace ProjectScript

namespace Act

variable {ε δ α β : Type}

/-- The action writes nothing to the output. -/
def Silent (a : Act ε α) : Prop := ∀ w, (a.outcome w).2.output = w.output

/-- If the action fails it has written nothing to the output. -/
def WritesLast (a : Act ε α) : Prop :=
  ∀ w w' e, a.outcome w = (.error e, w') → w'.output = w.output

/-! ## Silent actions -/

theorem silent_pure (x : α) : (pure x : Act ε α).Silent := fun _ => rfl

theorem silent_throw (e : ε) : (throw e : Act ε α).Silent := fun _ => rfl

theorem silent_files : (files : Act ε FileSystem).Silent := fun _ => rfl

theorem silent_setFiles (fs : FileSystem) : (setFiles fs : Act ε Unit).Silent := fun _ => rfl

theorem silent_notify (ns : List String) : (notify ns : Act ε Unit).Silent := fun _ => rfl

theorem silent_ofExcept (x : Except ε α) : (ofExcept x).Silent := fun _ => rfl

theorem Silent.mapError {f : δ → ε} {a : Act δ α} (h : a.Silent) : (mapError f a).Silent := h

theorem Silent.output {a : Act ε α} (h : a.Silent) {w w' : World} {answer : Except ε α}
    (ho : a.outcome w = (answer, w')) : w'.output = w.output := by
  rw [← h w, ho]

theorem Silent.bind {a : Act ε α} {f : α → Act ε β} (ha : a.Silent) (hf : ∀ x, (f x).Silent) :
    (a >>= f).Silent := by
  intro w
  rcases ho : (a >>= f).outcome w with ⟨answer, w'⟩
  rcases outcome_bind_cases ho with ⟨x, w₁, hx, h⟩ | ⟨e, he, -⟩
  · exact ((hf x).output h).trans (ha.output hx)
  · exact ha.output he

/-- A check before an action. -/
theorem Silent.check {c : Prop} [Decidable c] {e : ε} {k : PUnit → Act ε α}
    (h : (k ⟨⟩).Silent) : (if c then throw e >>= k else k ⟨⟩).Silent := by
  split
  · exact (silent_throw e).bind fun _ => h
  · exact h

/-! ## Actions that write at the end -/

theorem writesLast_emit (s : String) : (emit s : Act ε Unit).WritesLast := by
  intro w w' e h
  cases (Prod.mk.inj h).1

theorem Silent.bind_writesLast {a : Act ε α} {f : α → Act ε β} (ha : a.Silent)
    (hf : ∀ x, (f x).WritesLast) : (a >>= f).WritesLast := by
  intro w w' e h
  rcases outcome_bind_cases h with ⟨x, w₁, hx, h⟩ | ⟨e', he, -⟩
  · exact (hf x w₁ w' e h).trans (ha.output hx)
  · exact ha.output he

end Act

open Act

/-! ## What the operations write -/

section

variable (host : Host) (home : Home)

theorem Home.silent_ensure : (home.ensure host).Silent := by
  refine silent_files.bind fun fs => ?_
  split
  · exact silent_pure ()
  · refine (silent_setFiles _).bind fun _ => ?_
    split
    · exact silent_pure ()
    · exact silent_throw _

theorem Config.silent_ofNoted {α : Type} (n : Config.Noted α) : (Config.ofNoted n).Silent :=
  (silent_notify _).bind fun _ => silent_ofExcept _

theorem Config.silent_loadProject (path : String) : (Config.loadProject host path).Silent := by
  refine silent_files.bind fun fs => ?_
  split
  · exact silent_throw _
  · exact Config.silent_ofNoted _

theorem Config.silent_loadGlobals (path : String) : (Config.loadGlobals host path).Silent := by
  refine silent_files.bind fun fs => ?_
  split
  · exact silent_pure _
  · exact silent_throw _
  · exact Config.silent_ofNoted _

namespace Registry

theorem silent_save (r : Registry) : (save host home r).Silent := by
  refine (home.silent_ensure host).mapError.bind fun _ => silent_files.bind fun fs => ?_
  split
  · exact silent_throw _
  · exact silent_setFiles _

theorem silent_load : (load host home).Silent := by
  refine silent_files.bind fun fs => ?_
  split
  · split
    · exact silent_pure _
    · exact silent_throw _
  · exact (silent_save host home empty).bind fun _ => silent_pure _
  · exact silent_throw _

theorem silent_loadFile (path : String) : (loadFile host path).Silent :=
  (silent_ofExcept _).bind fun file =>
    (Config.silent_loadProject host file).mapError.bind fun _ => silent_pure _

theorem silent_add (path : String) : (add host home path).Silent := by
  refine (silent_ofExcept _).bind fun path => silent_files.bind fun fs => Silent.check ?_
  refine (silent_loadFile host path).bind fun (file, project) => Silent.check ?_
  exact (silent_ofExcept _).bind fun root => (silent_load host home).bind fun r =>
    (silent_save host home _).bind fun _ => silent_pure _

theorem silent_remove (name : String) : (remove host home name).Silent :=
  (silent_load host home).bind fun _ => Silent.check (silent_save host home _)

theorem silent_list : (list host home).Silent :=
  (silent_load host home).bind fun _ => silent_pure _

theorem silent_resolve (ref : String) : (resolve host home ref).Silent := by
  refine silent_files.bind fun fs => ?_
  split
  · exact (silent_loadFile host _).bind fun _ => (silent_ofExcept _).bind fun _ => silent_pure _
  · refine (silent_load host home).bind fun r => ?_
    split
    · exact silent_throw _
    · exact (Config.silent_loadProject host _).mapError.bind fun _ =>
        (silent_ofExcept _).bind fun _ => silent_pure _

end Registry

end

namespace Session

/-! ## What a session that fails has written -/

theorem writesLast_add (host : Host) (s : Session) (words : List String) :
    (s.add host words).WritesLast :=
  (silent_ofExcept _).bind_writesLast fun file =>
    (Registry.silent_add host s.home file).mapError.bind_writesLast fun _ => writesLast_emit _

theorem writesLast_remove (host : Host) (s : Session) (words : List String) :
    (s.remove host words).WritesLast :=
  (silent_ofExcept _).bind_writesLast fun name =>
    (Registry.silent_remove host s.home name).mapError.bind_writesLast fun _ => writesLast_emit _

theorem writesLast_list (host : Host) (s : Session) : (s.list host).WritesLast :=
  (Registry.silent_list host s.home).mapError.bind_writesLast fun _ => writesLast_emit _

theorem writesLast_generate (host : Host) (s : Session) (ref : String) (words : List String) :
    (s.generate host ref words).WritesLast :=
  (Registry.silent_resolve host s.home ref).mapError.bind_writesLast fun _ =>
    (Config.silent_loadGlobals host _).mapError.bind_writesLast fun _ =>
      (silent_notify _).bind_writesLast fun _ => silent_files.bind_writesLast fun _ =>
        (silent_ofExcept _).bind_writesLast fun _ => writesLast_emit _

theorem writesLast_dispatch (host : Host) (s : Session) (words : List String) :
    (s.dispatch host words).WritesLast := by
  cases words with
  | nil => exact writesLast_emit usage
  | cons word rest =>
    rw [dispatch]
    split
    · exact writesLast_add host s rest
    split
    · exact writesLast_remove host s rest
    split
    · exact writesLast_list host s
    · exact writesLast_generate host s word rest

/-! ## Commands and projects -/

/-- The words that name a command. -/
def commands : List String := ["add", "rm", "remove", "ls", "list"]

/-- A first word that is no command names a project. -/
theorem dispatch_of_not_mem (host : Host) (s : Session) {word : String} (h : word ∉ commands)
    (rest : List String) : s.dispatch host (word :: rest) = s.generate host word rest := by
  simp only [commands, List.mem_cons, List.not_mem_nil, or_false, not_or] at h
  obtain ⟨hadd, hrm, hremove, hls, hlist⟩ := h
  rw [dispatch, if_neg hadd, if_neg (not_or.2 ⟨hrm, hremove⟩), if_neg (not_or.2 ⟨hls, hlist⟩)]

end Session

end ProjectScript
