import ProjectScript.Proofs.Session.Output

/-!
# Scripts are written as a whole

A session that fails has written nothing (`writesLast_dispatch`), whatever an external renderer did
before: how it ended, and what it had put out until then. A session that writes a script succeeds
exactly if the project is found, the global file is read and the plan is rendered, and then it has
written the script of this plan and nothing else (`outcome_generate_iff`). A renderer's script is
all of its output, and it counts only if the renderer ended well, for which it need not have read
the whole plan (`Run.Yields`, `render_eq_ok_iff`).
-/

namespace ProjectScript

open Act

/-- A program ends with the code zero and has put out a script and nothing else. It may have ended
before it read all of its input, but nothing else stood in the way of the input. -/
def Run.Yields (run : Run) (script : String) : Prop :=
  run = .ended (some 0) (.text script) none ∨
    run = .ended (some 0) (.text script) (some .brokenPipe)

namespace Renderer

theorem ofEnd_eq_ok_iff {dialect script : String} {code : Option Nat} {output : Content} :
    ofEnd dialect code output = .ok script ↔ code = some 0 ∧ output = .text script := by
  constructor
  · intro h
    rw [ofEnd.eq_def] at h
    split at h
    case h_1 => exact ⟨rfl, congrArg _ (Except.ok.inj h)⟩
    all_goals cases h
  · rintro ⟨rfl, rfl⟩
    rfl

theorem ofRun_eq_ok_iff {dialect program script : String} {run : Run} :
    ofRun dialect program run = .ok script ↔ run.Yields script := by
  constructor
  · intro h
    rw [ofRun.eq_def] at h
    split at h
    case h_3 =>
      obtain ⟨rfl, rfl⟩ := ofEnd_eq_ok_iff.1 h
      exact .inl rfl
    case h_4 =>
      obtain ⟨rfl, rfl⟩ := ofEnd_eq_ok_iff.1 h
      exact .inr rfl
    all_goals cases h
  · rintro (rfl | rfl) <;> rfl

theorem external_eq_ok_iff {host : Host} {fs : FileSystem} {p : Plan}
    {dialect plugins script : String} :
    external host fs p dialect plugins = .ok script ↔
      ∃ program, find? fs host.here (Path.expandLenient host.env plugins) dialect = some program ∧
        (host.run fs program arguments (Plan.Document.ofPlan p).text).Yields script := by
  unfold external
  dsimp only
  split
  next hfound => simp only [hfound, reduceCtorEq, false_and, exists_false]
  next hfound => simp only [hfound, ofRun_eq_ok_iff, Option.some.injEq, exists_eq_left']

/-- A plan has the script of a built-in dialect, or, if the dialect is not built in, the one that
its external renderer puts out, if this one is there. -/
theorem render_eq_ok_iff {host : Host} {fs : FileSystem} {p : Plan}
    {dialect plugins script : String} :
    render host fs p dialect plugins = .ok script ↔
      (∃ d, Dialect.ofName? dialect = some d ∧ d.script p = script) ∨
        (Dialect.ofName? dialect = none ∧ ∃ program,
          find? fs host.here (Path.expandLenient host.env plugins) dialect = some program ∧
            (host.run fs program arguments (Plan.Document.ofPlan p).text).Yields script) := by
  simp only [render]
  cases Dialect.ofName? dialect with
  | some d =>
    simp only [Except.ok.injEq, Option.some.injEq, exists_eq_left', reduceCtorEq, false_and,
      or_false]
  | none =>
    simp only [external_eq_ok_iff, reduceCtorEq, false_and, exists_false, true_and, false_or]

end Renderer

namespace Session

section

variable {host : Host} {s : Session} {ref : String} {words rest : List String} {w w' : World}

/-- From one world to another the script of a project is written: the project is resolved, the
global file is loaded, and the plan of the words is rendered with the files at hand then. The
output gains the script and nothing else. -/
def Writes (host : Host) (s : Session) (ref : String) (words : List String) (w w' : World) : Prop :=
  ∃ r g script w₁ w₂,
    (Registry.resolve host s.home ref).outcome w = (.ok r, w₁) ∧
      (Config.loadGlobals host s.home.globalFile).outcome w₁ = (.ok g, w₂) ∧
        Renderer.render host w₂.files (planOf host r g words).plan s.dialect s.plugins =
          .ok script ∧
          w' = { w₂ with
            notices := w₂.notices ++ ((planOf host r g words).notices ++
              (planOf host r g words).misses.map (missNotice r.project))
            output := w.output ++ script }

theorem outcome_generate_iff :
    (s.generate host ref words).outcome w = (.ok (), w') ↔ s.Writes host ref words w w' := by
  simp only [generate, outcome_bind_eq_ok_iff, outcome_mapError_eq_ok_iff,
    outcome_ofExcept_eq_ok_iff, outcome_notify_eq_ok_iff, outcome_files_eq_ok_iff,
    outcome_emit_eq_ok_iff, mapError_eq_ok_iff, and_assoc, exists_and_left, exists_eq_left,
    exists_const]
  have silent : ∀ {r g w₁ w₂}, (Registry.resolve host s.home ref).outcome w = (.ok r, w₁) →
      (Config.loadGlobals host s.home.globalFile).outcome w₁ = (.ok g, w₂) →
        w₂.output = w.output := fun hr hg =>
    ((Config.silent_loadGlobals host _).output hg).trans
      ((Registry.silent_resolve host s.home ref).output hr)
  constructor
  · rintro ⟨r, w₁, hr, g, w₂, hg, script, hscript, rfl⟩
    exact ⟨r, g, script, w₁, w₂, hr, hg, hscript, by rw [silent hr hg]⟩
  · rintro ⟨r, g, script, w₁, w₂, hr, hg, hscript, rfl⟩
    exact ⟨r, w₁, hr, g, w₂, hg, script, hscript, by rw [silent hr hg]⟩

/-- **A session writes all or nothing.** If it fails, nothing is written, and if the first word
names a project, the session succeeds exactly if the script of the project's plan is to be had, and
then it writes this script. -/
theorem script_all_or_nothing (host : Host) (s : Session) (words : List String) (w : World) :
    (∀ e w', (s.dispatch host words).outcome w = (.error e, w') → w'.output = w.output) ∧
      ∀ ref rest w', words = ref :: rest → ref ∉ commands →
        ((s.dispatch host words).outcome w = (.ok (), w') ↔ s.Writes host ref rest w w') := by
  refine ⟨fun e w' h => writesLast_dispatch host s words w w' e h, ?_⟩
  rintro ref rest w' rfl href
  rw [dispatch_of_not_mem host s href]
  exact outcome_generate_iff

end

namespace Sample

/-- The renderer of one dialect writes a script, and others fail after they have put out a part. -/
def host : Host where
  env := fun _ => none
  cwd := "/"
  run := fun _ program _ _ =>
    if program = "/plugins/pm-render-fish" then .ended (some 0) (.text "echo hi\n") none
    else .ended (some 4) (.text "echo") none

def session (dialect : String) : Session := ⟨⟨"/pm"⟩, dialect, "/plugins"⟩

/-- There are a project file and two renderers, and something has been written before. -/
def world : World where
  files := (((FileSystem.empty.set ["a.yml".toList]
    (some (.file (.text "info:\n  name: a\n  root: src\n") false))).set
    ["plugins".toList] (some .directory)).set
    ["plugins".toList, "pm-render-fish".toList] (some (.file (.text "") false))).set
    ["plugins".toList, "pm-render-cmd".toList] (some (.file (.text "") false))
  notices := []
  output := "# before\n"

/-- The world after the script of the project has been asked for in a dialect. -/
def after (dialect : String) : World :=
  (((session dialect).dispatch host ["/a.yml", "echo", "hi"]).outcome world).2

theorem script_of_sample :
    ((session "cmd").dispatch host ["/a.yml", "echo", "hi"]).outcome world =
        (.error (.render "cmd" (.failed "cmd" (some 4))), after "cmd") ∧
      (after "cmd").output = "# before\n" ∧
      "/a.yml" ∉ commands ∧
      ((session "fish").dispatch host ["/a.yml", "echo", "hi"]).outcome world = (.ok (), after "fish") ∧
      (session "fish").Writes host "/a.yml" ["echo", "hi"] world (after "fish") ∧
      (after "fish").output = "# before\necho hi\n" := by
  have hcmd : ((session "cmd").dispatch host ["/a.yml", "echo", "hi"]).outcome world =
      (.error (.render "cmd" (.failed "cmd" (some 4))), after "cmd") :=
    Prod.ext (eq_error (by decide +kernel)) rfl
  have hfish : ((session "fish").dispatch host ["/a.yml", "echo", "hi"]).outcome world =
      (.ok (), after "fish") := Prod.ext (eq_ok (by decide +kernel)) rfl
  have href : "/a.yml" ∉ commands := by decide
  refine ⟨hcmd, (script_all_or_nothing host _ _ world).1 _ _ hcmd, href, hfish, ?_,
    by decide +kernel⟩
  exact ((script_all_or_nothing host _ _ world).2 _ _ _ rfl href).1 hfish

end Sample

end Session

end ProjectScript
