import Mathlib.Control.Monad.Basic
import ProjectScript.Proofs.Registry.Resolution
import ProjectScript.Proofs.Session.Report
import ProjectScript.Proofs.Session.Script

/-!
# Projects are addressed by their names

A project that a session registers is addressed by its name afterwards (`registered_addressable`):
with the name as the first word the session writes the script of the project
(`outcome_dispatch_of_resolved`), and with `rm` and the name it takes the project out of the
registry (`outcome_remove_of_stored`).

Nothing keeps a project from having a name that means something else on the command line. The name
of a command is taken as the command wherever it is the first word, and a name that begins with a
dash is no operand of `rm` unless the options are ended before it (`operand_singleton_iff`,
`operand_endOfOptions`).
-/

namespace ProjectScript

/-- What a global file says for all projects. -/
def Config.globalsIn (host : Host) (fs : FileSystem) (path : String) :
    Except Config.Error Globals :=
  match fs.read host.here path with
  | .error .notFound => .ok {}
  | .error why => .error (.unreadable path why)
  | .ok text => (parseGlobals path text).1

theorem Config.reads_loadGlobals (host : Host) (path : String) :
    (loadGlobals host path).Reads fun fs => globalsIn host fs path := by
  intro w
  rw [loadGlobals, Act.outcome_bind, Act.outcome_files]
  dsimp only [globalsIn]
  cases w.files.read host.here path with
  | ok text => exact ⟨rfl, rfl⟩
  | error why => cases why <;> exact ⟨rfl, rfl⟩

namespace CommandLine

/-- The word is an operand where options are looked for: it does not begin with a dash, or it is
one. -/
def IsOperand (word : String) : Prop := word.toList.head? = some '-' → word = "-"

instance (word : String) : Decidable (IsOperand word) :=
  inferInstanceAs (Decidable (_ → _))

theorem isOperand_iff {word : String} :
    IsOperand word ↔ ∀ c cs, word.toList ≠ '-' :: c :: cs := by
  have hdash : "-".toList = ['-'] := by decide +kernel
  constructor
  · intro h c cs hword
    have heq := h (by rw [hword, List.head?_cons])
    rw [heq, hdash] at hword
    cases hword
  · intro h hhead
    obtain ⟨rest, hrest⟩ := List.head?_eq_some_iff.1 hhead
    apply String.toList_inj.1
    cases rest with
    | nil => rw [hrest, hdash]
    | cons c cs => exact (h c cs hrest).elim

theorem operand_singleton_iff {word name : String} :
    operand [word] = .ok name ↔ IsOperand word ∧ name = word := by
  rw [isOperand_iff, operand, operandFrom]
  split
  case h_1 hword =>
    exact iff_of_false nofun fun h => h.1 _ _ hword
  case h_2 _ hword =>
    refine iff_of_false ?_ fun h => h.1 _ _ hword
    split <;> exact nofun
  case h_3 hword =>
    exact iff_of_false nofun fun h => h.1 _ _ hword
  case h_4 hword =>
    exact iff_of_false nofun fun h => h.1 _ _ hword
  case h_5 hword =>
    rw [and_iff_right hword]
    exact ⟨fun h => (Except.ok.inj h).symm, fun h => congrArg _ h.symm⟩

theorem operand_endOfOptions (name : String) : operand ["--", name] = .ok name := by
  have hdashes : "--".toList = ['-', '-'] := by decide +kernel
  rw [operand, operandFrom, hdashes]
  rfl

end CommandLine

namespace Registry

variable {host : Host} {home : Home} {w : World} {r : Registry} {name : String}

theorem erase_insert (r : Registry) (e : Registered) :
    (insert r e).erase e.name = r.erase e.name := by
  unfold insert erase
  simp [List.filter_append]

/-- A project that is found is taken out of the registry. -/
theorem outcome_remove_of_stored (hs : home.stored host.here w.files = some (.text (text r)))
    (hr : (r.find? name).isSome = true) :
    ∃ w', (remove host home name).outcome w = (.ok (), w') ∧
      held host.here home w'.files = some (r.erase name) := by
  have hsome : (home.stored host.here w.files).isSome := by
    rw [hs]
    rfl
  rcases hsave : (save host home (r.erase name)).outcome w with ⟨answer, w'⟩
  obtain ⟨rfl, hs'⟩ := save_of_load hsome hsave
  refine ⟨w', ?_, held_of_stored hs' (parse_text _)⟩
  rw [remove, Act.outcome_bind, outcome_load_of_parse hs (parse_text r)]
  dsimp only
  rw [if_neg (by rw [Option.isNone_eq_false_iff.2 hr]; exact Bool.false_ne_true), hsave]

end Registry

namespace Session

section

variable {host : Host} {s : Session} {ref file : String} {words : List String} {w w₁ : World}

/-- The session has registered the project of a file, with an entry. -/
theorem added_of_dispatch (h : (s.dispatch host ["add", file]).outcome w = (.ok (), w₁)) :
    ∃ e w₀, (Registry.add host s.home file).outcome w = (.ok e, w₀) ∧ w₁.files = w₀.files := by
  obtain ⟨file', hf, e, w₀, hadd, rfl⟩ := outcome_add_iff.1 h
  obtain ⟨-, rfl⟩ := CommandLine.operand_singleton_iff.1 hf
  exact ⟨e, w₀, hadd, rfl⟩

/-- A session writes the script of a project that is found, in a dialect that is built in. -/
theorem outcome_dispatch_of_resolved {r : Registry.Resolved} {g : Globals} {d : Dialect}
    (href : ref ∉ commands) (hr : (Registry.resolve host s.home ref).outcome w = (.ok r, w₁))
    (hw : w₁.files = w.files) (hg : Config.globalsIn host w.files s.home.globalFile = .ok g)
    (hd : Dialect.ofName? s.dialect = some d) (words : List String) :
    ∃ w', (s.dispatch host (ref :: words)).outcome w = (.ok (), w') ∧ w'.files = w.files ∧
      w'.output = w.output ++ d.script (planOf host r g words).plan := by
  rw [← hw] at hg
  have hloads := Config.reads_loadGlobals host s.home.globalFile
  have hload : (Config.loadGlobals host s.home.globalFile).outcome w₁ = (.ok g, _) :=
    Prod.ext ((hloads w₁).1.trans hg) rfl
  have hscript : ∀ fs p, Renderer.render host fs p s.dialect s.plugins = .ok (d.script p) :=
    fun _ _ => Renderer.render_eq_ok_iff.2 (.inl ⟨d, hd, rfl⟩)
  have hrun : (s.generate host ref words).outcome w = (.ok (), _) :=
    outcome_generate_iff.2 ⟨r, g, _, w₁, _, hr, hload, hscript _ _, rfl⟩
  rw [← dispatch_of_not_mem host s href] at hrun
  exact ⟨_, hrun, (hloads w₁).2.trans hw, rfl⟩

/-- A session takes a project that is found out of the registry. -/
theorem outcome_dispatch_remove {r : Registry} {name : String}
    (hwords : CommandLine.operand words = .ok name)
    (hs : s.home.stored host.here w.files = some (.text r.text))
    (hr : (r.find? name).isSome = true) :
    ∃ w', (s.dispatch host ("rm" :: words)).outcome w = (.ok (), w') ∧
      Registry.held host.here s.home w'.files = some (r.erase name) ∧
      w'.output = w.output ++ (Report.removed name).text := by
  obtain ⟨w₁, hremove, hheld⟩ := Registry.outcome_remove_of_stored hs hr
  have hsilent := (Registry.silent_remove host s.home name).output hremove
  have hrun := outcome_remove_iff.2 ⟨name, hwords, w₁, hremove, rfl⟩
  rw [← dispatch_remove (.inl rfl), hsilent] at hrun
  exact ⟨_, hrun, hheld, rfl⟩

/-- **A registered project is addressed by its name.** The registry holds the entry that the
project file makes, and no other one of its name. As long as no file changes, its name writes the
script of the project in a built-in dialect, if the global file is read, and unless the name is that
of a command or leads to a project file, or the project file is that of the registry; and `rm` takes
the entry away, with the name as its operand or behind the end of the options. -/
theorem registered_addressable (hh : Path.isAbsolute host.cwd = true)
    (h : (s.dispatch host ["add", file]).outcome w = (.ok (), w₁)) :
    ∃ e project others, Registry.Describes host w.files file e project ∧
      Registry.held host.here s.home w₁.files = some ⟨others ++ [e]⟩ ∧
      (∀ p ∈ others, p.name ≠ e.name) ∧
      ∀ w₂, w₂.files = w₁.files →
        (e.name ∉ commands → Registry.directFile? host w₁.files e.name = none →
          ¬w₁.files.SamePlace host.here e.file s.home.registryFile →
          ∀ d g words, Dialect.ofName? s.dialect = some d →
            Config.globalsIn host w₁.files s.home.globalFile = .ok g →
            ∃ w₃, (s.dispatch host (e.name :: words)).outcome w₂ = (.ok (), w₃) ∧
              w₃.files = w₁.files ∧
              w₃.output =
                w₂.output ++ d.script (planOf host ⟨project, e.root⟩ g words).plan) ∧
        ∀ words, words = ["--", e.name] ∨ words = [e.name] ∧ CommandLine.IsOperand e.name →
          ∃ w₃, (s.dispatch host ("rm" :: words)).outcome w₂ = (.ok (), w₃) ∧
            Registry.held host.here s.home w₃.files = some ⟨others⟩ ∧
            w₃.output = w₂.output ++ (Report.removed e.name).text := by
  obtain ⟨e, w₀, hadd, hw₁⟩ := added_of_dispatch h
  obtain ⟨hdraft, r, hs⟩ := Registry.stored_of_added hadd
  obtain ⟨project, hd⟩ := Registry.describes_of_draft hdraft
  have hconfined := Registry.confined_of_added hadd
  rw [← hw₁] at hs hconfined
  have hfind := Registry.find?_insert r e
  refine ⟨e, project, (r.erase e.name).projects, hd,
    Registry.held_of_stored hs (Registry.parse_text _), fun p hp => ?_, fun w₂ hw₂ => ⟨?_, ?_⟩⟩
  · simpa using (List.mem_filter.1 hp).2
  · intro hcommand hname hother d g words hdialect hglobals
    have hd₁ := Registry.describes_of_confined hd hconfined hother
    rw [← hw₂] at hs hname hd₁ hglobals ⊢
    obtain ⟨w₃, hresolve, hw₃⟩ := Registry.outcome_resolve_name hh hd₁ hs hfind hname
    exact outcome_dispatch_of_resolved hcommand hresolve hw₃ hglobals hdialect words
  · intro words hwords
    have hoperand : CommandLine.operand words = .ok e.name := by
      rcases hwords with rfl | ⟨rfl, hname⟩
      · exact CommandLine.operand_endOfOptions e.name
      · exact CommandLine.operand_singleton_iff.2 ⟨hname, rfl⟩
    rw [← hw₂] at hs
    have hrm := outcome_dispatch_remove hoperand hs (by rw [hfind]; rfl)
    rwa [Registry.erase_insert] at hrm

end

namespace Sample

open Registry.Sample

/-- A session on the shelf. -/
def librarian : Session := ⟨Registry.Sample.home, "bash", "/pm/plugins"⟩

/-- The world after the project of the shelf has been registered. -/
def registered : World :=
  ((librarian.dispatch variablesHost ["add", "$WORK/./p//a.yml"]).outcome shelf).2

theorem registered_addressable_book :
    Path.isAbsolute variablesHost.cwd = true ∧
      (librarian.dispatch variablesHost ["add", "$WORK/./p//a.yml"]).outcome shelf =
        (.ok (), registered) ∧
      ∃ project w₃ w₄, project.info.name = "$a b" ∧
        (librarian.dispatch variablesHost ["$a b", "echo", "hi"]).outcome registered =
          (.ok (), w₃) ∧
        w₃.output = registered.output ++ Dialect.posix.script
          (planOf variablesHost ⟨project, "/work/p/../src/x/"⟩ {} ["echo", "hi"]).plan ∧
        (librarian.dispatch variablesHost ["rm", "$a b"]).outcome w₃ = (.ok (), w₄) ∧
        Registry.held variablesHost.here librarian.home w₄.files = some ⟨[]⟩ := by
  have hh : Path.isAbsolute variablesHost.cwd = true := by decide +kernel
  have hadd : (librarian.dispatch variablesHost ["add", "$WORK/./p//a.yml"]).outcome shelf =
      (.ok (), registered) := Prod.ext (eq_ok (by decide +kernel)) rfl
  -- all that has to be computed of the world afterwards, at once
  obtain ⟨hbook, hname, hother, hglobals⟩ :
      Registry.held variablesHost.here librarian.home registered.files = some ⟨[book]⟩ ∧
        Registry.directFile? variablesHost registered.files book.name = none ∧
        ¬registered.files.SamePlace variablesHost.here book.file librarian.home.registryFile ∧
        Config.globalsIn variablesHost registered.files librarian.home.globalFile = .ok {} := by
    decide +kernel
  obtain ⟨e, project, others, hd, hheld, -, haddress⟩ := registered_addressable hh hadd
  rw [hbook, Option.some.injEq, Registry.mk.injEq, ← List.nil_append [book]] at hheld
  obtain ⟨rfl, he⟩ := List.append_inj' hheld rfl
  obtain rfl := List.singleton_inj.1 he
  obtain ⟨hscript, -⟩ := haddress registered rfl
  obtain ⟨w₃, hrun, hw₃, hout⟩ := hscript (by decide) hname hother .posix {} ["echo", "hi"]
    (by decide) hglobals
  obtain ⟨-, hremove⟩ := haddress w₃ hw₃
  obtain ⟨w₄, hrm, hheld₄, -⟩ := hremove ["$a b"] (.inr ⟨rfl, by decide⟩)
  exact ⟨hh, hadd, project, w₃, w₄, hd.name, hrun, hout, hrm, hheld₄⟩

/-- There is the file of a project with a name. -/
def named (name : String) : World where
  files := FileSystem.empty.set ["a.yml".toList]
    (some (.file (.text ("info:\n  name: " ++ name ++ "\n  root: /src\n")) false))
  notices := []
  output := ""

/-- The file of a project stands where the registry is kept. -/
def misplaced : World where
  files := (FileSystem.empty.set ["pm".toList] (some .directory)).set
    ["pm".toList, "registry.yml".toList]
    (some (.file (.text "info:\n  name: x\n  root: /src\ncommands:\n  hi:\n    cmd: echo hi\n")
      false))
  notices := []
  output := ""

/-- The script that runs `echo hi` in the root of these projects. -/
def greeting : String := Dialect.posix.script ⟨[.enter "/src", .run "echo hi", .leave]⟩

/-- A project with the name of a command is registered, and its name runs the command. One whose
name begins with a dash is registered, and `rm` rejects the name. One whose file is that of the
registry is registered, and its commands are lost with the file. -/
theorem names_not_addressable :
    (((keeper.dispatch host ["add", "/a.yml"]).outcome (named "ls")).1 = .ok () ∧
      Registry.directFile? host (afterCommand (named "ls") ["add", "/a.yml"]).files "ls" = none ∧
      (afterCommand (afterCommand (named "ls") ["add", "/a.yml"]) ["ls", "echo", "hi"]).output ≠
        (afterCommand (named "ls") ["add", "/a.yml"]).output ++ greeting) ∧
    (((keeper.dispatch host ["add", "/a.yml"]).outcome (named "-x")).1 = .ok () ∧
      Registry.directFile? host (afterCommand (named "-x") ["add", "/a.yml"]).files "-x" = none ∧
      ((keeper.dispatch host ["rm", "-x"]).outcome
        (afterCommand (named "-x") ["add", "/a.yml"])).1 =
          .error (.commandLine .unknownArgument)) ∧
    ((keeper.dispatch host ["add", "/pm/registry.yml"]).outcome misplaced).1 = .ok () ∧
      Registry.directFile? host (afterCommand misplaced ["add", "/pm/registry.yml"]).files "x" =
        none ∧
      (afterCommand (afterCommand misplaced ["add", "/pm/registry.yml"]) ["x", ":hi"]).output ≠
        (afterCommand misplaced ["add", "/pm/registry.yml"]).output ++ greeting := by
  refine ⟨?_, ?_, ?_⟩
  · decide +kernel
  · decide +kernel
  · decide +kernel

end Sample

end Session

end ProjectScript
