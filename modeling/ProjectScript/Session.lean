import ProjectScript.CommandLine
import ProjectScript.Plan.Build
import ProjectScript.Registry
import ProjectScript.Renderer

/-!
# Sessions

A session does what the words of a command line ask for: it keeps the registry, or writes the
script of a project to the output. A script is written as a whole or not at all.

* `Session.ofCommandLine`: the session of a command line;
* `dispatch`: does what the words ask for.
-/

namespace ProjectScript

/-- Where the registry is kept, and how scripts are written. -/
structure Session where
  home : Home
  dialect : String
  /-- The directory of external renderers, not expanded yet. -/
  plugins : String
  deriving DecidableEq, Repr

namespace Session

/-- The dialect of scripts when none is asked for. -/
def defaultDialect : String := Dialect.posix.name

/-- A value without the blanks around it, unless nothing is left. -/
def nonEmpty? (value : Option String) : Option String :=
  (value.map Text.trim).filter (!·.isEmpty)

/-- The session of a command line. -/
def ofCommandLine (env : Environment) (c : CommandLine) : Except Path.Error Session := do
  let home ← Home.ofEnvironment env
  return ⟨home, (nonEmpty? c.dialect).getD defaultDialect,
    (nonEmpty? c.plugins).getD home.pluginsDir⟩

/-- What can go wrong in a session. -/
inductive Error
  | commandLine (e : CommandLine.Error)
  | home (e : Path.Error)
  /-- The registry fails while a project is registered. -/
  | register (file : String) (e : Registry.Error)
  | registry (e : Registry.Error)
  | resolve (ref : String) (e : Registry.Error)
  | globals (e : Config.Error)
  | render (dialect : String) (e : Renderer.Error)
  deriving DecidableEq, Repr

/-- The chain of texts of an error. A command line that is not well formed has a report of its
own. -/
def Error.chain : Error → List String
  | commandLine _ => []
  | home e => "Could not locate the pm home directory" :: e.chain
  | register file e => ("Could not register '" ++ file ++ "'") :: e.chain
  | registry e => e.chain
  | resolve ref e => ("Could not resolve project '" ++ ref ++ "'") :: e.chain
  | globals e => "Could not load the global configuration" :: e.chain
  | render dialect e => ("Could not render a '" ++ dialect ++ "' script") :: e.chain

/-- The lines for a command line without words. -/
def usageLines : List String :=
  ["# pm: usage",
    "#   pm [--dialect bash|pwsh|<plugin>] [--plugins DIR] <add|rm|ls|PROJECT|META.yml> [args...]",
    "# examples:",
    "#   pm add ~/repos/subzero/.pm.meta.yml",
    "#   pm ls",
    "#   pm --dialect bash subzero :build -DskipTests :up @base api"]

/-- The text for a command line without words. -/
def usage : String := String.join (usageLines.map (· ++ "\n"))

/-! ## What a session does -/

/-- Registers the project whose file is named. -/
def add (host : Host) (s : Session) (words : List String) : Act Error Unit := do
  let file ← Act.ofExcept ((CommandLine.operand words).mapError .commandLine)
  let p ← (Registry.add host s.home file).mapError (.register file)
  Act.emit ("# pm: added project " ++ p.name ++ " (" ++ p.root ++ ")\n")

/-- Takes the project that is named out of the registry. -/
def remove (host : Host) (s : Session) (words : List String) : Act Error Unit := do
  let name ← Act.ofExcept ((CommandLine.operand words).mapError .commandLine)
  (Registry.remove host s.home name).mapError .registry
  Act.emit ("# pm: removed project " ++ name ++ "\n")

/-- A registered project as it is listed. -/
def listing (p : Registered) : String :=
  "- " ++ p.name ++ "\n  meta: " ++ p.file ++ "\n  root: " ++ p.root ++ "\n"

/-- The list of the registered projects. -/
def listings (ps : List Registered) : String :=
  if ps.isEmpty then "# pm: empty. Use: pm add /path/to/.pm.meta.yml\n"
  else "# pm: projects\n\n" ++ String.join (ps.map listing)

/-- Lists the registered projects. -/
def list (host : Host) (s : Session) : Act Error Unit := do
  Act.emit (listings (← (Registry.list host s.home).mapError .registry))

/-- The notice about a reference that resolves to nothing. -/
def missNotice (p : Project) (m : Template.Miss) : String :=
  "[" ++ p.info.name ++ "] " ++ m.text

/-- The plan of an invocation of a project. -/
def planOf (host : Host) (r : Registry.Resolved) (g : Globals) (words : List String) :
    Plan.Contribution :=
  Plan.build ⟨host.env, r.project, g⟩ r.root (.ofWords words)

/-- Writes the script of a project. -/
def generate (host : Host) (s : Session) (ref : String) (words : List String) :
    Act Error Unit := do
  let r ← (Registry.resolve host s.home ref).mapError (.resolve ref)
  let g ← (Config.loadGlobals host s.home.globalFile).mapError .globals
  let c := planOf host r g words
  Act.notify (c.notices ++ c.misses.map (missNotice r.project))
  let script := Renderer.render host (← Act.files) c.plan s.dialect s.plugins
  Act.emit (← Act.ofExcept (script.mapError (.render s.dialect)))

/-- Does what words ask for. A first word that is no command names a project. -/
def dispatch (host : Host) (s : Session) (words : List String) : Act Error Unit :=
  match words with
  | [] => Act.emit usage
  | word :: rest =>
    if word = "add" then s.add host rest
    else if word = "rm" ∨ word = "remove" then s.remove host rest
    else if word = "ls" ∨ word = "list" then s.list host
    else s.generate host word rest

/-- Does what a command line asks for. -/
def runCommandLine (host : Host) (argv : List String) : Act Error Unit := do
  let c ← Act.ofExcept ((CommandLine.parse host.env argv).mapError .commandLine)
  let s ← Act.ofExcept ((ofCommandLine host.env c).mapError .home)
  s.dispatch host c.words

end Session

end ProjectScript
