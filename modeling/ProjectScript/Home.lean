import ProjectScript.Path.Expand
import ProjectScript.Text.Blank
import ProjectScript.World

/-!
# The home of the projects

The directory that holds the registry, the global file and the external renderers.
-/

namespace ProjectScript

/-- The directory of the registry and what belongs to it. -/
structure Home where
  dir : String
  deriving DecidableEq, Repr

namespace Home

/-- The file that lists the registered projects. -/
def registryFile (h : Home) : String := Path.join h.dir "registry.yml"

/-- The file with what all projects share. -/
def globalFile (h : Home) : String := Path.join h.dir "global.yml"

/-- The directory of external renderers. -/
def pluginsDir (h : Home) : String := Path.join h.dir "plugins"

/-- The variable that names the home. -/
def pathVariable : String := "PM_CONFIGS"

/-- The home when no variable names one. -/
def underUserHome (dir : String) : Home := ⟨Path.join (Path.join dir ".config") "pm"⟩

/-- The home that variables name: that of `PM_CONFIGS` unless it is blank, or else a directory
under the user's own home. -/
def ofEnvironment (env : Environment) : Except Path.Error Home :=
  match (env pathVariable).filter (!Text.isBlank ·) with
  | some custom => ((Path.expand env custom).mapError (.unsetVariable custom)).map Home.mk
  | none =>
    match env.home? with
    | some dir => .ok (underUserHome dir)
    | none => .error .homeUnknown

/-- Makes the directory, unless something is there. -/
def ensure (host : Host) (h : Home) : Act Path.Error Unit := do
  let fs ← Act.files
  if fs.pathExists host.here h.dir then return
  else
    let (result, fs) := fs.makeDirs host.here h.dir
    Act.setFiles fs
    match result with
    | .ok () => return
    | .error why => throw (.notCreated h.dir why)

end Home

end ProjectScript
