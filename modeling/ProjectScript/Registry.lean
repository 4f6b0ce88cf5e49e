import ProjectScript.Config
import ProjectScript.Home
import ProjectScript.Yaml.Write

/-!
# The registry

The projects that are known by name, in the order in which they were added. The registry is kept
in a file of the home; it is read anew by every operation, and made when it is not there.

* `add` puts a project at the end, and takes away an entry of the same name;
* `remove` takes away a name;
* `resolve` finds a project by its name or by the path of its file.
-/

namespace ProjectScript

/-- A registered project: its name, the path of its file and its root. -/
structure Registered where
  name : String
  file : String
  root : String
  deriving DecidableEq, Repr

/-- The registered projects. -/
structure Registry where
  projects : List Registered
  deriving DecidableEq, Repr

namespace Registry

instance : Inhabited Registry := ⟨⟨[]⟩⟩

/-- The registry without projects. -/
def empty : Registry := ⟨[]⟩

/-- The project of a name. -/
def find? (r : Registry) (name : String) : Option Registered :=
  r.projects.find? fun p => p.name == name

/-- Takes away the projects of a name. -/
def erase (r : Registry) (name : String) : Registry :=
  ⟨r.projects.filter fun p => p.name != name⟩

/-- Puts a project at the end, in place of those of its name. -/
def insert (r : Registry) (p : Registered) : Registry := ⟨(r.erase p.name).projects ++ [p]⟩

/-! ## The file -/

/-- The indentation of the lines of an entry's scalars. -/
def scalarIndent : Nat := 4

/-- A field of an entry. -/
def fieldText (name value : String) : List Char :=
  name.toList ++ ':' :: ' ' :: Yaml.scalar scalarIndent value

/-- An entry of the file. -/
def entryText (p : Registered) : List Char :=
  "- ".toList ++ fieldText "name" p.name ++ "  ".toList ++ fieldText "meta" p.file ++
    "  ".toList ++ fieldText "root" p.root

/-- The text of the file. -/
def text (r : Registry) : String :=
  match r.projects with
  | [] => "projects: []\n"
  | ps => String.ofList ("projects:\n".toList ++ ps.flatMap entryText)

/-- A field of an entry that must be there. -/
structure Draft where
  name : Option String := none
  file : Option String := none
  root : Option String := none

/-- The entry, when all its fields are there. -/
def Draft.complete (d : Draft) : Decode Registered := do
  return ⟨← Decode.ofOption d.name, ← Decode.ofOption d.file, ← Decode.ofOption d.root⟩

/-- Reads an entry. -/
def entry {σ : Type} (src : Source σ) (p : σ) : Decode Registered := do
  let d ← src.record ["name", "meta", "root"] (fun (d : Draft) k q => do
    let s ← src.text q
    if k = "name" then return { d with name := some s }
    else if k = "meta" then return { d with file := some s }
    else return { d with root := some s }) {} p
  d.complete

/-- Reads a registry. A null stands for an empty one. -/
def decode {σ : Type} (src : Source σ) (p : σ) : Decode Registry := do
  match ← src.optional p with
  | none => return empty
  | some p =>
    src.record ["projects"] (fun _ _ q => return ⟨← src.list (entry src) q⟩) empty p

/-- The registry that a text writes. -/
def parse (text : String) : Option Registry := (Decode.yaml decode text).1

/-! ## Errors -/

/-- What can go wrong with the registry. -/
inductive Error
  | io (why : Failure)
  | path (e : Path.Error)
  | config (e : Config.Error)
  /-- The file is no registry. -/
  | corrupted
  /-- There is no project file at a path. -/
  | noFile (path : String)
  /-- A project file has a blank name or a blank root. -/
  | incomplete (path : String)
  /-- No project of a name is registered. -/
  | unknown (name : String)
  /-- A reference is neither a registered name nor the path of a project file. -/
  | unresolvable (ref : String)
  deriving DecidableEq, Repr

/-- The chain of texts of an error. -/
def Error.chain : Error → List String
  | io why => ["Filesystem Error: " ++ why.text, why.text]
  | path e => ("Path error: " ++ e.text) :: e.chain
  | config e => e.chain
  | corrupted => ["Registry file is corrupted: " ++ detail, detail]
  | noFile file => ["Meta file not found: " ++ file]
  | incomplete file => ["Meta file '" ++ file ++ "' must define both info.name and info.root."]
  | unknown name => ["Project not found: " ++ name]
  | unresolvable ref => ["Project not found in registry or file does not exist: " ++ ref]

/-! ## Operations -/

/-- Writes the registry. -/
def save (host : Host) (home : Home) (r : Registry) : Act Error Unit := do
  (home.ensure host).mapError .path
  match (← Act.files).write host.here home.registryFile r.text with
  | .error why => throw (.io why)
  | .ok fs => Act.setFiles fs

/-- Reads the registry; one that is not there is made. -/
def load (host : Host) (home : Home) : Act Error Registry := do
  match (← Act.files).read host.here home.registryFile with
  | .ok text =>
    match parse text with
    | some r => return r
    | none => throw .corrupted
  | .error .notFound =>
    save host home empty
    return empty
  | .error why => throw (.io why)

/-- Expands a path. -/
def expandPath (host : Host) (raw : String) : Except Error String :=
  (Path.expand host.env raw).mapError fun name => .path (.unsetVariable raw name)

/-- Makes a path absolute. -/
def absolutize (host : Host) (base : Option String) (p : String) : Except Error String :=
  (Path.absolutize? host.cwd base p).elim (.error (.path .empty)) .ok

/-- The root of a project whose file stands at a path. -/
def projectRoot (host : Host) (p : Project) (file : String) : Except Error String := do
  absolutize host (Path.parent? file) (← expandPath host p.info.root)

/-- A project that is ready for use. -/
structure Resolved where
  project : Project
  root : String

/-- Reads the project file at a path, and finds the absolute paths of the file and of the root. -/
def loadFile (host : Host) (path : String) : Act Error (String × Project) := do
  let file ← Act.ofExcept (absolutize host none path)
  let project ← (Config.loadProject host file).mapError .config
  return (file, project)

/-- Registers the project whose file is at a path. -/
def add (host : Host) (home : Home) (path : String) : Act Error Registered := do
  let path ← Act.ofExcept (expandPath host path)
  if !(← Act.files).isFile host.here path then throw (.noFile path)
  let (file, project) ← loadFile host path
  if Text.isBlank project.info.name || Text.isBlank project.info.root then
    throw (.incomplete file)
  let root ← Act.ofExcept (projectRoot host project file)
  let new : Registered := ⟨project.info.name, file, root⟩
  let r ← load host home
  save host home (r.insert new)
  return new

/-- Takes a project out of the registry. -/
def remove (host : Host) (home : Home) (name : String) : Act Error Unit := do
  let r ← load host home
  if (r.find? name).isNone then throw (.unknown name)
  save host home (r.erase name)

/-- The registered projects. -/
def list (host : Host) (home : Home) : Act Error (List Registered) :=
  return (← load host home).projects

/-- The path of a project file that a reference leads to, if it does. -/
def directFile? (host : Host) (fs : FileSystem) (ref : String) : Option String :=
  match Path.expand host.env ref with
  | .ok path => if fs.isFile host.here path && Path.isProjectFile path then some path else none
  | .error _ => none

/-- Finds a project by the path of its file or by its name. -/
def resolve (host : Host) (home : Home) (ref : String) : Act Error Resolved := do
  match directFile? host (← Act.files) ref with
  | some path =>
    let (file, project) ← loadFile host path
    return ⟨project, ← Act.ofExcept (projectRoot host project file)⟩
  | none =>
    let r ← load host home
    match r.find? ref with
    | none => throw (.unresolvable ref)
    | some p =>
      let project ← (Config.loadProject host p.file).mapError .config
      return ⟨project, ← Act.ofExcept (absolutize host none p.root)⟩

end Registry

end ProjectScript
