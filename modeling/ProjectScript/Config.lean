import ProjectScript.Decode.Project
import ProjectScript.Decode.Toml
import ProjectScript.Decode.Value
import ProjectScript.Decode.Yaml
import ProjectScript.World

/-!
# Configuration files

Project files, in YAML or by their extension in TOML, and the global file, which all projects
share. A global file that is missing, empty or no table says nothing. Notices about a file are
kept also when reading it fails later on.
-/

namespace ProjectScript.Config

/-- What can be wrong with a configuration file. -/
inductive Error
  | unreadable (path : String) (why : Failure)
  | badYaml (path : String)
  | badToml (path : String)
  /-- The functions of the global file do not have the form of functions. -/
  | badFunctions (path : String)
  deriving DecidableEq, Repr

namespace Error

/-- The wording of the cause. -/
def cause : Error → String
  | unreadable _ why => why.text
  | _ => detail

/-- The wording. -/
def text : Error → String
  | unreadable path why => "Could not read '" ++ path ++ "': " ++ why.text
  | badYaml path => "Invalid YAML in '" ++ path ++ "': " ++ detail
  | badToml path => "Invalid TOML in '" ++ path ++ "': " ++ detail
  | badFunctions path => "Invalid 'func' section in '" ++ path ++ "': " ++ detail

/-- The chain of texts. -/
def chain (e : Error) : List String := [e.text, e.cause]

end Error

/-- A result with the notices left on the way to it. -/
abbrev Noted (α : Type) := Except Error α × List String

/-- The project that a text describes; `origin` is the path it was read from. -/
def parseProject (origin text : String) : Noted Project :=
  if Path.isToml origin then
    let (p, notices) := Decode.toml Decode.project text
    (p.elim (.error (.badToml origin)) .ok, notices)
  else
    let (p, notices) := Decode.yaml Decode.project text
    (p.elim (.error (.badYaml origin)) .ok, notices)

/-- The table of shared functions in a value. -/
def functionsOf (origin : String) (v : Value) : Noted (Table Function) :=
  let (fs, notices) := (Decode.sharedFunctions Decode.ofValue v).start
  (fs.elim (.error (.badFunctions origin)) .ok, notices)

/-- The document of a global file; none when it is null. -/
def document {σ : Type} (src : Source σ) (p : σ) : Decode (Option Value) := do
  match ← src.optional p with
  | none => return none
  | some p => return some (← src.value p)

/-- What a text says for all projects. -/
def parseGlobals (origin text : String) : Noted Globals :=
  let (v, notices) := Decode.yaml document text
  match v with
  | none => (.error (.badYaml origin), notices)
  | some (some (.obj fields)) =>
    let (fs, more) := functionsOf origin (.obj fields)
    (fs.map fun fs => ⟨fs, .obj fields⟩, notices ++ more)
  | some _ => (.ok {}, notices)

/-- Takes a result, and leaves its notices. -/
def ofNoted {α : Type} (n : Noted α) : Act Error α := do
  Act.notify n.2
  Act.ofExcept n.1

/-- Reads a project file. -/
def loadProject (host : Host) (path : String) : Act Error Project := do
  match (← Act.files).read host.here path with
  | .error why => throw (.unreadable path why)
  | .ok text => ofNoted (parseProject path text)

/-- Reads the global file. -/
def loadGlobals (host : Host) (path : String) : Act Error Globals := do
  match (← Act.files).read host.here path with
  | .error .notFound => return {}
  | .error why => throw (.unreadable path why)
  | .ok text => ofNoted (parseGlobals path text)

end ProjectScript.Config
