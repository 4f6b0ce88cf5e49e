import ProjectScript.Session
import ProjectScript.Shell

/-!
# The program

Runs a session on the files of the machine: those that it may look at are read beforehand, the
session runs on them, and what it did to the registry is written back. The script goes to the
output; notices and errors go to the error output.
-/

namespace ProjectScript

/-- The variables in a block of settings, each ended by a null character. -/
def Environment.ofBlock (block : List Char) : Environment :=
  let settings := (Text.cut '\x00' block).filterMap fun s =>
    match s.dropWhile (· ≠ '=') with
    | [] => none
    | _ :: value => some (String.ofList (s.takeWhile (· ≠ '=')), String.ofList value)
  (Table.ofList settings).get?

/-- The text of a command line's own report. -/
def CommandLine.Error.text : CommandLine.Error → String
  | helpRequested => Session.usage
  | versionRequested => "pm\n"
  | missingValue => "error: an option has no value\n"
  | needlessValue => "error: an option takes no value\n"
  | repeatedOption => "error: an option is given twice\n"
  | unknownArgument => "error: an argument is not known\n"
  | missingOperand => "error: an argument is missing\n"

/-- Whether a command line asks for a text. -/
def CommandLine.Error.isRequest : CommandLine.Error → Bool
  | helpRequested => true
  | versionRequested => true
  | _ => false

namespace Program

/-- The directories on the way to a location, and the location itself. -/
def onTheWay (l : Location) : List Location := (List.range (l.length + 1)).map l.take

/-- The path of a location. -/
def pathOf (l : Location) : String := String.ofList ('/' :: Text.join '/' l)

/-- The content of bytes. -/
def contentOf (bytes : ByteArray) : Content := (String.fromUTF8? bytes).elim .binary .text

/-- What stands at a location below directories. A script is taken to be executable. -/
def readEntry (l : Location) : IO (Option Entry) := do
  try
    let content := contentOf (← IO.FS.readBinFile (pathOf l))
    let executable :=
      match content with
      | .text s => "#!".toList.isPrefixOf s.toList
      | .binary => true
    return some (.file content executable)
  catch e =>
    match e with
    | .inappropriateType .. => return some .directory
    | _ => return none

/-- Adds what stands at a location and on the way to it. -/
def load (fs : FileSystem) (l : Location) : IO FileSystem :=
  (onTheWay l).foldlM (fun fs l => do
    if (fs.at? l).isSome then return fs
    else if l.isEmpty || fs.at? l.dropLast == some .directory then
      return fs.set l (← readEntry l)
    else return fs) fs

/-- The location that a path means when nothing on its way is missing. -/
def placeOf (here : Location) (p : String) : Location :=
  (FileSystem.steps p).foldl FileSystem.step (FileSystem.origin here p)

/-- The paths that a session may look at, the registry's own entries apart. -/
def pathsOf (env : Environment) (s : Session) (words : List String) : List String :=
  [s.home.dir, s.home.registryFile, s.home.globalFile,
    Renderer.programFor (Path.expandLenient env s.plugins) s.dialect] ++
    words.map (Path.expandLenient env)

/-- The paths of the project files that a registry names. -/
def registeredPaths (fs : FileSystem) (here : Location) (s : Session) : List String :=
  match (fs.read here s.home.registryFile).toOption.bind Registry.parse with
  | some r => r.projects.map (·.file)
  | none => []

/-- The files that a session may look at. -/
def snapshot (host : Host) (s : Session) (words : List String) : IO FileSystem := do
  let fs ← load .empty host.here
  let paths := pathsOf host.env s words
  let fs ← paths.foldlM (fun fs p => load fs (placeOf host.here p)) fs
  (registeredPaths fs host.here s).foldlM (fun fs p => load fs (placeOf host.here p)) fs

/-- Writes the registry back, if a session changed it. -/
def writeBack (host : Host) (s : Session) (before after : FileSystem) : IO Unit := do
  let home := placeOf host.here s.home.dir
  if after.at? home == some .directory && before.at? home != some .directory then
    IO.FS.createDirAll (pathOf home)
  let file := placeOf host.here s.home.registryFile
  if after.at? file != before.at? file then
    if let some (.file (.text text) _) := after.at? file then
      IO.FS.writeFile (pathOf file) text

/-- Writes an error, and gives the exit code. -/
def reportError (e : Session.Error) : IO UInt32 := do
  match e with
  | .commandLine e =>
    if e.isRequest then
      IO.print e.text
      return 0
    else
      IO.eprint e.text
      return 2
  | e =>
    IO.eprintln ("Error: " ++ report e.chain)
    return 1

/-- Runs a session. -/
def run (host : Host) (s : Session) (words : List String) : IO UInt32 := do
  let files ← snapshot host s words
  let (result, world) := (s.dispatch host words).run.run ⟨files, [], ""⟩
  writeBack host s files world.files
  world.notices.forM fun notice => IO.eprintln notice
  match result with
  | .ok () =>
    IO.print world.output
    return 0
  | .error e => reportError e

/-- The host that the program runs on. -/
def currentHost : IO Host := do
  let env : Environment := .ofBlock
    (String.fromUTF8? (← IO.FS.readBinFile "/proc/self/environ") |>.getD "").toList
  let cwd := toString (← IO.currentDir)
  return ⟨env, cwd, Shell.launch env cwd⟩

end Program

end ProjectScript

open ProjectScript in
/-- Reads the command line and runs the session that it asks for. -/
def main (argv : List String) : IO UInt32 := do
  let host ← Program.currentHost
  match CommandLine.parse host.env argv with
  | .error e => Program.reportError (.commandLine e)
  | .ok c =>
    match Session.ofCommandLine host.env c with
    | .error e => Program.reportError (.home e)
    | .ok s => Program.run host s c.words
