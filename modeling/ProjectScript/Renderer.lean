import ProjectScript.Dialect
import ProjectScript.Path.Expand
import ProjectScript.Plan.Document
import ProjectScript.World

/-!
# Renderers

A plan is written in the dialect of its name. A dialect that is not built in is left to an
external renderer, a program in a directory of its own that reads the plan's document and writes
the script.
-/

namespace ProjectScript.Renderer

/-- What can go wrong in rendering. -/
inductive Error
  /-- The directory holds no renderer for the dialect. -/
  | missing (dialect dir : String)
  | notLaunched (program : String) (why : Failure)
  /-- The plan cannot be written to the renderer, or the script not be read from it. -/
  | io (program : String) (why : Failure)
  /-- The renderer ends with a code other than zero, or by a signal. -/
  | failed (dialect : String) (code : Option Nat)
  /-- What the renderer writes is no text. -/
  | notText (dialect : String)
  deriving DecidableEq, Repr

/-- The chain of texts of an error. -/
def Error.chain : Error → List String
  | missing dialect dir => ["Renderer '" ++ dialect ++ "' not found in '" ++ dir ++ "'."]
  | notLaunched program why =>
    ["Renderer '" ++ program ++ "' could not be launched: " ++ why.text, why.text]
  | io program why =>
    ["I/O error while talking to renderer '" ++ program ++ "': " ++ why.text, why.text]
  | failed dialect code =>
    ["Renderer '" ++ dialect ++ "' exited with a non-zero status (" ++
      (code.map toString).getD "signal" ++ ")"]
  | notText dialect =>
    ["Renderer '" ++ dialect ++ "' produced output that was not valid UTF-8", detail]

/-- The path of a dialect's renderer in a directory. -/
def programFor (dir dialect : String) : String := Path.join dir ("pm-render-" ++ dialect)

/-- The renderer of a dialect, if it is there. -/
def find? (fs : FileSystem) (here : Location) (dir dialect : String) : Option String :=
  let program := programFor dir dialect
  if fs.isFile here program then some program else none

/-- The arguments that a renderer is run with. -/
def arguments : List String := ["--render"]

/-- What comes of the code that a renderer ends with and of its output. -/
def ofEnd (dialect : String) : Option Nat → Content → Except Error String
  | some 0, .text script => .ok script
  | some 0, .binary => .error (.notText dialect)
  | code, _ => .error (.failed dialect code)

/-- What comes of a run. A renderer may end without reading all of its input; any other failure to
write the input comes before what the renderer ends with. -/
def ofRun (dialect program : String) : Run → Except Error String
  | .notLaunched why => .error (.notLaunched program why)
  | .lost why => .error (.io program why)
  | .ended code output none => ofEnd dialect code output
  | .ended code output (some .brokenPipe) => ofEnd dialect code output
  | .ended _ _ (some why) => .error (.io program why)

/-- The script that an external renderer writes for a plan. -/
def external (host : Host) (fs : FileSystem) (p : Plan) (dialect plugins : String) :
    Except Error String :=
  let dir := Path.expandLenient host.env plugins
  match find? fs host.here dir dialect with
  | none => .error (.missing dialect dir)
  | some program =>
    ofRun dialect program (host.run fs program arguments (Plan.Document.ofPlan p).text)

/-- The script of a plan in a dialect, which is built in or that of an external renderer. -/
def render (host : Host) (fs : FileSystem) (p : Plan) (dialect plugins : String) :
    Except Error String :=
  match Dialect.ofName? dialect with
  | some d => .ok (d.script p)
  | none => external host fs p dialect plugins

end ProjectScript.Renderer
