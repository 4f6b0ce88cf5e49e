import ProjectScript.Value.Print

/-!
# Projects

What a project file describes: functions and commands made of template lines, the services of a
compose file, and free data. The body of a function or a command may be written as one line, as a
list of lines or as another scalar; `Body.lines` brings it to a list of lines.
-/

namespace ProjectScript

/-- A parameter of a function. -/
structure Parameter where
  required : Bool := false
  default : Option String := none
  deriving DecidableEq, Repr, Inhabited

/-- The value a parameter has when a call does not bind it. An empty default is none. -/
def Parameter.seed (p : Parameter) : Option String := p.default.filter (!·.isEmpty)

/-- A named template, called with arguments. -/
structure Function where
  params : Table Parameter := .empty
  script : List String := []
  deriving DecidableEq, Repr, Inhabited

/-- A command of the project. -/
structure Command where
  description : String := ""
  script : List String := []
  deriving DecidableEq, Repr, Inhabited

/-- The name, the description and the root directory of a project. -/
structure Info where
  name : String := ""
  description : String := ""
  root : String := ""
  deriving DecidableEq, Repr, Inhabited

/-- The compose file of a project and its groups of services. -/
structure Services where
  file : String := ""
  groups : Table (List String) := .empty
  deriving DecidableEq, Repr, Inhabited

/-- A project. -/
structure Project where
  info : Info := {}
  functions : Table Function := .empty
  commands : Table Command := .empty
  services : Services := {}
  vars : Table Value := .empty
  deriving DecidableEq, Repr, Inhabited

/-- What all projects share: functions, and the document they were read from. -/
structure Globals where
  functions : Table Function := .empty
  document : Value := .obj []
  deriving DecidableEq, Repr, Inhabited

namespace Body

/-- The line that an entry of a body gives, if it is text. -/
def line? : Value → Option String
  | .str s => some s
  | .num n => some n.text
  | .bool b => some (if b then "true" else "false")
  | _ => none

/-- The notice about an entry of a body that is dropped. A null is dropped in silence. -/
def notice? : Value → Option String
  | .arr items => some (message (.arr items))
  | .obj fields => some (message (.obj fields))
  | _ => none
where
  message (v : Value) : String :=
    "Skipping body line that is not text: " ++ v.print ++ " (quote it to keep it)"

/-- The entries of a body: those of a list, or the value itself. -/
def entries : Value → List Value
  | .arr items => items
  | v => [v]

/-- The lines of a body. -/
def lines (v : Value) : List String := (entries v).filterMap line?

/-- The notices about the entries of a body that are dropped. -/
def notices (v : Value) : List String := (entries v).filterMap notice?

end Body

/-! ## Projects as values -/

/-- A list of lines as a value. -/
def linesValue (ls : List String) : Value := .arr (ls.map .str)

/-- A parameter as a value; a default that is absent is left out. -/
def Parameter.toValue (p : Parameter) : Value :=
  match p.default with
  | none => .object [("required", .bool p.required)]
  | some d => .object [("required", .bool p.required), ("default", .str d)]

/-- A function as a value. -/
def Function.toValue (f : Function) : Value :=
  .object [("params", .ofTable (f.params.map fun _ => Parameter.toValue)),
    ("script", linesValue f.script)]

/-- A command as a value. -/
def Command.toValue (c : Command) : Value :=
  .object [("description", .str c.description), ("cmd", linesValue c.script)]

/-- The information on a project as a value. -/
def Info.toValue (i : Info) : Value :=
  .object [("name", .str i.name), ("description", .str i.description), ("root", .str i.root)]

/-- The services of a project as a value. -/
def Services.toValue (s : Services) : Value :=
  .object [("compose_file", .str s.file), ("groups", .ofTable (s.groups.map fun _ => linesValue))]

/-- A project as a value. -/
def Project.toValue (p : Project) : Value :=
  .object [("info", p.info.toValue),
    ("func", .ofTable (p.functions.map fun _ => Function.toValue)),
    ("commands", .ofTable (p.commands.map fun _ => Command.toValue)),
    ("docker", p.services.toValue),
    ("vars", .ofTable p.vars)]

/-- The part of a project that templates may look into. -/
def Project.view (p : Project) : Value :=
  .object [("info", p.info.toValue), ("vars", .ofTable p.vars)]

end ProjectScript
