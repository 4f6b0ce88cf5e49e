import ProjectScript.Compose
import ProjectScript.Invocation
import ProjectScript.Plan
import ProjectScript.Template.Expand

/-!
# Building plans

The plan of an invocation: enter the root of the project, do what is asked, leave the root. A raw
command line runs as it is. The commands `help` and `up` are built in; any other is looked up
among the commands of the project, and each of its lines is expanded on its own, with the
arguments as the parameter `args`. A line that expands to blank text is left out.
-/

namespace ProjectScript.Plan

/-- What a part of an invocation adds to a plan: steps, the references that resolved to nothing,
and notices. -/
structure Contribution where
  steps : List Step
  misses : List Template.Miss
  notices : List String
  deriving DecidableEq, Repr

namespace Contribution

/-- Nothing. -/
def nothing : Contribution := ⟨[], [], []⟩

/-- Steps alone. -/
def ofSteps (steps : List Step) : Contribution := ⟨steps, [], []⟩

/-- One contribution after another. -/
def append (a b : Contribution) : Contribution :=
  ⟨a.steps ++ b.steps, a.misses ++ b.misses, a.notices ++ b.notices⟩

instance : Append Contribution := ⟨append⟩

/-- Contributions one after another. -/
def concat (cs : List Contribution) : Contribution := cs.foldr (· ++ ·) nothing

end Contribution

/-- The name of the parameter that holds the arguments of a command. -/
def argsParam : String := "args"

/-- The line of the listing for one command. -/
def helpLine (name : String) (c : Command) : String :=
  let description := Text.trim c.description
  "  :" ++ name ++ "  - " ++ (if description.isEmpty then "-" else description)

/-- The listing of a project's commands. -/
def help (p : Project) : List Step :=
  .say "# pm: project commands:" :: (p.commands.entries.map fun (name, c) => .say (helpLine name c))
    ++ [.say "# pm: built-ins: :up (docker compose up -d ...)"]

/-- The step that runs a line, unless it is blank. -/
def runUnlessBlank (line : String) : List Step :=
  if Text.isBlank line then [] else [.run line]

/-- What one line of a command contributes. -/
def ofLine (s : Template.Scope) (params : Table String) (line : String) : Contribution :=
  let e := Template.render s [] params line
  ⟨runUnlessBlank (String.ofList e.text), e.misses, []⟩

/-- What a command contributes. -/
def ofChunk (s : Template.Scope) (c : Chunk) : Contribution :=
  if c.name = "help" then .ofSteps (help s.project)
  else if c.name = "up" then
    ⟨[.run (Compose.line s.project.services c.args)], [],
      Compose.notices s.project.services c.args⟩
  else
    match s.project.commands.get? c.name with
    | none => .ofSteps [.say ("# pm: unknown command :" ++ c.name)]
    | some command =>
      let params := Table.empty.insert argsParam c.joinedArgs
      .concat (command.script.map (ofLine s params))

/-- What an invocation contributes between entering and leaving the root. -/
def body (s : Template.Scope) : Invocation → Contribution
  | .raw words => .ofSteps (runUnlessBlank (" ".intercalate words))
  | .commands chunks => .concat (chunks.map (ofChunk s))

/-- The plan of an invocation. -/
def build (s : Template.Scope) (root : String) (i : Invocation) : Contribution :=
  .ofSteps [.enter root] ++ body s i ++ .ofSteps [.leave]

/-- The plan that a contribution makes. -/
def Contribution.plan (c : Contribution) : Plan := ⟨c.steps⟩

end ProjectScript.Plan
