/-!
# Plans

A plan is what a script does, before it is put into the words of a shell: a list of steps. Nothing
forces the steps that enter and leave directories to balance; whoever builds a plan sees to that.
-/

namespace ProjectScript

/-- A step of a plan. -/
inductive Step
  /-- Enters a directory. -/
  | enter (dir : String)
  /-- Leaves the directory entered last. -/
  | leave
  /-- Prints a line. -/
  | say (text : String)
  /-- Runs a command line as it is written. -/
  | run (line : String)
  deriving DecidableEq, Repr

/-- A list of steps. -/
structure Plan where
  steps : List Step
  deriving DecidableEq, Repr

namespace Plan

/-- The plan without steps. -/
def empty : Plan := ⟨[]⟩

/-- Adds a step at the end. -/
def push (p : Plan) (s : Step) : Plan := ⟨p.steps ++ [s]⟩

/-- The directory that a step enters. -/
def entered? : Step → Option String
  | .enter dir => some dir
  | _ => none

/-- The directory entered first, or `.` when there is none. -/
def root (p : Plan) : String := (p.steps.findSome? entered?).getD "."

end Plan

end ProjectScript
