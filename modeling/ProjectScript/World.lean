import ProjectScript.Environment
import ProjectScript.Path.Error

/-!
# The world of an action

An action runs on a host, which stays as it is, and changes a world: files, notices to the user
and the text written to the output. It fails with an error of its own kind, and what it changed
before stays changed.
-/

namespace ProjectScript

/-- What comes of running a program. -/
inductive Run
  | notLaunched (why : Failure)
  /-- The output of the program cannot be read, or its end not be waited for. -/
  | lost (why : Failure)
  /-- The program ends with an exit code, or with none when a signal ends it, and leaves an output.
  If not all of its input could be written, `unwritten` says why. -/
  | ended (code : Option Nat) (output : Content) (unwritten : Option Failure)
  deriving DecidableEq, Repr

/-- What an action runs on: variables, the current directory, and how programs behave. -/
structure Host where
  env : Environment
  cwd : String
  /-- Runs a program, given by its path, with arguments and an input. -/
  run : FileSystem → String → List String → String → Run

/-- The location of the current directory. -/
def Host.here (h : Host) : Location := FileSystem.locationOf h.cwd

/-- What an action changes. -/
structure World where
  files : FileSystem
  notices : List String
  output : String

/-- An action with an error of the type `ε`. -/
abbrev Act (ε : Type) := ExceptT ε (StateM World)

namespace Act

variable {ε δ α : Type}

/-- The files. -/
def files : Act ε FileSystem := return (← get).files

/-- Changes the files. -/
def setFiles (fs : FileSystem) : Act ε Unit := modify fun w => { w with files := fs }

/-- Leaves notices. -/
def notify (ns : List String) : Act ε Unit :=
  modify fun w => { w with notices := w.notices ++ ns }

/-- Writes a text to the output. -/
def emit (s : String) : Act ε Unit := modify fun w => { w with output := w.output ++ s }

/-- An action that gives a result or fails, and changes nothing. -/
def ofExcept (x : Except ε α) : Act ε α := ExceptT.mk (pure x)

/-- An action whose errors are put as another kind of error. -/
def mapError (f : δ → ε) (a : Act δ α) : Act ε α := ExceptT.adapt f a

end Act

end ProjectScript
