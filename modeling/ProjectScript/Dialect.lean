import ProjectScript.Plan
import ProjectScript.Quote

/-!
# Dialects

The shells that plans are written for. A script opens with a comment and enters the plan's root;
the steps follow, one line each; at the end it leaves the root again.
-/

namespace ProjectScript

/-- A family of shells with one syntax. -/
inductive Dialect
  | posix
  | powershell
  deriving DecidableEq, Repr

namespace Dialect

/-- The dialect of a shell's name. -/
def ofName? (name : String) : Option Dialect :=
  if name = "bash" ∨ name = "sh" ∨ name = "zsh" then some posix
  else if name = "pwsh" ∨ name = "powershell" then some powershell
  else none

/-- The shell that stands for a dialect. -/
def name : Dialect → String
  | posix => "bash"
  | powershell => "pwsh"

/-- The line that enters a directory. -/
def enter : Dialect → String → String
  | posix, dir => "pushd " ++ Quote.posix dir ++ " >/dev/null"
  | powershell, dir => "Push-Location " ++ Quote.powershell dir

/-- The line that leaves a directory. -/
def leave : Dialect → String
  | posix => "popd >/dev/null"
  | powershell => "Pop-Location"

/-- The line that prints a text. -/
def say : Dialect → String → String
  | posix, text => "echo " ++ Quote.posix text
  | powershell, text => "Write-Host " ++ Quote.powershell text

/-- The line of a step. -/
def line (d : Dialect) : Step → String
  | .enter dir => d.enter dir
  | .leave => d.leave
  | .say text => d.say text
  | .run l => l

/-- The lines before the steps. -/
def prologue (d : Dialect) (root : String) : List String := ["# pm begin", d.enter root]

/-- The lines after the steps. -/
def epilogue (d : Dialect) : List String := [d.leave, "# pm end"]

/-- The lines of a plan's script. -/
def lines (d : Dialect) (p : Plan) : List String :=
  d.prologue p.root ++ p.steps.map d.line ++ d.epilogue

/-- The script of a plan. -/
def script (d : Dialect) (p : Plan) : String := "\n".intercalate (d.lines p) ++ "\n"

end Dialect

end ProjectScript
