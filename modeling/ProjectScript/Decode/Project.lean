import ProjectScript.Decode.Source
import ProjectScript.Project

/-!
# Reading projects

The shapes of a project and of the shared functions, read from any source. Every field may be
absent.
-/

namespace ProjectScript.Decode

variable {σ : Type}

/-- Reads the body of a function or a command. -/
def body (src : Source σ) (p : σ) : Decode (List String) := do
  let v ← src.body p
  notify (Body.notices v)
  return Body.lines v

/-- Reads a parameter. -/
def parameter (src : Source σ) : σ → Decode Parameter :=
  src.record ["required", "default"] (fun a k q => do
    if k = "required" then return { a with required := ← src.flag q }
    else
      match ← src.optional q with
      | none => return { a with default := none }
      | some q => return { a with default := some (← src.text q) }) {}

/-- Reads a function. -/
def function (src : Source σ) : σ → Decode Function :=
  src.record ["params", "script"] (fun a k q => do
    if k = "params" then return { a with params := ← src.table (parameter src) q }
    else return { a with script := ← body src q }) {}

/-- Reads a command. -/
def command (src : Source σ) : σ → Decode Command :=
  src.record ["description", "cmd"] (fun a k q => do
    if k = "description" then return { a with description := ← src.text q }
    else return { a with script := ← body src q }) {}

/-- Reads the information on a project. -/
def info (src : Source σ) : σ → Decode Info :=
  src.record ["name", "description", "root"] (fun a k q => do
    if k = "name" then return { a with name := ← src.text q }
    else if k = "description" then return { a with description := ← src.text q }
    else return { a with root := ← src.text q }) {}

/-- Reads the services of a project. -/
def services (src : Source σ) : σ → Decode Services :=
  src.record ["compose_file", "groups"] (fun a k q => do
    if k = "compose_file" then return { a with file := ← src.text q }
    else return { a with groups := ← src.table (src.list src.text) q }) {}

/-- Reads a project. -/
def project (src : Source σ) : σ → Decode Project :=
  src.record ["info", "func", "commands", "docker", "vars"] (fun a k q => do
    if k = "info" then return { a with info := ← info src q }
    else if k = "func" then return { a with functions := ← src.table (function src) q }
    else if k = "commands" then return { a with commands := ← src.table (command src) q }
    else if k = "docker" then return { a with services := ← services src q }
    else return { a with vars := ← src.table src.value q }) {}

/-- Reads the functions of a shared document. -/
def sharedFunctions (src : Source σ) : σ → Decode (Table Function) :=
  src.record ["func"] (fun _ _ q => src.table (function src) q) .empty

end ProjectScript.Decode
