import ProjectScript.Shell.Command
import ProjectScript.Shell.Syntax
import ProjectScript.World

/-!
# Running small shell scripts

External renderers are programs. Those that are small scripts of the POSIX shell are run here:
`launch` finds the script, checks that it may be run, and gives its code and its output.
-/

namespace ProjectScript.Shell

/-! ## Expanding words -/

/-- What the parameters of a shell stand for. -/
structure Frame where
  name : List Char
  /-- The current directory. -/
  here : List Char
  args : List (List Char)
  env : Environment
  status : Nat

/-- The text of the shell's process. -/
def process : List Char := ['1']

/-- The value of a parameter. -/
def Frame.value (f : Frame) : Param → List Char
  | .positional 0 => f.name
  | .positional (n + 1) => f.args.getD n []
  | .count => (toString f.args.length).toList
  | .all => List.intercalate [' '] f.args
  | .status => (toString f.status).toList
  | .process => process
  | .named n => ((f.env (String.ofList n)).getD "").toList

/-- Fields that are finished, and the one that is being built. -/
structure Fields where
  done : List (List Char)
  current : Option (List Char)

namespace Fields

/-- Adds text to the current field. -/
def add (f : Fields) (cs : List Char) : Fields :=
  { f with current := some (f.current.getD [] ++ cs) }

/-- Finishes the current field. -/
def finish (f : Fields) : Fields := ⟨f.done ++ f.current.toList, none⟩

/-- Adds a value that is split at its blanks. -/
def addSplit (f : Fields) (cs : List Char) : Fields :=
  cs.foldl (fun f c => if c = ' ' ∨ c = '\t' ∨ c = '\n' then f.finish else f.add [c]) f

/-- Adds a part of a word. -/
def addPart (frame : Frame) (f : Fields) : Part → Fields
  | .text cs => f.add cs
  | .param p true => f.add (frame.value p)
  | .param p false => f.addSplit (frame.value p)

end Fields

/-- The fields that a word stands for. -/
def expandWord (frame : Frame) (w : Word) : List (List Char) :=
  (w.foldl (Fields.addPart frame) ⟨[], none⟩).finish.done

/-! ## Running -/

/-- The state of a shell: what is left to read, what has been written, the last status. -/
structure State where
  input : Bytes
  output : Bytes
  status : Nat
  outcome : Outcome
  deriving DecidableEq, Repr

/-- Whether the output of a command is seen. -/
def isVisible (c : Command) : Bool :=
  c.redirections.all fun
    | .toFile n _ => n != 1
    | .toStream n _ => n != 1
    | .fromFile _ => true

/-- Whether a command reads the input of the script. -/
def readsInput (c : Command) : Bool :=
  c.redirections.all fun
    | .fromFile _ => false
    | _ => true

/-- What a command of a script does. -/
def runCommand (frame : Frame) (c : Command) (input : Bytes) : Effect :=
  match c.words.flatMap (expandWord frame) with
  | [] => ⟨input, [], 0, .running⟩
  | name :: args =>
    let (name, args, last) :=
      match name, args with
      | ['e', 'x', 'e', 'c'], name :: args => (name, args, true)
      | name, args => (name, args, false)
    let e := command frame.here frame.status process (String.ofList name) args
      (if readsInput c then input else [])
    { e with
      input := if readsInput c then e.input else input
      output := if isVisible c then e.output else []
      outcome := if last then .ended (some e.status) else e.outcome }

/-- What a pipeline does: each command but the first reads what the one before writes. -/
def runCommands (frame : Frame) : List Command → Bytes → Effect
  | [], input => ⟨input, [], 0, .running⟩
  | [c], input => runCommand frame c input
  | c :: cs, input =>
    let first := runCommand frame c input
    let rest := runCommands frame cs first.output
    ⟨first.input, rest.output, rest.status, .running⟩

/-- Whether a pipeline runs after a status. -/
def Condition.holds : Condition → Nat → Bool
  | always, _ => true
  | afterSuccess, status => status == 0
  | afterFailure, status => status != 0

/-- Runs pipelines one after another, until one ends the script. -/
def runPipelines (frame : Frame) : List Pipeline → State → State
  | [], s => s
  | p :: ps, s =>
    if p.condition.holds s.status then
      let e := runCommands { frame with status := s.status } p.commands s.input
      let s := ⟨e.input, s.output ++ e.output, e.status, e.outcome⟩
      if s.outcome = .running then runPipelines frame ps s else s
    else runPipelines frame ps s

/-- The content of bytes. -/
def contentOf (bs : Bytes) : Content :=
  match String.fromUTF8? (ByteArray.mk bs.toArray) with
  | some s => .text s
  | none => .binary

/-- How a run ends that left a shell in a state. -/
def State.run (s : State) : Run :=
  match s.outcome with
  | .running => .ended (some s.status) (contentOf s.output) none
  | .ended code => .ended code (contentOf s.output) none

/-- Runs a script. -/
def runScript (env : Environment) (cwd name : String) (args : List String)
    (script input : String) : Run :=
  match parse script.toList with
  | none => .ended (some usageStatus) (.text "") none
  | some ps =>
    let frame : Frame := ⟨name.toList, cwd.toList, args.map String.toList, env, 0⟩
    (runPipelines frame ps ⟨bytesOf input.toList, [], 0, .running⟩).run

/-! ## Launching -/

/-- The lines that a script of this shell may start with. -/
def interpreterLines : List String :=
  ["#!/bin/sh", "#! /bin/sh", "#!/bin/dash", "#!/usr/bin/env sh", "#!/usr/bin/sh"]

/-- Launches what stands at a path. -/
def launchAt (env : Environment) (cwd : String) (fs : FileSystem) (program : String)
    (args : List String) (input : String) : Run :=
  match fs.entry (FileSystem.locationOf cwd) program with
  | .error why => .notLaunched why
  | .ok .directory => .notLaunched .permissionDenied
  | .ok (.file _ false) => .notLaunched .permissionDenied
  | .ok (.file .binary true) => .notLaunched .notProgram
  | .ok (.file (.text script) true) =>
    let line := String.ofList (script.toList.takeWhile (· ≠ '\n'))
    if interpreterLines.contains line then runScript env cwd program args script input
    else if "#!".toList.isPrefixOf script.toList then .notLaunched .notFound
    else .notLaunched .notProgram

/-- The directories in which programs without a directory are looked for. -/
def searchPath (env : Environment) : List String :=
  (Text.cut ':' ((env "PATH").getD "").toList).map String.ofList

/-- Launches a program. One without a slash in its name is looked for in the directories of
`PATH`. -/
def launch (env : Environment) (cwd : String) (fs : FileSystem) (program : String)
    (args : List String) (input : String) : Run :=
  if program.toList.contains '/' then launchAt env cwd fs program args input
  else
    let here := FileSystem.locationOf cwd
    match ((searchPath env).map (Path.join · program)).find? (fs.isFile here) with
    | some found => launchAt env cwd fs found args input
    | none => .notLaunched .notFound

end ProjectScript.Shell
