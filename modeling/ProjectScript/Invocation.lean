/-!
# Invocations

What follows the project on the command line: either one raw command line, or a sequence of the
project's commands, each named by a word that starts with a colon and followed by its arguments.
The first word decides. `Invocation.flatten` writes an invocation back as words.
-/

namespace ProjectScript

/-- A command with the arguments that follow it. -/
structure Chunk where
  name : String
  args : List String
  deriving DecidableEq, Repr

/-- The arguments of a command as one text. -/
def Chunk.joinedArgs (c : Chunk) : String := " ".intercalate c.args

/-- What is asked of a project. -/
inductive Invocation
  | commands (chunks : List Chunk)
  | raw (words : List String)
  deriving DecidableEq, Repr

namespace Invocation

/-- The name of a command, for a word that starts with a colon. -/
def commandName? (word : String) : Option String :=
  match word.toList with
  | ':' :: name => some (String.ofList name)
  | _ => none

/-- Groups words into commands. Gives the words before the first command, and the commands. -/
def group : List String → List String × List Chunk
  | [] => ([], [])
  | word :: rest =>
    let (args, chunks) := group rest
    match commandName? word with
    | some name => ([], ⟨name, args⟩ :: chunks)
    | none => (word :: args, chunks)

/-- Reads the words after the project. -/
def ofWords (words : List String) : Invocation :=
  match words with
  | [] => commands []
  | word :: _ =>
    match commandName? word with
    | some _ => commands (group words).2
    | none => raw words

/-- The words of a command. -/
def chunkWords (c : Chunk) : List String := (":" ++ c.name) :: c.args

/-- The words of an invocation. -/
def flatten : Invocation → List String
  | commands chunks => chunks.flatMap chunkWords
  | raw words => words

end Invocation

end ProjectScript
