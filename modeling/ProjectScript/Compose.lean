import ProjectScript.Project
import ProjectScript.Quote
import ProjectScript.Text.Blank

/-!
# Starting services

The command line that starts services of a project's compose file. A word that begins with `@`
stands for the services of a group; an unknown group is passed on as it is written, with a notice.
-/

namespace ProjectScript.Compose

/-- The compose file of a project that names none. -/
def defaultFile : String := "docker-compose.yml"

/-- The compose file of a project. -/
def file (s : Services) : String :=
  let name := Text.trim s.file
  if name.isEmpty then defaultFile else name

/-- The group that a word names. -/
def groupName? (word : String) : Option String :=
  match word.toList with
  | '@' :: name => some (String.ofList name)
  | _ => none

/-- The services that a word stands for. -/
def services (s : Services) (word : String) : List String :=
  match (groupName? word).bind s.groups.get? with
  | some members => members
  | none => [word]

/-- Whether a word names a group that the project does not have. -/
def isUnknownGroup (s : Services) (word : String) : Bool :=
  match groupName? word with
  | some name => !s.groups.contains name
  | none => false

/-- The notice about an unknown group. -/
def unknownGroup (word : String) : String :=
  "Unknown docker group '" ++ word ++ "', passing it through as-is."

/-- The words of the command line. -/
def words (s : Services) (args : List String) : List String :=
  ["docker", "compose", "-f", file s, "up", "-d"] ++ args.flatMap (services s)

/-- The command line. -/
def line (s : Services) (args : List String) : String :=
  " ".intercalate ((words s args).map Quote.posix)

/-- The notices about unknown groups, in the order of the words. -/
def notices (s : Services) (args : List String) : List String :=
  (args.filter (isUnknownGroup s)).map unknownGroup

end ProjectScript.Compose
