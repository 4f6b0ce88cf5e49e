import ProjectScript.FileSystem

/-!
# What can be wrong with a path

Each error has a chain of texts: its own wording, which quotes its cause, and then the wording of
the cause. A report of an error joins its chain.
-/

namespace ProjectScript

/-- The report of a chain of texts. -/
def report (chain : List String) : String := ": ".intercalate chain

/-- What stands in a report for the reason why a content does not have the form asked for. -/
def detail : String := "<detail>"

namespace Path

/-- What can be wrong with a path. -/
inductive Error
  /-- There is no home directory. -/
  | homeUnknown
  /-- A path refers to a variable that is not set and has no default. -/
  | unsetVariable (path name : String)
  /-- A directory cannot be made. -/
  | notCreated (dir : String) (why : Failure)
  /-- The empty path cannot be made absolute. -/
  | empty
  deriving DecidableEq, Repr

namespace Error

/-- Why the empty path cannot be made absolute. -/
def emptyCause : String := "cannot make an empty path absolute"

/-- The wording of the cause, if there is one. -/
def cause? : Error → Option String
  | homeUnknown => none
  | unsetVariable .. => none
  | notCreated _ why => some why.text
  | empty => some emptyCause

/-- The wording. -/
def text : Error → String
  | homeUnknown => "Could not find the home directory."
  | unsetVariable path name =>
    "Failed to expand path '" ++ path ++ "': error looking key '" ++ name ++
      "' up: environment variable not found"
  | notCreated dir why => "Could not create directory at '" ++ dir ++ "': " ++ why.text
  | empty => "Could not make '' absolute: " ++ emptyCause

/-- The chain of texts. -/
def chain (e : Error) : List String := e.text :: e.cause?.toList

end Error

end Path

end ProjectScript
