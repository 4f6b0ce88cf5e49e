/-!
# Misses

A reference that nothing resolves becomes empty text and leaves a *miss*. `Miss.text` is its
wording.
-/

namespace ProjectScript.Template

/-- The number of function calls that may stand within one another. -/
def callLimit : Nat := 32

/-- Why a reference resolves to nothing. -/
inductive Miss
  /-- The variable is not set. -/
  | unsetVariable (name : String)
  /-- There is no such parameter. -/
  | absentParameter (name : String)
  /-- The path leads nowhere. -/
  | noSuchPath (path : String)
  /-- Neither scope has such a function. -/
  | unknownFunction (name : String)
  /-- The call leaves a required parameter without a value. -/
  | missingRequired (function param : String)
  /-- The call stands within too many others. -/
  | tooDeep (name : String)
  deriving DecidableEq, Repr

/-- The wording of a miss. -/
def Miss.text : Miss → String
  | unsetVariable n => "environment variable '$\x7b" ++ n ++ "\x7d' is not set"
  | absentParameter n => "parameter '@\x7b" ++ n ++ "\x7d' was not supplied"
  | noSuchPath p => "config path '#\x7b" ++ p ++ "\x7d' not found"
  | unknownFunction n => "function '" ++ n ++ "' is not defined"
  | missingRequired f p =>
    "function '" ++ f ++ "' skipped: required parameter '" ++ p ++ "' is missing"
  | tooDeep n =>
    "function '" ++ n ++ "' skipped: more than " ++ toString callLimit ++ " nested calls"

end ProjectScript.Template
