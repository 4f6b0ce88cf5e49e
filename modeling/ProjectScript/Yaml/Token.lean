/-!
# Tokens

The lexical units of a YAML text. Block collections have no brackets of their own; where they
start and end is told by tokens that the indentation gives.
-/

namespace ProjectScript.Yaml

/-- How a scalar is written. -/
inductive Style
  | plain
  | single
  | double
  | literal
  | folded
  deriving DecidableEq, Repr

/-- A lexical unit. -/
inductive Token
  | streamEnd
  | versionDirective (major minor : Nat)
  | tagDirective (handle lead : String)
  | documentStart
  | documentEnd
  | blockSequenceStart
  | blockMappingStart
  | blockEnd
  | flowSequenceStart
  | flowSequenceEnd
  | flowMappingStart
  | flowMappingEnd
  | blockEntry
  | flowEntry
  | key
  | value
  | reference (name : String)
  | anchor (name : String)
  | tag (handle suffix : String)
  | scalar (text : String) (style : Style)
  deriving DecidableEq, Repr

end ProjectScript.Yaml
