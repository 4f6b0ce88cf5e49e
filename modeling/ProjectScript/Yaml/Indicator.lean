import ProjectScript.Json.Read
import ProjectScript.Yaml.Cursor
import ProjectScript.Yaml.Token

/-!
# Anchors, tags and directives

The tokens that start with an indicator and go on with a name: anchors and aliases, tags, and the
directives before a document.
-/

namespace ProjectScript.Yaml

/-- Reads the name of an anchor or an alias behind its indicator. -/
def anchorName (c : Cursor) : Option (String × Cursor) :=
  let name := c.takeWhile isWordChar
  let c := c.skipWhile isWordChar
  let follows :=
    match c.rest with
    | [] => true
    | a :: _ => isSpace a || "?:,]\x7d%@\x60".toList.contains a
  if name.isEmpty ∨ !follows then none else some (String.ofList name, c)

/-- A character of a tag that stands for itself or starts an escape. -/
def isUriChar (verbatim : Bool) (c : Char) : Bool :=
  isWordChar c || ";/?:@&=+$.%!~*'()".toList.contains c || (verbatim && ",[]".toList.contains c)

/-- The value of a byte written as a percent sign and two digits. -/
def uriByte? (cs : List Char) : Option (Nat × List Char) :=
  match cs with
  | '%' :: a :: b :: rest => do return ((← Json.hexValue? a) * 16 + (← Json.hexValue? b), rest)
  | _ => none

/-- Reads `n` continuation bytes of a character written in escapes. -/
def uriTail : (n : Nat) → Nat → List Char → Option (Nat × List Char)
  | 0, v, cs => some (v, cs)
  | n + 1, v, cs => do
    let (b, cs) ← uriByte? cs
    if b / 64 = 2 then uriTail n (v * 64 + b % 64) cs else none

/-- Reads a character written in escapes, one for each of its bytes. -/
def uriEscape (cs : List Char) : Option (Char × List Char) := do
  let (b, rest) ← uriByte? cs
  if b < 0x80 then return (Char.ofNat b, rest)
  else
    let (n, v) ←
      if b / 32 = 6 then some (1, b % 32)
      else if b / 16 = 14 then some (2, b % 16)
      else if b / 8 = 30 then some (3, b % 8)
      else none
    let (v, rest) ← uriTail n v rest
    return (Char.ofNat v, rest)

/-- Reads the characters of a tag. -/
def uriText (verbatim : Bool) : (fuel : Nat) → List Char → Cursor → Option (List Char × Cursor)
  | 0, _, _ => none
  | fuel + 1, text, c =>
    match c.rest with
    | [] => some (text, c)
    | a :: _ =>
      if a = '%' then do
        let (e, rest) ← uriEscape c.rest
        uriText verbatim fuel (text ++ [e]) (c.skipN (c.rest.length - rest.length))
      else if isUriChar verbatim a then uriText verbatim fuel (text ++ [a]) c.skip
      else some (text, c)

/-- Reads the characters of a tag from its start. -/
def uri (verbatim : Bool) (c : Cursor) : Option (List Char × Cursor) :=
  uriText verbatim (c.rest.length + 1) [] c

/-- Reads a tag handle: an exclamation mark, a name and perhaps another mark. -/
def tagHandle (c : Cursor) : Option (List Char × Cursor) :=
  if c.at? '!' then
    let c := c.skip
    let name := c.takeWhile isWordChar
    let c := c.skipWhile isWordChar
    if c.at? '!' then some ('!' :: (name ++ ['!']), c.skip) else some ('!' :: name, c)
  else none

/-- Reads a tag: its handle and its suffix. A tag in angles has an empty handle, and so has the
tag that is a lone exclamation mark. -/
def tag (flow : Bool) (c : Cursor) : Option (String × String × Cursor) := do
  let (handle, suffix, c) ←
    if c.skip.at? '<' then do
      let (suffix, c) ← uri true (c.skipN 2)
      if suffix.isEmpty ∨ !c.at? '>' then none else some ([], suffix, c.skip)
    else do
      let (handle, c) ← tagHandle c
      if 1 < handle.length ∧ handle.getLast? = some '!' then
        let (suffix, c) ← uri false c
        if suffix.isEmpty then none else some (handle, suffix, c)
      else
        let (suffix, c) ← uri false c
        let suffix := handle.drop 1 ++ suffix
        some (if suffix.isEmpty then ([], ['!'], c) else (['!'], suffix, c))
  if Cursor.isSpaceOrEnd c.rest ∨ (flow ∧ c.at? ',') then
    return (String.ofList handle, String.ofList suffix, c)
  else none

/-- Reads a number of a version. -/
def versionNumber (c : Cursor) : Option (Nat × Cursor) :=
  let ds := c.takeWhile Char.isDigit
  if ds.isEmpty ∨ 9 < ds.length then none
  else some (Json.digitsValue ds, c.skipWhile Char.isDigit)

/-- Reads a directive and the rest of its line. -/
def directive (c : Cursor) : Option (Token × Cursor) := do
  let c := c.skip
  let name := c.takeWhile isWordChar
  let c := c.skipWhile isWordChar
  if name.isEmpty ∨ !Cursor.isSpaceOrEnd c.rest then none
  else
    let c := c.skipWhile isBlank
    let (token, c) ←
      if name = "YAML".toList then do
        let (major, c) ← versionNumber c
        if c.at? '.' then
          let (minor, c) ← versionNumber c.skip
          some (Token.versionDirective major minor, c)
        else none
      else if name = "TAG".toList then do
        let (handle, c) ← tagHandle c
        if handle.length ≠ 1 ∧ handle.getLast? ≠ some '!' then none
        else if !c.sees isBlank then none
        else
          let (lead, c) ← uri true (c.skipWhile isBlank)
          if lead.isEmpty ∨ !Cursor.isSpaceOrEnd c.rest then none
          else some (Token.tagDirective (String.ofList handle) (String.ofList lead), c)
      else none
    let c := c.skipWhile isBlank
    let c := if c.at? '#' then c.skipWhile (!isBreak ·) else c
    if Cursor.isBreakOrEnd c.rest then return (token, c.skipLine) else none

end ProjectScript.Yaml
