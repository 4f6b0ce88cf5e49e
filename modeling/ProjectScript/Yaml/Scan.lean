import ProjectScript.Yaml.Indicator
import ProjectScript.Yaml.ScalarText

/-!
# From text to tokens

Whether a scalar is a key shows only at the colon behind it. So the place where a key may start is
remembered as a *candidate*, the tokens from there on are held back, and the colon puts the
missing key token in front of them. A candidate holds for one line and 1024 characters. One that
stands at the indentation of the block around it must become a key.

`tokens` gives the tokens of a text, and whether the text was read to its end; the tokens held
back when an error stops the reading are not given.
-/

namespace ProjectScript.Yaml

/-- A place where a key may have started. -/
structure Candidate where
  required : Bool
  /-- The number of tokens before it. -/
  token : Nat
  index : Nat
  line : Nat
  column : Nat
  deriving DecidableEq, Repr

/-- The state of a reading. -/
structure Scanner where
  cursor : Cursor
  /-- The column of the block collection around the place, `-1` outside of any. -/
  indent : Int
  /-- The columns of the block collections around that one. -/
  outer : List Int
  /-- The candidate of each flow collection around the place, innermost first, and last the one
  outside flow collections. -/
  candidates : List (Option Candidate)
  /-- Whether a key may start here. -/
  keyAllowed : Bool
  /-- The tokens held back. -/
  held : List Token
  /-- The count of tokens given away. -/
  given : Nat

namespace Scanner

/-- The state at the start of a text. A mark for the byte order is skipped. -/
def start (text : List Char) : Scanner where
  cursor :=
    match text with
    | '\ufeff' :: rest => .start rest
    | _ => .start text
  indent := -1
  outer := []
  candidates := [none]
  keyAllowed := true
  held := []
  given := 0

/-- Whether the place is inside a flow collection. -/
def inFlow (s : Scanner) : Bool := 1 < s.candidates.length

/-- Holds a token back. -/
def hold (s : Scanner) (t : Token) : Scanner := { s with held := s.held ++ [t] }

/-- Puts a token in front of the token with the given number. -/
def insertAt (s : Scanner) (n : Nat) (t : Token) : Scanner :=
  { s with held := s.held.take (n - s.given) ++ t :: s.held.drop (n - s.given) }

/-- Whether a candidate has become too old to be a key. -/
def isStale (c : Cursor) (k : Candidate) : Bool := k.line < c.line || k.index + 1024 < c.index

/-- Drops the candidates that are too old; none if one of them is required. -/
def dropStale (s : Scanner) : Option Scanner :=
  if s.candidates.any (·.any fun k => isStale s.cursor k && k.required) then none
  else some { s with candidates := s.candidates.map (·.filter fun k => !isStale s.cursor k) }

/-- Drops the candidate of this level; none if it is required. -/
def dropCandidate (s : Scanner) : Option Scanner :=
  match s.candidates with
  | some k :: rest => if k.required then none else some { s with candidates := none :: rest }
  | _ => some s

/-- Makes this place the candidate of its level, if a key may start here. -/
def saveCandidate (s : Scanner) : Option Scanner :=
  if s.keyAllowed then do
    let c := s.cursor
    let required := !s.inFlow && s.indent == (c.column : Int)
    let k : Candidate := ⟨required, s.given + s.held.length, c.index, c.line, c.column⟩
    let s ← s.dropCandidate
    return { s with candidates := some k :: s.candidates.tail }
  else some s

/-- Opens a block collection at a column that is deeper than the one around it. Its token goes
before the token with the given number, or last. -/
def openBlock (s : Scanner) (column : Nat) (before : Option Nat) (t : Token) : Scanner :=
  if s.inFlow ∨ (column : Int) ≤ s.indent then s
  else
    let s' := { s with indent := column, outer := s.indent :: s.outer }
    match before with
    | some n => s'.insertAt n t
    | none => s'.hold t

/-- Closes the block collections that are deeper than a column. -/
def closeBlocks (s : Scanner) (column : Int) : Scanner :=
  if s.inFlow then s else go s.indent s.outer s.held
where
  go (indent : Int) : List Int → List Token → Scanner
    | outer, held =>
      if indent ≤ column then { s with indent := indent, outer := outer, held := held }
      else
        match outer with
        | [] => { s with indent := -1, outer := [], held := held ++ [.blockEnd] }
        | i :: rest => go i rest (held ++ [.blockEnd])

/-- Passes over blanks, comments and line breaks. Outside flow collections a tab is not passed
over where a key may start, and after a line break a key may start. -/
def skipSpace (flow : Bool) : (fuel : Nat) → Bool → Cursor → Bool × Cursor
  | 0, allowed, c => (allowed, c)
  | fuel + 1, allowed, c =>
    match c.rest with
    | [] => (allowed, c)
    | a :: _ =>
      if a = ' ' ∨ (a = '\t' ∧ (flow ∨ !allowed)) ∨ (a = '\ufeff' ∧ c.index = 0) then
        skipSpace flow fuel allowed c.skip
      else if a = '#' then skipSpace flow fuel allowed (c.skipWhile (!isBreak ·))
      else if isBreak a then skipSpace flow fuel (allowed || !flow) c.skipLine
      else (allowed, c)

/-- Reads a token of one character. -/
def mark (s : Scanner) (t : Token) : Scanner := { s with cursor := s.cursor.skip }.hold t

/-- The end of the text. -/
def readEnd (s : Scanner) : Option Scanner := do
  let s ← (s.closeBlocks (-1)).dropCandidate
  return { s with keyAllowed := false }.hold .streamEnd

/-- A directive. -/
def readDirective (s : Scanner) : Option Scanner := do
  let s ← (s.closeBlocks (-1)).dropCandidate
  let (t, c) ← directive s.cursor
  return { s with cursor := c, keyAllowed := false }.hold t

/-- The mark that starts or ends a document. -/
def readDocumentMark (s : Scanner) (t : Token) : Option Scanner := do
  let s ← (s.closeBlocks (-1)).dropCandidate
  return { s with cursor := s.cursor.skipN 3, keyAllowed := false }.hold t

/-- The bracket that opens a flow collection. -/
def readOpen (s : Scanner) (t : Token) : Option Scanner := do
  let s ← s.saveCandidate
  return { s with candidates := none :: s.candidates, keyAllowed := true }.mark t

/-- The bracket that closes a flow collection. -/
def readClose (s : Scanner) (t : Token) : Option Scanner := do
  let s ← s.dropCandidate
  let candidates := if s.inFlow then s.candidates.tail else s.candidates
  return { s with candidates := candidates, keyAllowed := false }.mark t

/-- The comma between the items of a flow collection. -/
def readComma (s : Scanner) : Option Scanner := do
  let s ← s.dropCandidate
  return { s with keyAllowed := true }.mark .flowEntry

/-- The dash before an item of a block sequence. -/
def readDash (s : Scanner) : Option Scanner := do
  if !s.inFlow ∧ !s.keyAllowed then none
  else
    let s ← (s.openBlock s.cursor.column none .blockSequenceStart).dropCandidate
    return { s with keyAllowed := true }.mark .blockEntry

/-- The question mark before a key. -/
def readKey (s : Scanner) : Option Scanner := do
  if !s.inFlow ∧ !s.keyAllowed then none
  else
    let s ← (s.openBlock s.cursor.column none .blockMappingStart).dropCandidate
    return { s with keyAllowed := !s.inFlow }.mark .key

/-- The colon before a value. A candidate becomes a key. -/
def readColon (s : Scanner) : Option Scanner :=
  match s.candidates with
  | some k :: rest =>
    let s := (s.insertAt k.token .key).openBlock k.column (some k.token) .blockMappingStart
    some ({ s with candidates := none :: rest, keyAllowed := false }.mark .value)
  | _ =>
    if !s.inFlow ∧ !s.keyAllowed then none
    else
      let s := s.openBlock s.cursor.column none .blockMappingStart
      some ({ s with keyAllowed := !s.inFlow }.mark .value)

/-- An anchor or an alias. -/
def readAnchor (s : Scanner) (t : String → Token) : Option Scanner := do
  let s ← s.saveCandidate
  let (name, c) ← anchorName s.cursor.skip
  return { s with cursor := c, keyAllowed := false }.hold (t name)

/-- A tag. -/
def readTag (s : Scanner) : Option Scanner := do
  let s ← s.saveCandidate
  let (handle, suffix, c) ← tag s.inFlow s.cursor
  return { s with cursor := c, keyAllowed := false }.hold (.tag handle suffix)

/-- A block scalar. -/
def readBlock (s : Scanner) (literal : Bool) : Option Scanner := do
  let s ← s.dropCandidate
  let (text, c) ← block literal s.indent s.cursor
  return { s with cursor := c, keyAllowed := true }.hold
    (.scalar (String.ofList text) (if literal then .literal else .folded))

/-- A quoted scalar. -/
def readQuoted (s : Scanner) (double : Bool) : Option Scanner := do
  let s ← s.saveCandidate
  let (text, c) ← quoted double s.cursor
  return { s with cursor := c, keyAllowed := false }.hold
    (.scalar (String.ofList text) (if double then .double else .single))

/-- A plain scalar. Behind a line break a key may start. -/
def readPlain (s : Scanner) : Option Scanner := do
  let s ← s.saveCandidate
  let p ← plain s.inFlow (s.indent + 1) (s.cursor.rest.length + 1) .none [] s.cursor
  return { s with cursor := p.cursor, keyAllowed := p.brokenAfter }.hold
    (.scalar (String.ofList p.text) .plain)

/-- The characters that no plain scalar starts with, unless what follows allows it. -/
def isIndicator (c : Char) : Bool := "-?:,[]\x7b\x7d#&*!|>'\"%@\x60".toList.contains c

/-- Whether a plain scalar starts with the given character. -/
def startsPlain (flow : Bool) (a : Char) (rest : List Char) : Bool :=
  (!isSpace a && !isIndicator a) || (a == '-' && !rest.head?.any isBlank) ||
    (!flow && (a == '?' || a == ':') && !Cursor.isSpaceOrEnd rest)

/-- Reads the next token, with the tokens that the indentation gives before it. -/
def read (s : Scanner) : Option Scanner := do
  let (allowed, c) := skipSpace s.inFlow (s.cursor.rest.length + 1) s.keyAllowed s.cursor
  let s ← { s with cursor := c, keyAllowed := allowed }.dropStale
  let s := s.closeBlocks c.column
  match c.rest with
  | [] => s.readEnd
  | a :: rest =>
    let flow := s.inFlow
    let spaced := Cursor.isSpaceOrEnd rest
    if c.column = 0 ∧ a = '%' then s.readDirective
    else if c.atMarks '-' then s.readDocumentMark .documentStart
    else if c.atMarks '.' then s.readDocumentMark .documentEnd
    else if a = '[' then s.readOpen .flowSequenceStart
    else if a = '\x7b' then s.readOpen .flowMappingStart
    else if a = ']' then s.readClose .flowSequenceEnd
    else if a = '\x7d' then s.readClose .flowMappingEnd
    else if a = ',' then s.readComma
    else if a = '-' ∧ spaced then s.readDash
    else if a = '?' ∧ (flow ∨ spaced) then s.readKey
    else if a = ':' ∧ (flow ∨ spaced) then s.readColon
    else if a = '*' then s.readAnchor .reference
    else if a = '&' then s.readAnchor .anchor
    else if a = '!' then s.readTag
    else if a = '|' ∧ !flow then s.readBlock true
    else if a = '>' ∧ !flow then s.readBlock false
    else if a = '\'' then s.readQuoted false
    else if a = '"' then s.readQuoted true
    else if startsPlain flow a rest then s.readPlain
    else none

/-- Whether the first token held back may still turn out to be a key. -/
def headIsOpen (s : Scanner) : Bool := s.candidates.any (·.any (·.token == s.given))

/-- The tokens to come, and whether the reading comes to the end of the text. -/
def run : (fuel : Nat) → Scanner → List Token × Bool
  | 0, _ => ([], false)
  | fuel + 1, s =>
    match s.held with
    | [] =>
      match s.read with
      | some s => run fuel s
      | none => ([], false)
    | t :: held =>
      match s.dropStale with
      | none => ([], false)
      | some s =>
        if s.headIsOpen then
          match s.read with
          | some s => run fuel s
          | none => ([], false)
        else if t = .streamEnd then ([t], true)
        else
          let (ts, ok) := run fuel { s with held := held, given := s.given + 1 }
          (t :: ts, ok)

end Scanner

/-- The characters that may stand in a text: the tab, the breaks and what can be printed. -/
def isPrintable (c : Char) : Bool :=
  let n := c.toNat
  c = '\t' || c = '\n' || c = '\r' || (0x20 ≤ n && n ≤ 0x7E) || n = 0x85 ||
    (0xA0 ≤ n && n ≤ 0xD7FF) || (0xE000 ≤ n && n ≤ 0xFFFD) || 0x10000 ≤ n

/-- The tokens of a text, and whether it was read to its end. -/
def tokens (text : List Char) : List Token × Bool :=
  if text.all isPrintable then Scanner.run (8 * text.length + 16) (.start text) else ([], false)

end ProjectScript.Yaml
