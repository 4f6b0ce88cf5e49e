import ProjectScript.Json.Read
import ProjectScript.Yaml.Cursor

/-!
# Scalars in a text

How the five kinds of scalars are read. Line breaks inside a scalar are folded: a single break
becomes a blank, and of several breaks the first one is dropped. A literal block keeps its breaks.

* `plain`: a scalar without marks around it;
* `quoted`: a scalar in single or double quotes;
* `block`: a literal or a folded block.

Each gives none where the text breaks the rules of YAML.
-/

namespace ProjectScript.Yaml

/-- The blanks and line breaks between two parts of a scalar. -/
structure Gap where
  /-- The blanks before the first break. -/
  blanks : List Char
  /-- Whether a break has been met. -/
  broken : Bool
  /-- The text of the first break. -/
  first : List Char
  /-- The text of the breaks that follow. -/
  others : List Char
  deriving DecidableEq, Repr

namespace Gap

/-- Nothing between two parts. -/
def none : Gap := ⟨[], false, [], []⟩

/-- What a gap stands for: its blanks, or its breaks folded. -/
def fold (g : Gap) : List Char :=
  if g.broken then
    if g.first = ['\n'] then if g.others.isEmpty then [' '] else g.others
    else g.first ++ g.others
  else g.blanks

/-- Reads the rest of a gap. A tab must not stand in the indentation of a line, which is the part
before column `indent`. -/
def read (indent : Int) : (fuel : Nat) → Gap → Cursor → Option (Gap × Cursor)
  | 0, _, _ => .none
  | fuel + 1, g, c =>
    match c.rest with
    | [] => some (g, c)
    | a :: _ =>
      if isBlank a then
        if g.broken then
          if a = '\t' ∧ (c.column : Int) < indent then .none else read indent fuel g c.skip
        else read indent fuel { g with blanks := g.blanks ++ [a] } c.skip
      else if isBreak a then
        if g.broken then
          read indent fuel { g with others := g.others ++ c.lineBreak } c.skipLine
        else read indent fuel ⟨[], true, c.lineBreak, []⟩ c.skipLine
      else some (g, c)

end Gap

/-! ## Plain scalars -/

/-- A bracket, a brace or a comma. -/
def isFlowMark (c : Char) : Bool := c = ',' || c = '[' || c = ']' || c = '\x7b' || c = '\x7d'

/-- Reads a run of a plain scalar without blanks. A colon ends it when a blank follows, and in a
flow collection a comma or bracket does; there a colon right before one of these is an error. -/
def plainRun (flow : Bool) : List Char → Option (List Char)
  | [] => some []
  | a :: rest =>
    if isSpace a then some []
    else if flow ∧ a = ':' ∧ rest.head?.any (fun b => isFlowMark b || b = '?') then none
    else if a = ':' ∧ Cursor.isSpaceOrEnd rest then some []
    else if flow ∧ isFlowMark a then some []
    else (plainRun flow rest).map (a :: ·)

/-- A plain scalar as read: its text, whether a line break followed it, and the place behind. -/
structure Plain where
  text : List Char
  brokenAfter : Bool
  cursor : Cursor

/-- Reads a plain scalar. `indent` is the least column that a line of it may start at, which
counts outside flow collections only. -/
def plain (flow : Bool) (indent : Int) : (fuel : Nat) → Gap → List Char → Cursor → Option Plain
  | 0, _, _, _ => none
  | fuel + 1, gap, text, c =>
    if c.atDocumentMark ∨ c.at? '#' then some ⟨text, gap.broken, c⟩
    else do
      let run ← plainRun flow c.rest
      let text' := if run.isEmpty then text else text ++ gap.fold ++ run
      let gap' := if run.isEmpty then gap else .none
      let c := c.skipN run.length
      if !c.sees isSpace then return ⟨text', gap'.broken, c⟩
      else
        let (gap', c) ← Gap.read indent (c.rest.length + 1) gap' c
        if !flow ∧ (c.column : Int) < indent then return ⟨text', gap'.broken, c⟩
        else plain flow indent fuel gap' text' c

/-! ## Quoted scalars -/

/-- The character that an escape with a single letter stands for. -/
def escape? (c : Char) : Option Char :=
  match c with
  | '0' => some '\x00'
  | 'a' => some '\x07'
  | 'b' => some '\x08'
  | 't' => some '\t'
  | '\t' => some '\t'
  | 'n' => some '\n'
  | 'v' => some '\x0b'
  | 'f' => some '\x0c'
  | 'r' => some '\r'
  | 'e' => some '\x1b'
  | ' ' => some ' '
  | '"' => some '"'
  | '/' => some '/'
  | '\\' => some '\\'
  | 'N' => some '\u0085'
  | '_' => some '\u00a0'
  | 'L' => some '\u2028'
  | 'P' => some '\u2029'
  | _ => none

/-- The count of hexadecimal digits behind an escape's letter. -/
def escapeWidth? (c : Char) : Option Nat :=
  match c with
  | 'x' => some 2
  | 'u' => some 4
  | 'U' => some 8
  | _ => none

/-- The value of exactly `n` hexadecimal digits at the front of a text. -/
def hexValue? (n : Nat) (cs : List Char) : Option Nat :=
  if cs.length < n then none
  else (cs.take n).foldl (fun v c => do return (← v) * 16 + (← Json.hexValue? c)) (some 0)

/-- A run of a quoted scalar: its text, whether it ends with an escaped line break, and the place
behind. -/
structure QuotedRun where
  text : List Char
  joined : Bool
  cursor : Cursor

/-- Reads a run of a quoted scalar up to a blank, the closing quote or the end of the text. -/
def quotedRun (double : Bool) : (fuel : Nat) → List Char → Cursor → Option QuotedRun
  | 0, _, _ => none
  | fuel + 1, text, c =>
    match c.rest with
    | [] => some ⟨text, false, c⟩
    | a :: rest =>
      if isSpace a then some ⟨text, false, c⟩
      else if !double ∧ a = '\'' ∧ rest.head? = some '\'' then
        quotedRun double fuel (text ++ ['\'']) (c.skipN 2)
      else if a = (if double then '"' else '\'') then some ⟨text, false, c⟩
      else if double ∧ a = '\\' then
        match rest with
        | [] => none
        | b :: digits =>
          if isBreak b then some ⟨text, true, c.skip.skipLine⟩
          else
            match escape? b, escapeWidth? b with
            | some e, _ => quotedRun double fuel (text ++ [e]) (c.skipN 2)
            | none, some n => do
              let v ← hexValue? n digits
              if (0xD800 ≤ v ∧ v ≤ 0xDFFF) ∨ 0x10FFFF < v then none
              else quotedRun double fuel (text ++ [Char.ofNat v]) (c.skipN (2 + n))
            | none, none => none
      else quotedRun double fuel (text ++ [a]) c.skip

/-- Reads a quoted scalar behind its opening quote. -/
def quotedBody (double : Bool) : (fuel : Nat) → List Char → Cursor → Option (List Char × Cursor)
  | 0, _, _ => none
  | fuel + 1, text, c =>
    if c.atDocumentMark ∨ c.atEnd then none
    else do
      let run ← quotedRun double (c.rest.length + 1) text c
      let quote := if double then '"' else '\''
      if run.cursor.at? quote then return (run.text, run.cursor.skip)
      else
        let gap : Gap := ⟨[], run.joined, [], []⟩
        let (gap, c) ← gap.read (-1) (run.cursor.rest.length + 1) run.cursor
        quotedBody double fuel (run.text ++ gap.fold) c

/-- Reads a quoted scalar. -/
def quoted (double : Bool) (c : Cursor) : Option (List Char × Cursor) :=
  quotedBody double (c.rest.length + 1) [] c.skip

/-! ## Block scalars -/

/-- What becomes of the line breaks at the end of a block. -/
inductive Chomping
  | strip
  | clip
  | keep
  deriving DecidableEq, Repr

/-- Reads the marks behind the bar or angle of a block: its chomping and its indentation. -/
def blockHeader (c : Cursor) : Option (Chomping × Option Nat × Cursor) :=
  let chomp (c : Cursor) : Chomping × Cursor :=
    if c.at? '+' then (.keep, c.skip) else if c.at? '-' then (.strip, c.skip) else (.clip, c)
  let digit (c : Cursor) : Option (Option Nat × Cursor) :=
    match c.rest with
    | a :: _ =>
      if a = '0' then none
      else if a.isDigit then some (some (Json.digitValue a), c.skip)
      else some (none, c)
    | [] => some (none, c)
  let (chomping, c') := chomp c
  if c'.rest.length < c.rest.length then do
    let (n, c) ← digit c'
    return (chomping, n, c)
  else do
    let (n, c) ← digit c
    if n.isSome then
      let (chomping, c) := chomp c
      return (chomping, n, c)
    else return (.clip, n, c)

/-- Reads the line breaks and the indentation before a line of a block. While the indentation is
not known, all blanks count for it, and the greatest column met is given back. A tab must not
stand in the indentation. -/
def blockBreaks (indent : Option Nat) :
    (fuel : Nat) → (widest : Nat) → List Char → Cursor → Option (List Char × Nat × Cursor)
  | 0, _, _, _ => none
  | fuel + 1, widest, breaks, c =>
    let inside := indent.all (c.column < ·)
    match c.rest with
    | a :: _ =>
      if inside ∧ a = ' ' then blockBreaks indent fuel widest breaks c.skip
      else
        let widest := max widest c.column
        if inside ∧ a = '\t' then none
        else if isBreak a then
          blockBreaks indent fuel widest (breaks ++ c.lineBreak) c.skipLine
        else some (breaks, widest, c)
    | [] => some (breaks, max widest c.column, c)

/-- The text of a block so far: its lines, the break behind the last line, the breaks that follow
it, and whether the last line started with a blank. -/
structure BlockText where
  text : List Char
  last : List Char
  breaks : List Char
  blankStart : Bool

/-- Reads the lines of a block at its indentation. -/
def blockLines (literal : Bool) (indent : Nat) :
    (fuel : Nat) → BlockText → Cursor → Option (BlockText × Cursor)
  | 0, _, _ => none
  | fuel + 1, b, c =>
    if c.column = indent ∧ !c.atEnd then
      let blank := c.sees isBlank
      let glue :=
        if !literal ∧ b.last = ['\n'] ∧ !b.blankStart ∧ !blank then
          if b.breaks.isEmpty then [' '] else b.breaks
        else b.last ++ b.breaks
      let line := c.takeWhile (!isBreak ·)
      let c := c.skipWhile (!isBreak ·)
      let last := c.lineBreak
      let c := c.skipLine
      (blockBreaks (some indent) (c.rest.length + 1) 0 [] c).bind fun (breaks, _, c) =>
        blockLines literal indent fuel ⟨b.text ++ glue ++ line, last, breaks, blank⟩ c
    else some (b, c)

/-- Reads a block behind its bar or angle; `parent` is the indentation of the block around it. -/
def block (literal : Bool) (parent : Int) (c : Cursor) : Option (List Char × Cursor) := do
  let (chomping, increment, c) ← blockHeader c.skip
  let c := c.skipWhile isBlank
  let c := if c.at? '#' then c.skipWhile (!isBreak ·) else c
  if !Cursor.isBreakOrEnd c.rest then none
  else
    let c := c.skipLine
    let known := increment.map fun n => (if 0 ≤ parent then parent + n else n).toNat
    let (breaks, widest, c) ← blockBreaks known (c.rest.length + 1) 0 [] c
    let indent := known.getD (max widest (max (parent + 1) 1).toNat)
    let (b, c) ← blockLines literal indent (c.rest.length + 1) ⟨[], [], breaks, false⟩ c
    let text :=
      match chomping with
      | .strip => b.text
      | .clip => b.text ++ b.last
      | .keep => b.text ++ b.last ++ b.breaks
    return (text, c)

end ProjectScript.Yaml
