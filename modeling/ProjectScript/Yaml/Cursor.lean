/-!
# Reading positions

A place in a YAML text: the characters that remain, and how many characters, lines and columns
have been passed. YAML knows five line breaks; a carriage return with a line feed behind it is
one of them.
-/

namespace ProjectScript.Yaml

/-- A line feed, a carriage return, the next-line character, or a line or paragraph separator. -/
def isBreak (c : Char) : Bool :=
  c = '\n' || c = '\r' || c = '\u0085' || c = '\u2028' || c = '\u2029'

/-- A blank or a tab. -/
def isBlank (c : Char) : Bool := c = ' ' || c = '\t'

/-- A blank, a tab or a line break. -/
def isSpace (c : Char) : Bool := isBlank c || isBreak c

/-- A character of an anchor's or a tag handle's name. -/
def isWordChar (c : Char) : Bool := c.isAlphanum || c = '_' || c = '-'

/-- A place in a text. -/
structure Cursor where
  rest : List Char
  index : Nat
  line : Nat
  column : Nat
  deriving DecidableEq, Repr

namespace Cursor

/-- The start of a text. -/
def start (text : List Char) : Cursor := ⟨text, 0, 0, 0⟩

/-- The place behind the next character. -/
def skip (c : Cursor) : Cursor := ⟨c.rest.tail, c.index + 1, c.line, c.column + 1⟩

/-- The place behind the next `n` characters. -/
def skipN (c : Cursor) : Nat → Cursor
  | 0 => c
  | n + 1 => c.skip.skipN n

/-- The place behind the line break that stands next, if one does. -/
def skipLine (c : Cursor) : Cursor :=
  match c.rest with
  | '\r' :: '\n' :: rest => ⟨rest, c.index + 2, c.line + 1, 0⟩
  | a :: rest => if isBreak a then ⟨rest, c.index + 1, c.line + 1, 0⟩ else c
  | [] => c

/-- The text of the line break that stands next: a line feed for most of them. -/
def lineBreak (c : Cursor) : List Char :=
  match c.rest with
  | a :: _ =>
    if a = '\u2028' ∨ a = '\u2029' then [a] else if isBreak a then ['\n'] else []
  | [] => []

/-- The next characters that `p` accepts. -/
def takeWhile (c : Cursor) (p : Char → Bool) : List Char := c.rest.takeWhile p

/-- The place behind the next characters that `p` accepts, none of them a line break. -/
def skipWhile (c : Cursor) (p : Char → Bool) : Cursor :=
  let n := (c.rest.takeWhile p).length
  ⟨c.rest.dropWhile p, c.index + n, c.line, c.column + n⟩

/-- Whether the text ends here. -/
def atEnd (c : Cursor) : Bool := c.rest.isEmpty

/-- Whether the next character is `a`. -/
def at? (c : Cursor) (a : Char) : Bool := c.rest.head? = some a

/-- Whether the next character satisfies `p`. -/
def sees (c : Cursor) (p : Char → Bool) : Bool := c.rest.head?.any p

/-- Whether a text is empty or starts with a blank, a tab or a line break. -/
def isSpaceOrEnd : List Char → Bool
  | [] => true
  | a :: _ => isSpace a

/-- Whether a text is empty or starts with a line break. -/
def isBreakOrEnd : List Char → Bool
  | [] => true
  | a :: _ => isBreak a

/-- Whether a line starts here with three marks of one kind and a blank or a line break. -/
def atMarks (c : Cursor) (mark : Char) : Bool :=
  c.column = 0 &&
    match c.rest with
    | x :: y :: z :: rest => x = mark && y = mark && z = mark && isSpaceOrEnd rest
    | _ => false

/-- Whether a document ends here: a line of three dashes or three dots. -/
def atDocumentMark (c : Cursor) : Bool := c.atMarks '-' || c.atMarks '.'

end Cursor

end ProjectScript.Yaml
