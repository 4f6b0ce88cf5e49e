import ProjectScript.Table
import ProjectScript.Text.Blank

/-!
# Arguments of a call

The text between the parentheses of a function call, such as `version=21, quiet, msg='it''s'`,
binds parameters to values.

* `split`: the items between the commas that stand outside quotes and after no backslash;
* `unquote`: the value that an item writes, bare or in quotes of either kind;
* `parse`: the bindings; a name without a value is a flag, and the last binding of a name wins.
-/

namespace ProjectScript.CallArguments

/-- Where a reader of an argument text stands: inside quotes, and behind a backslash. -/
structure Place where
  single : Bool
  double : Bool
  escaped : Bool
  deriving DecidableEq, Repr

namespace Place

/-- Outside quotes, with no backslash before. -/
def start : Place := ⟨false, false, false⟩

/-- Whether a character separates two items here. -/
def separates (p : Place) (c : Char) : Bool :=
  c == ',' && !p.single && !p.double && !p.escaped

/-- The place after a character. A backslash has no force in single quotes. -/
def next (p : Place) (c : Char) : Place :=
  if p.escaped then { p with escaped := false }
  else if c = '\\' ∧ !p.single then { p with escaped := true }
  else if c = '\'' ∧ !p.double then { p with single := !p.single }
  else if c = '"' ∧ !p.single then { p with double := !p.double }
  else p

/-- The place after a text. A separator leaves it as it is. -/
def after (p : Place) (s : List Char) : Place := s.foldl next p

end Place

/-- Puts a character at the front of the first item. -/
def consFirst (c : Char) : List (List Char) → List (List Char)
  | [] => [[c]]
  | item :: items => (c :: item) :: items

/-- Cuts a text at its separators. -/
def split (p : Place) : List Char → List (List Char)
  | [] => [[]]
  | c :: rest => if p.separates c then [] :: split p rest else consFirst c (split (p.next c) rest)

/-- Drops each backslash that has a character behind it. -/
def unescape : List Char → List Char
  | [] => []
  | ['\\'] => ['\\']
  | '\\' :: c :: rest => c :: unescape rest
  | c :: rest => c :: unescape rest

/-- Writes each pair of single quotes as one. -/
def undouble : List Char → List Char
  | [] => []
  | '\'' :: '\'' :: rest => '\'' :: undouble rest
  | c :: rest => c :: undouble rest

/-- The text between two marks of the given kind that open and close a text. -/
def between? (mark : Char) (s : List Char) : Option (List Char) :=
  match s with
  | c :: rest => if c = mark ∧ rest.getLast? = some mark then some rest.dropLast else none
  | [] => none

/-- The value that a text writes. -/
def unquote (s : List Char) : List Char :=
  match between? '\'' s with
  | some inner => undouble inner
  | none =>
    match between? '"' s with
    | some inner => unescape inner
    | none => unescape s

/-- The binding that an item makes, if it makes one. -/
def binding? (item : List Char) : Option (String × String) :=
  let item := Text.trimChars item
  if item.isEmpty then none
  else
    match item.dropWhile (· ≠ '=') with
    | [] => some (String.ofList (unescape item), "true")
    | _ :: value =>
      let key := Text.trimChars (item.takeWhile (· ≠ '='))
      if key.isEmpty then none
      else some (String.ofList key, String.ofList (unquote (Text.trimChars value)))

/-- The bindings of an argument text. -/
def parse (text : String) : Table String :=
  Table.ofList ((split .start text.toList).filterMap binding?)

end ProjectScript.CallArguments
