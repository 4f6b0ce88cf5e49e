import ProjectScript.Table
import ProjectScript.Toml.Scalar

/-!
# Reading TOML

A text is a sequence of lines: headers of tables, and bindings of keys in the table that the last
header names. A table may be defined once. What a header names on its way is there without being
defined, and may be defined later; what a dotted key makes is defined by the keys alone.

`Toml.parse` gives the tables of a text in the order of their names.
-/

namespace ProjectScript

/-- A TOML value. -/
inductive Toml
  | str (s : String)
  | num (n : Toml.Numeral)
  | bool (b : Bool)
  | datetime (s : String)
  | arr (items : List Toml)
  | table (fields : List (String × Toml))
  deriving Repr

namespace Toml

/-- How a table came about. -/
inductive Origin
  /-- A header names it on its way to another table. -/
  | implicit
  /-- A header defines it, or it is the root. -/
  | header
  /-- A dotted key makes it. -/
  | dotted
  deriving DecidableEq, Repr

/-- What a key is bound to while a text is read. -/
inductive Item
  | value (v : Toml)
  | table (origin : Origin) (fields : List (String × Item))
  | tables (items : List (List (String × Item)))

/-- The fields of a table, and how it came about. -/
abbrev Fields := Origin × List (String × Item)

/-- Binds a key in place, or at the end. -/
def setField (k : String) (i : Item) : List (String × Item) → List (String × Item)
  | [] => [(k, i)]
  | (k', i') :: rest => if k = k' then (k, i) :: rest else (k', i') :: setField k i rest

/-- Changes the table at the end of a path. A dotted key does not pass through a table that a
header defines, and makes dotted tables; a header makes implicit ones. Of an array of tables the
last one is meant. -/
def descend (dotted : Bool) (change : Fields → Option Fields) : List String → Fields → Option Fields
  | [], t => change t
  | k :: ks, (origin, fields) =>
    match fields.lookup k with
    | none => do
      let (o, fs) ← descend dotted change ks (if dotted then .dotted else .implicit, [])
      return (origin, setField k (.table o fs) fields)
    | some (.value _) => none
    | some (.table o fs) =>
      if dotted ∧ o = .header then none
      else do
        let (o, fs) ← descend dotted change ks (o, fs)
        return (origin, setField k (.table o fs) fields)
    | some (.tables items) => do
      let (_, fs) ← descend dotted change ks (.header, items.getLast?.getD [])
      return (origin, setField k (.tables (items.dropLast ++ [fs])) fields)

/-- Binds a key that is not bound yet. -/
def bindNew (k : String) (i : Item) : Fields → Option Fields
  | (origin, fields) =>
    match fields.lookup k with
    | none => some (origin, fields ++ [(k, i)])
    | some _ => none

/-- Binds a dotted key in a table. The table it ends in must be one that dotted keys make. -/
def bindPath (path : List String) (v : Toml) (t : Fields) : Option Fields :=
  match path.getLast? with
  | none => none
  | some k =>
    let lead := path.dropLast
    descend true (fun t =>
      if !lead.isEmpty ∧ t.1 ≠ .dotted then none else bindNew k (.value v) t) lead t

/-- Defines the table that a header names. -/
def defineTable (path : List String) (root : Fields) : Option Fields :=
  match path.getLast? with
  | none => none
  | some k =>
    descend false (fun (origin, fields) =>
      match fields.lookup k with
      | none => some (origin, fields ++ [(k, .table .header [])])
      | some (.table .implicit fs) => some (origin, setField k (.table .header fs) fields)
      | some _ => none) path.dropLast root

/-- Adds a table to the array that a header names. -/
def appendTable (path : List String) (root : Fields) : Option Fields :=
  match path.getLast? with
  | none => none
  | some k =>
    descend false (fun (origin, fields) =>
      match fields.lookup k with
      | none => some (origin, fields ++ [(k, .tables [[]])])
      | some (.tables items) => some (origin, setField k (.tables (items ++ [[]])) fields)
      | some _ => none) path.dropLast root

/-- The fields of a table in the order of their names. -/
def sortFields (fields : List (String × Toml)) : List (String × Toml) :=
  (Table.ofList fields).entries

mutual

/-- The value that an item has in the end. -/
def Item.toToml : Item → Toml
  | .value v => v
  | .table _ fields => .table (sortFields (fieldsToml fields))
  | .tables items => .arr (tablesToml items)

/-- The fields that a table has in the end. -/
def fieldsToml : List (String × Item) → List (String × Toml)
  | [] => []
  | (k, i) :: rest => (k, i.toToml) :: fieldsToml rest

/-- The tables that an array has in the end. -/
def tablesToml : List (List (String × Item)) → List Toml
  | [] => []
  | fs :: rest => .table (sortFields (fieldsToml fs)) :: tablesToml rest

end

/-- A character of a bare key. -/
def isBare (c : Char) : Bool := c.isAlphanum || c == '_' || c == '-'

/-- Reads a part of a key. -/
def keyPart (cs : List Char) : Option (String × List Char) :=
  let bare := cs.takeWhile isBare
  if bare.isEmpty then lineString? cs
  else some (String.ofList bare, cs.dropWhile isBare)

/-- Reads a key with dots between its parts. -/
def key : (fuel : Nat) → List Char → Option (List String × List Char)
  | 0, _ => none
  | fuel + 1, cs => do
    let (k, cs) ← keyPart (cs.dropWhile isBlank)
    match cs.dropWhile isBlank with
    | '.' :: rest =>
      let (ks, rest) ← key fuel rest
      return (k :: ks, rest)
    | rest => return ([k], rest)

/-- Passes over a comment, up to the end of its line. -/
def comment (cs : List Char) : Option (List Char) :=
  match cs with
  | '#' :: rest =>
    let rest := rest.dropWhile isText
    if rest.isEmpty ∨ (newline? rest).isSome then some rest else none
  | cs => some cs

/-- Passes over blanks, comments and line breaks. -/
def skipLines : (fuel : Nat) → List Char → Option (List Char)
  | 0, _ => none
  | fuel + 1, cs => do
    let cs ← comment (cs.dropWhile isBlank)
    match newline? cs with
    | some rest => skipLines fuel rest
    | none => return cs

/-- Passes over blanks, comments and line breaks. -/
def skipAll (cs : List Char) : Option (List Char) := skipLines (cs.length + 1) cs

/-- Passes over the rest of a line, which must be blank or a comment. -/
def endLine (cs : List Char) : Option (List Char) := do
  let cs ← comment (cs.dropWhile isBlank)
  if cs.isEmpty then return [] else newline? cs

/-- The characters of a number, a date or a word. -/
def isScalarChar (c : Char) : Bool := c.isAlphanum || "+-._:".toList.contains c

/-- Reads a value that is no string and no collection. -/
def plain (cs : List Char) : Option (Toml × List Char) :=
  match datetime? cs with
  | some (d, rest) =>
    if rest.head?.any isScalarChar then none else some (.datetime (String.ofList d), rest)
  | none =>
    let word := cs.takeWhile isScalarChar
    let rest := cs.dropWhile isScalarChar
    if word = "true".toList then some (.bool true, rest)
    else if word = "false".toList then some (.bool false, rest)
    else (numeral? word).map fun n => (.num n, rest)

/-- The nesting that collections may have. -/
def depthLimit : Nat := 80

mutual

/-- Reads a value; `depth` is the nesting that is left. -/
def value : (fuel depth : Nat) → List Char → Option (Toml × List Char)
  | 0, _, _ => none
  | fuel + 1, depth, cs =>
    match cs with
    | [] => none
    | c :: rest =>
      if c = '"' ∨ c = '\'' then (string? cs).map fun (s, rest) => (.str s, rest)
      else if c = '[' then
        match depth with
        | 0 => none
        | depth + 1 => (array fuel depth rest).map fun (vs, rest) => (.arr vs, rest)
      else if c = '\x7b' then
        match depth with
        | 0 => none
        | depth + 1 =>
          (inlineTable fuel depth (.dotted, []) rest).map fun (t, rest) =>
            ((Item.table .header t.2).toToml, rest)
      else plain cs

/-- Reads the items of an array behind its bracket. -/
def array : (fuel depth : Nat) → List Char → Option (List Toml × List Char)
  | 0, _, _ => none
  | fuel + 1, depth, cs => do
    let cs ← skipAll cs
    match cs with
    | ']' :: rest => return ([], rest)
    | cs => do
      let (v, cs) ← value fuel depth cs
      let cs ← skipAll cs
      match cs with
      | ']' :: rest => return ([v], rest)
      | ',' :: rest => do
        let (vs, rest) ← array fuel depth rest
        return (v :: vs, rest)
      | _ => none

/-- Reads the bindings of an inline table behind its brace. -/
def inlineTable : (fuel depth : Nat) → Fields → List Char → Option (Fields × List Char)
  | 0, _, _, _ => none
  | fuel + 1, depth, t, cs => do
    let cs ← skipAll cs
    match cs with
    | '\x7d' :: rest => return (t, rest)
    | cs => do
      let (path, cs) ← key (cs.length + 1) cs
      let cs ← expect '=' cs
      let (v, cs) ← value fuel depth (cs.dropWhile isBlank)
      let t ← bindPath path v t
      let cs ← skipAll cs
      match cs with
      | '\x7d' :: rest => return (t, rest)
      | ',' :: rest => inlineTable fuel depth t rest
      | _ => none

end

/-- Reads the lines of a text: the root so far, and the table that bindings go to. -/
def lines : (fuel : Nat) → Fields → List String → List Char → Option Fields
  | 0, _, _, _ => none
  | fuel + 1, root, here, cs => do
    let cs ← skipAll cs
    match cs with
    | [] => return root
    | '[' :: '[' :: rest => do
      let (path, rest) ← key (rest.length + 1) rest
      let rest ← expect ']' rest
      let rest ← expect ']' rest
      let rest ← endLine rest
      lines fuel (← appendTable path root) path rest
    | '[' :: rest => do
      let (path, rest) ← key (rest.length + 1) rest
      let rest ← expect ']' rest
      let rest ← endLine rest
      lines fuel (← defineTable path root) path rest
    | cs => do
      let (path, cs) ← key (cs.length + 1) cs
      let cs ← expect '=' cs
      let (v, cs) ← value (2 * cs.length + 2) depthLimit (cs.dropWhile isBlank)
      let cs ← endLine cs
      lines fuel (← descend false (bindPath path v) here root) here cs

/-- The tables of a text. A mark for the byte order at its start is skipped. -/
def parse (text : String) : Option Toml :=
  let cs :=
    match text.toList with
    | '\ufeff' :: rest => rest
    | cs => cs
  (lines (cs.length + 1) (.header, []) [] cs).map fun (o, fields) =>
    (Item.table o fields).toToml

end Toml

end ProjectScript
