import ProjectScript.Json.Number

/-!
# Reading JSON

`Json` is the syntax of a JSON text: numbers as they are written, the fields of an object in
their order with repetitions, and a string only if its escapes stand for text (`none` for one
with half a surrogate pair). `Json.parse` reads a whole text, `Json.value?` takes the value of a
tree whose nesting stays below a limit.
-/

namespace ProjectScript

/-- The syntax of a JSON text. -/
inductive Json
  | null
  | bool (b : Bool)
  | num (l : Json.Literal)
  | str (s : Option String)
  | arr (items : List Json)
  | obj (fields : List (Option String × Json))
  deriving Repr

namespace Json

instance : Inhabited Json := ⟨null⟩

/-- The blanks of JSON. -/
def isBlank (c : Char) : Bool := c = ' ' || c = '\n' || c = '\t' || c = '\r'

/-- The value of a hexadecimal digit of either case. -/
def hexValue? (c : Char) : Option Nat :=
  if c.isDigit then some (c.toNat - '0'.toNat)
  else if 'a' ≤ c ∧ c ≤ 'f' then some (c.toNat - 'a'.toNat + 10)
  else if 'A' ≤ c ∧ c ≤ 'F' then some (c.toNat - 'A'.toNat + 10)
  else none

/-- The value of four hexadecimal digits. -/
def hex4? (a b c d : Char) : Option Nat := do
  let a ← hexValue? a
  let b ← hexValue? b
  let c ← hexValue? c
  let d ← hexValue? d
  return ((a * 16 + b) * 16 + c) * 16 + d

/-- The character that a short escape stands for. -/
def shortEscape? (c : Char) : Option Char :=
  if c = '"' then some '"'
  else if c = '\\' then some '\\'
  else if c = '/' then some '/'
  else if c = 'b' then some '\x08'
  else if c = 'f' then some '\x0c'
  else if c = 'n' then some '\n'
  else if c = 'r' then some '\r'
  else if c = 't' then some '\t'
  else none

/-- A UTF-16 unit that leads a pair. -/
def isLead (n : Nat) : Bool := 0xD800 ≤ n && n < 0xDC00

/-- A UTF-16 unit that closes a pair. -/
def isTrail (n : Nat) : Bool := 0xDC00 ≤ n && n < 0xE000

/-- The units and characters of a string: half a pair is kept as a number of its own. -/
abbrev Unit16 := Char ⊕ Nat

/-- Reads a string behind its opening quote: characters, and the UTF-16 units written as escapes. -/
def readUnits : List Char → Option (List Unit16 × List Char)
  | [] => none
  | '"' :: rest => some ([], rest)
  | '\\' :: 'u' :: a :: b :: c :: d :: rest => do
    let n ← hex4? a b c d
    let (us, rest) ← readUnits rest
    return (.inr n :: us, rest)
  | '\\' :: c :: rest => do
    let e ← shortEscape? c
    let (us, rest) ← readUnits rest
    return (.inl e :: us, rest)
  | c :: rest =>
    if c.toNat < 0x20 ∨ c = '\\' then none
    else do
      let (us, rest) ← readUnits rest
      return (.inl c :: us, rest)

/-- Joins the pairs of units; none when half a pair stands alone. -/
def joinUnits : List Unit16 → Option (List Char)
  | [] => some []
  | .inl c :: us => (joinUnits us).map (c :: ·)
  | .inr n :: us =>
    if isTrail n then none
    else if isLead n then
      match us with
      | .inr m :: us =>
        if isTrail m then
          (joinUnits us).map (Char.ofNat (0x10000 + (n - 0xD800) * 0x400 + (m - 0xDC00)) :: ·)
        else none
      | _ => none
    else (joinUnits us).map (Char.ofNat n :: ·)

/-- Reads a string behind its opening quote. -/
def readString (cs : List Char) : Option (Option String × List Char) :=
  (readUnits cs).map fun (us, rest) => ((joinUnits us).map String.ofList, rest)

/-- Reads an exponent, if there is one. -/
def readExponent (cs : List Char) : Option (Option (Bool × List Char) × List Char) :=
  match cs with
  | c :: rest =>
    if c = 'e' ∨ c = 'E' then
      let (down, rest) :=
        match rest with
        | '-' :: rest => (true, rest)
        | '+' :: rest => (false, rest)
        | rest => (false, rest)
      let ds := rest.takeWhile Char.isDigit
      if ds.isEmpty then none else some (some (down, ds), rest.dropWhile Char.isDigit)
    else some (none, cs)
  | [] => some (none, cs)

/-- Reads a number. -/
def readNumber (cs : List Char) : Option (Literal × List Char) := do
  let (negative, cs) :=
    match cs with
    | '-' :: rest => (true, rest)
    | rest => (false, rest)
  let whole := cs.takeWhile Char.isDigit
  let cs := cs.dropWhile Char.isDigit
  if whole.isEmpty ∨ (1 < whole.length ∧ whole.head? = some '0') then none
  else
    let (fraction, cs) ←
      match cs with
      | '.' :: rest =>
        let ds := rest.takeWhile Char.isDigit
        if ds.isEmpty then none else some (some ds, rest.dropWhile Char.isDigit)
      | rest => some (none, rest)
    let (exponent, cs) ← readExponent cs
    return (⟨negative, whole, fraction, exponent⟩, cs)

/-- Takes a fixed word off the front of a text. -/
def readWord (w : List Char) (cs : List Char) : Option (List Char) :=
  if w.isPrefixOf cs then some (cs.drop w.length) else none

mutual

/-- Reads one value behind the blanks before it; `fuel` bounds the steps. -/
def readValue : (fuel : Nat) → List Char → Option (Json × List Char)
  | 0, _ => none
  | fuel + 1, cs =>
    match cs.dropWhile isBlank with
    | [] => none
    | c :: rest =>
      if c = '"' then (readString rest).map fun (s, rest) => (.str s, rest)
      else if c = '[' then
        match rest.dropWhile isBlank with
        | ']' :: rest => some (.arr [], rest)
        | rest => (readItems fuel rest).map fun (vs, rest) => (.arr vs, rest)
      else if c = '\x7b' then
        match rest.dropWhile isBlank with
        | '\x7d' :: rest => some (.obj [], rest)
        | rest => (readFields fuel rest).map fun (fs, rest) => (.obj fs, rest)
      else if c = 'n' then (readWord "null".toList (c :: rest)).map fun rest => (.null, rest)
      else if c = 't' then (readWord "true".toList (c :: rest)).map fun rest => (.bool true, rest)
      else if c = 'f' then (readWord "false".toList (c :: rest)).map fun rest => (.bool false, rest)
      else (readNumber (c :: rest)).map fun (l, rest) => (.num l, rest)

/-- Reads the items of an array behind its bracket, and the closing bracket. -/
def readItems : (fuel : Nat) → List Char → Option (List Json × List Char)
  | 0, _ => none
  | fuel + 1, cs => do
    let (v, cs) ← readValue fuel cs
    match cs.dropWhile isBlank with
    | ',' :: rest =>
      let (vs, rest) ← readItems fuel rest
      return (v :: vs, rest)
    | ']' :: rest => return ([v], rest)
    | _ => none

/-- Reads the fields of an object behind its brace, and the closing brace. -/
def readFields : (fuel : Nat) → List Char → Option (List (Option String × Json) × List Char)
  | 0, _ => none
  | fuel + 1, cs => do
    match cs.dropWhile isBlank with
    | '"' :: rest =>
      let (k, rest) ← readString rest
      match rest.dropWhile isBlank with
      | ':' :: rest =>
        let (v, rest) ← readValue fuel rest
        match rest.dropWhile isBlank with
        | ',' :: rest =>
          let (fs, rest) ← readFields fuel rest
          return ((k, v) :: fs, rest)
        | '\x7d' :: rest => return ([(k, v)], rest)
        | _ => none
      | _ => none
    | _ => none

end

/-- The syntax of a whole text. -/
def parse (text : String) : Option Json :=
  let cs := text.toList
  (readValue (cs.length + 1) cs).bind fun (j, rest) =>
    if rest.all isBlank then some j else none

mutual

/-- The value of a tree nested less than `depth` deep; none when a number is too large, a string
holds half a pair, or the tree is too deep. The last of several fields of one name counts. -/
def value? : (depth : Nat) → Json → Option Value
  | _, null => some .null
  | _, bool b => some (.bool b)
  | _, num l => l.number?.map .num
  | _, str s => s.map .str
  | 0, arr _ => none
  | 0, obj _ => none
  | depth + 1, arr items =>
    if depth = 0 then none else (itemValues? depth items).map .arr
  | depth + 1, obj fields =>
    if depth = 0 then none else (fieldValues? depth fields).map .object

/-- The values of the items of an array. -/
def itemValues? : (depth : Nat) → List Json → Option (List Value)
  | _, [] => some []
  | depth, j :: js => do
    let v ← value? depth j
    let vs ← itemValues? depth js
    return v :: vs

/-- The values of the fields of an object. -/
def fieldValues? : (depth : Nat) → List (Option String × Json) → Option (List (String × Value))
  | _, [] => some []
  | depth, (k, j) :: fs => do
    let k ← k
    let v ← value? depth j
    let vs ← fieldValues? depth fs
    return (k, v) :: vs

end

/-- The nesting that a text may have: containers within containers, up to 127 of them. -/
def depthLimit : Nat := 128

end Json

end ProjectScript
