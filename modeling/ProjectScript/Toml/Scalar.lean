import ProjectScript.Json.Read

/-!
# TOML scalars

Strings, numbers, dates and times as TOML writes them. Each reader takes a scalar off the front of
a text.
-/

namespace ProjectScript.Toml

/-- A blank or a tab. -/
def isBlank (c : Char) : Bool := c = ' ' || c = '\t'

/-- A character that may stand in a comment or a string. -/
def isText (c : Char) : Bool := c = '\t' || (0x20 ≤ c.toNat && c.toNat ≠ 0x7F)

/-- Takes a line break off the front of a text. -/
def newline? : List Char → Option (List Char)
  | '\n' :: rest => some rest
  | '\r' :: '\n' :: rest => some rest
  | _ => none

/-- The text behind a line break, if one stands first. -/
def skipNewline (cs : List Char) : List Char := (newline? cs).getD cs

/-! ## Strings -/

/-- The character that an escape with a single letter stands for. -/
def escape? (c : Char) : Option Char :=
  match c with
  | 'b' => some '\x08'
  | 't' => some '\t'
  | 'n' => some '\n'
  | 'f' => some '\x0c'
  | 'r' => some '\r'
  | 'e' => some '\x1b'
  | '"' => some '"'
  | '\\' => some '\\'
  | _ => none

/-- The count of hexadecimal digits behind an escape's letter. -/
def escapeWidth? (c : Char) : Option Nat :=
  match c with
  | 'x' => some 2
  | 'u' => some 4
  | 'U' => some 8
  | _ => none

/-- The character that exactly `n` hexadecimal digits stand for. -/
def hexChar? (n : Nat) (cs : List Char) : Option Char :=
  if cs.length < n then none
  else
    ((cs.take n).foldl (fun v c => do return (← v) * 16 + (← Json.hexValue? c)) (some 0)).bind
      fun v => if (0xD800 ≤ v ∧ v ≤ 0xDFFF) ∨ 0x10FFFF < v then none else some (Char.ofNat v)

/-- Reads an escape behind its backslash. -/
def readEscape : List Char → Option (Char × List Char)
  | [] => none
  | c :: rest =>
    match escape? c, escapeWidth? c with
    | some e, _ => some (e, rest)
    | none, some n => (hexChar? n rest).map (·, rest.drop n)
    | none, none => none

/-- Reads a basic string behind its opening quote. -/
def basic : (fuel : Nat) → List Char → Option (List Char × List Char)
  | 0, _ => none
  | fuel + 1, cs =>
    match cs with
    | [] => none
    | '"' :: rest => some ([], rest)
    | '\\' :: rest => do
      let (e, rest) ← readEscape rest
      let (s, rest) ← basic fuel rest
      return (e :: s, rest)
    | c :: rest =>
      if isText c then (basic fuel rest).map fun (s, rest) => (c :: s, rest) else none

/-- Reads a literal string behind its opening quote. -/
def literal : List Char → Option (List Char × List Char)
  | [] => none
  | '\'' :: rest => some ([], rest)
  | c :: rest => if isText c then (literal rest).map fun (s, rest) => (c :: s, rest) else none

/-- Takes the quotes that close a string of several lines: three of them, with up to two more that
belong to the string. -/
def closing? (quote : Char) (cs : List Char) : Option (List Char × List Char) :=
  let n := (cs.takeWhile (· == quote)).length
  if n < 3 then none
  else
    let extra := min (n - 3) 2
    some (List.replicate extra quote, cs.drop (3 + extra))

/-- Reads a basic string of several lines behind its opening quotes. A backslash at the end of a
line joins it with the next text. -/
def basicLines : (fuel : Nat) → List Char → Option (List Char × List Char)
  | 0, _ => none
  | fuel + 1, cs =>
    match closing? '"' cs with
    | some done => some done
    | none =>
      match cs with
      | [] => none
      | '\\' :: rest =>
        match newline? (rest.dropWhile isBlank) with
        | some rest =>
          basicLines fuel (rest.dropWhile fun c => isBlank c || c == '\n' || c == '\r')
        | none => do
          let (e, rest) ← readEscape rest
          let (s, rest) ← basicLines fuel rest
          return (e :: s, rest)
      | c :: rest =>
        match newline? cs with
        | some rest => (basicLines fuel rest).map fun (s, rest) => ('\n' :: s, rest)
        | none =>
          if isText c then (basicLines fuel rest).map fun (s, rest) => (c :: s, rest) else none

/-- Reads a literal string of several lines behind its opening quotes. -/
def literalLines : (fuel : Nat) → List Char → Option (List Char × List Char)
  | 0, _ => none
  | fuel + 1, cs =>
    match closing? '\'' cs with
    | some done => some done
    | none =>
      match cs with
      | [] => none
      | c :: rest =>
        match newline? cs with
        | some rest => (literalLines fuel rest).map fun (s, rest) => ('\n' :: s, rest)
        | none =>
          if isText c then (literalLines fuel rest).map fun (s, rest) => (c :: s, rest) else none

/-- Reads a string of one line. -/
def lineString? : List Char → Option (String × List Char)
  | '"' :: rest => (basic (rest.length + 1) rest).map fun (s, rest) => (String.ofList s, rest)
  | '\'' :: rest => (literal rest).map fun (s, rest) => (String.ofList s, rest)
  | _ => none

/-- Reads a string of either length. A line break right behind the opening quotes is dropped. -/
def string? (cs : List Char) : Option (String × List Char) :=
  match cs with
  | '"' :: '"' :: '"' :: rest =>
    (basicLines (rest.length + 1) (skipNewline rest)).map fun (s, rest) => (String.ofList s, rest)
  | '\'' :: '\'' :: '\'' :: rest =>
    (literalLines (rest.length + 1) (skipNewline rest)).map fun (s, rest) =>
      (String.ofList s, rest)
  | cs => lineString? cs

/-! ## Numbers -/

/-- Drops the underscores of a run of digits, each of which must stand between two digits. -/
def digits? (isDigit : Char → Bool) : List Char → Option (List Char)
  | [] => none
  | [c] => if isDigit c then some [c] else none
  | c :: '_' :: rest => if isDigit c then (digits? isDigit rest).map (c :: ·) else none
  | c :: rest => if isDigit c then (digits? isDigit rest).map (c :: ·) else none

/-- The value of digits in a base. -/
def ofDigits (base : Nat) (ds : List Char) : Nat :=
  ds.foldl (fun v c => v * base + (Json.hexValue? c).getD 0) 0

/-- Whether a character is a digit of a base. -/
def isDigitOf (base : Nat) (c : Char) : Bool := (Json.hexValue? c).any (· < base)

/-- Digits without a leading zero, unless zero is meant. -/
def decimalDigits? (cs : List Char) : Option (List Char) :=
  (digits? Char.isDigit cs).filter fun ds => ds.length = 1 || ds.head? ≠ some '0'

/-- A number of TOML. -/
inductive Numeral
  | int (n : Int)
  | float (x : Binary64)
  | nonFinite
  deriving DecidableEq, Repr

/-- The integer of a word with a prefix for the base. -/
def prefixed? (cs : List Char) : Option Int :=
  let go (base : Nat) (ds : List Char) : Option Int :=
    (digits? (isDigitOf base) ds).map fun ds => Int.ofNat (ofDigits base ds)
  match cs with
  | '0' :: 'x' :: ds => go 16 ds
  | '0' :: 'o' :: ds => go 8 ds
  | '0' :: 'b' :: ds => go 2 ds
  | _ => none

/-- The floating-point number of a word without sign; none when it is malformed or too large. -/
def float? (negative : Bool) (cs : List Char) : Option Binary64 := do
  let isExp (c : Char) : Bool := c == 'e' || c == 'E'
  let mantissa := cs.takeWhile (!isExp ·)
  let exponent := cs.dropWhile (!isExp ·)
  let whole ← decimalDigits? (mantissa.takeWhile (· ≠ '.'))
  let fraction ←
    match mantissa.dropWhile (· ≠ '.') with
    | [] => some []
    | _ :: ds => digits? Char.isDigit ds
  let e : Int ←
    match exponent with
    | [] => some 0
    | _ :: '-' :: ds => (digits? Char.isDigit ds).map fun ds => -(Int.ofNat (ofDigits 10 ds))
    | _ :: '+' :: ds => (digits? Char.isDigit ds).map fun ds => Int.ofNat (ofDigits 10 ds)
    | _ :: ds => (digits? Char.isDigit ds).map fun ds => Int.ofNat (ofDigits 10 ds)
  Binary64.ofDecimal negative (ofDigits 10 (whole ++ fraction)) (e - fraction.length)

/-- The number of a word. -/
def numeral? (cs : List Char) : Option Numeral :=
  let (negative, body) :=
    match cs with
    | '-' :: rest => (true, rest)
    | '+' :: rest => (false, rest)
    | rest => (false, rest)
  if body = "inf".toList ∨ body = "nan".toList then some .nonFinite
  else
    match prefixed? cs with
    | some n => some (.int n)
    | none =>
      match decimalDigits? body with
      | some ds =>
        let n := Int.ofNat (ofDigits 10 ds)
        some (.int (if negative then -n else n))
      | none => (float? negative body).map .float

/-! ## Dates and times -/

/-- Reads exactly `n` digits with a value in a range. -/
def fixed? (n lo hi : Nat) (cs : List Char) : Option (Nat × List Char) :=
  let ds := cs.take n
  let v := ofDigits 10 ds
  if ds.length = n ∧ ds.all Char.isDigit ∧ lo ≤ v ∧ v ≤ hi then some (v, cs.drop n) else none

/-- Takes a character off the front of a text. -/
def expect (c : Char) (cs : List Char) : Option (List Char) :=
  if cs.head? = some c then some cs.tail else none

/-- A number with leading zeros, in a width. -/
def padded (width n : Nat) : List Char :=
  let ds := Nat.toDigits 10 n
  List.replicate (width - ds.length) '0' ++ ds

/-- The days of a month. -/
def daysIn (year month : Nat) : Nat :=
  if month = 2 then
    if year % 4 = 0 ∧ (year % 100 ≠ 0 ∨ year % 400 = 0) then 29 else 28
  else if [4, 6, 9, 11].contains month then 30
  else 31

/-- Reads a date; gives its text. -/
def date? (cs : List Char) : Option (List Char × List Char) := do
  let (y, cs) ← fixed? 4 0 9999 cs
  let cs ← expect '-' cs
  let (m, cs) ← fixed? 2 1 12 cs
  let cs ← expect '-' cs
  let (d, cs) ← fixed? 2 1 (daysIn y m) cs
  return (padded 4 y ++ '-' :: padded 2 m ++ '-' :: padded 2 d, cs)

/-- The fraction of a second in nine digits, without the zeros at its end but for one digit. -/
def nanoseconds (ds : List Char) : List Char :=
  let kept := (ds.take 9).reverse.dropWhile (· == '0')
  if kept.isEmpty then ['0'] else kept.reverse

/-- Reads a time, its seconds if it has any; gives its text. -/
def time? (cs : List Char) : Option (List Char × List Char) := do
  let (h, cs) ← fixed? 2 0 23 cs
  let cs ← expect ':' cs
  let (m, cs) ← fixed? 2 0 59 cs
  let start := padded 2 h ++ ':' :: padded 2 m
  match cs with
  | ':' :: cs => do
    let (s, cs) ← fixed? 2 0 60 cs
    let start := start ++ ':' :: padded 2 s
    match cs with
    | '.' :: cs =>
      let ds := cs.takeWhile Char.isDigit
      if ds.isEmpty then none
      else return (start ++ '.' :: nanoseconds ds, cs.dropWhile Char.isDigit)
    | cs => return (start, cs)
  | cs => return (start, cs)

/-- Reads the offset of a time from universal time; gives its text. No offset has the sign `+`. -/
def offset? (cs : List Char) : Option (List Char × List Char) :=
  match cs with
  | c :: rest =>
    if c = 'Z' ∨ c = 'z' then some (['Z'], rest)
    else if c = '+' ∨ c = '-' then do
      let (h, rest) ← fixed? 2 0 23 rest
      let rest ← expect ':' rest
      let (m, rest) ← fixed? 2 0 59 rest
      let sign := if h = 0 ∧ m = 0 then '+' else c
      return (sign :: padded 2 h ++ ':' :: padded 2 m, rest)
    else some ([], cs)
  | [] => some ([], [])

/-- Reads a date, a time, or both with an offset; gives its normal text. -/
def datetime? (cs : List Char) : Option (List Char × List Char) :=
  match date? cs with
  | some (d, rest) =>
    match rest with
    | sep :: after =>
      if sep = 'T' ∨ sep = 't' ∨ (sep = ' ' ∧ after.head?.any Char.isDigit) then do
        let (t, rest) ← time? after
        let (o, rest) ← offset? rest
        return (d ++ 'T' :: t ++ o, rest)
      else some (d, rest)
    | [] => some (d, [])
  | none => time? cs

end ProjectScript.Toml
