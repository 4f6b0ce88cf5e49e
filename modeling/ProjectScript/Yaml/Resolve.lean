import ProjectScript.Value
import ProjectScript.Json.Number
import ProjectScript.Yaml.Node

/-!
# What plain scalars stand for

The core types of YAML 1.2: a plain scalar is a null, a boolean, an integer, a floating-point
number, or else a string. Digits after a leading zero are no number. An integer beyond 64 bits is
out of range up to 128 bits and a floating-point number beyond that.
-/

namespace ProjectScript.Yaml

/-- What a scalar stands for. -/
inductive Datum
  | null
  | bool (b : Bool)
  | int (n : Int)
  /-- An integer beyond 64 bits. -/
  | wideInt
  | float (x : Binary64)
  /-- An infinity, or not a number. -/
  | nonFinite
  | str (s : String)
  deriving DecidableEq, Repr

/-- Whether a text spells null. -/
def isNull (s : String) : Bool := s = "null" || s = "Null" || s = "NULL" || s = "~"

/-- The boolean that a text spells. -/
def bool? (s : String) : Option Bool :=
  if s = "true" ∨ s = "True" ∨ s = "TRUE" then some true
  else if s = "false" ∨ s = "False" ∨ s = "FALSE" then some false
  else none

/-- Drops a leading sign. -/
def dropSign : List Char → List Char
  | '+' :: cs => cs
  | '-' :: cs => cs
  | cs => cs

/-- Digits alone, more than one of them, with a leading zero. -/
def isZeroLed (cs : List Char) : Bool :=
  let ds := dropSign cs
  1 < ds.length && ds.head? == some '0' && ds.all Char.isDigit

/-- The value of a digit in a base up to sixteen. -/
def digit? (base : Nat) (c : Char) : Option Nat := (Json.hexValue? c).filter (· < base)

/-- The value of a run of digits. -/
def natural? (base : Nat) (cs : List Char) : Option Nat :=
  if cs.isEmpty then none
  else cs.foldl (fun v c => do return (← v) * base + (← digit? base c)) (some 0)

/-- The base that a prefix of two characters selects, and the digits behind it. -/
def radix? : List Char → Option (Nat × List Char)
  | '0' :: 'x' :: ds => some (16, ds)
  | '0' :: 'o' :: ds => some (8, ds)
  | '0' :: 'b' :: ds => some (2, ds)
  | _ => none

/-- The natural that digits spell, with or without a prefix for the base. -/
def magnitude? (cs : List Char) : Option Nat :=
  ((radix? cs).bind fun (base, ds) => natural? base ds).or
    (if isZeroLed cs then none else natural? 10 cs)

/-- The integer that a text spells. -/
def integer? (cs : List Char) : Option Int :=
  match cs with
  | '+' :: ds => (magnitude? ds).map Int.ofNat
  | '-' :: ds => (magnitude? ds).map fun n => -(Int.ofNat n)
  | ds => (magnitude? ds).map Int.ofNat

/-- A decimal as a text spells it: digits with at most one point, and perhaps an exponent. -/
def decimal? (cs : List Char) : Option Decimal :=
  let whole := cs.takeWhile Char.isDigit
  let rest := cs.dropWhile Char.isDigit
  let (fraction, rest) :=
    match rest with
    | '.' :: rest => (rest.takeWhile Char.isDigit, rest.dropWhile Char.isDigit)
    | rest => ([], rest)
  let digits := whole ++ fraction
  let n := Json.digitsValue digits
  if digits.isEmpty then none
  else
    match rest with
    | [] => some ⟨n, -(fraction.length : Int)⟩
    | e :: rest =>
      if e ≠ 'e' ∧ e ≠ 'E' then none
      else
        let ds := dropSign rest
        let k : Int := Json.digitsValue ds
        if ds.isEmpty ∨ !ds.all Char.isDigit then none
        else some ⟨n, (if rest.head? = some '-' then -k else k) - fraction.length⟩

/-- The finite number that a text spells, with an optional sign. -/
def finite? (cs : List Char) : Option Binary64 :=
  (decimal? (dropSign cs)).bind fun d =>
    Binary64.ofDecimal (cs.head? == some '-') d.digits d.exponent

/-- The floating-point number that a text spells. -/
def float? (s : String) : Option Datum :=
  if [".inf", ".Inf", ".INF", "+.inf", "+.Inf", "+.INF", "-.inf", "-.Inf", "-.INF", ".nan", ".NaN",
    ".NAN"].contains s then some .nonFinite
  else (finite? s.toList).map .float

/-- What an integer stands for. -/
def intDatum (n : Int) : Option Datum :=
  if isWord n then some (.int n)
  else if -(Nat.pow 2 127 : Int) ≤ n ∧ n < (Nat.pow 2 128 : Int) then some .wideInt
  else none

/-- What a text in plain style stands for. -/
def plainDatum (s : String) : Datum :=
  let cs := s.toList
  if s.isEmpty ∨ isNull s then .null
  else
    match bool? s with
    | some b => .bool b
    | none =>
      match (integer? cs).bind intDatum with
      | some d => d
      | none => if isZeroLed cs then .str s else (float? s).getD (.str s)

/-- The full name of a core tag. -/
def coreTag (name : String) : String := "tag:yaml.org,2002:" ++ name

/-- Whether a tag is none of the core tags' kind but one of the user's own. -/
def isOwnTag (tag : Option String) : Bool := tag.any fun t => t.toList.head? == some '!'

/-- What a scalar stands for, by its tag or else by its style; none where the text does not fit
the tag, and for a tag of the user's own. -/
def Scalar.datum? (s : Scalar) : Option Datum :=
  if isOwnTag s.tag then none
  else
    match s.tag with
    | none => some (if s.style = .plain then plainDatum s.text else .str s.text)
    | some t =>
      if t = coreTag "bool" then (bool? s.text).map .bool
      else if t = coreTag "int" then (integer? s.text.toList).bind intDatum
      else if t = coreTag "float" then float? s.text
      else if t = coreTag "null" then if isNull s.text then some .null else none
      else some (.str s.text)

end ProjectScript.Yaml
