import ProjectScript.Value

/-!
# JSON numbers

The number that a JSON literal stands for. A literal without fraction and exponent that fits 64
bits is an integer. Any other is a floating-point number, read in two roundings: the digits that
fit 64 bits first, then that number times or over a power of ten. The digits beyond 64 bits count
for their place only.
-/

namespace ProjectScript.Json

/-- A number as it is written: its digits before and after the point, and its exponent. -/
structure Literal where
  negative : Bool
  whole : List Char
  fraction : Option (List Char)
  exponent : Option (Bool × List Char)
  deriving DecidableEq, Repr

/-- The value of a decimal digit. -/
def digitValue (c : Char) : Nat := c.toNat - '0'.toNat

/-- Appends digits to a number as long as it stays below `2 ^ 64`. Gives the number, the count of
digits taken and the count of digits left. -/
def takeDigits (n : Nat) : List Char → Nat × Nat × Nat
  | [] => (n, 0, 0)
  | c :: cs =>
    let m := n * 10 + digitValue c
    if Nat.pow 2 64 ≤ m then (n, 0, cs.length + 1)
    else
      let (r, taken, left) := takeDigits m cs
      (r, taken + 1, left)

/-- The value of a run of digits. -/
def digitsValue (cs : List Char) : Nat := cs.foldl (fun n c => n * 10 + digitValue c) 0

/-- Ten to a power of at most 308, rounded. -/
def powerOfTen (n : Nat) : Binary64 := (Binary64.ofDecimal false 1 n).getD default

/-- `x` times ten to a power, in steps of at most 308 when the power is negative; none when the
product is too large. -/
def scaleTen (x : Binary64) (e : Int) : Option Binary64 :=
  if e < -308 then
    if x.mantissa = 0 then some x
    else scaleTen ((x.div (powerOfTen 308)).getD default) (e + 308)
  else if e < 0 then x.div (powerOfTen (-e).toNat)
  else if e ≤ 308 then x.mul (powerOfTen e.toNat)
  else if x.mantissa = 0 then some x
  else none
termination_by (-e).toNat

/-- `± digits · 10 ^ e`, in two roundings. -/
def ofParts (negative : Bool) (digits : Nat) (e : Int) : Option Binary64 :=
  (Binary64.ofDecimal false digits 0).bind fun x =>
    (scaleTen x e).map fun y => if negative then y.neg else y

/-- An exponent above the range of 32 bits counts as infinite. -/
def exponentLimit : Nat := Nat.pow 2 31

/-- The number that a literal stands for; none when it is too large. -/
def Literal.number? (l : Literal) : Option Number :=
  let (n, _, beyond) := takeDigits 0 l.whole
  match l.fraction, l.exponent with
  | none, none =>
    if beyond ≠ 0 then (ofParts l.negative n beyond).map .float
    else if !l.negative then some (.int n)
    else if 0 < n ∧ n ≤ Nat.pow 2 63 then some (.int (-n))
    else (ofParts true n 0).map .float
  | _, _ =>
    let (n, taken, _) := takeDigits n (l.fraction.getD [])
    let e : Int := (beyond : Int) - taken
    match l.exponent with
    | none => (ofParts l.negative n e).map .float
    | some (down, ds) =>
      let k := digitsValue ds
      if exponentLimit ≤ k then
        if n ≠ 0 ∧ !down then none else some (.float (.zero l.negative))
      else (ofParts l.negative n (if down then e - k else e + k)).map .float

end ProjectScript.Json
