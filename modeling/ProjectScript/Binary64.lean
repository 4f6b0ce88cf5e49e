/-!
# Floating-point numbers

The finite numbers of the IEEE 754 format `binary64`, with exact arithmetic on their mantissas.

* `Binary64.ofRatio`: the number nearest to a fraction, a tie going to the even mantissa;
* `Binary64.ofDecimal`: the number nearest to a decimal;
* `Binary64.shortest`: the decimal with the fewest digits among those nearest to the number, and
  among these the one closest to it;
* `Binary64.text`: that decimal, positional from `1e-5` to below `1e16`.
-/

namespace ProjectScript

/-- A finite `binary64` number, `± mantissa · 2 ^ exponent`. The mantissa is below `2 ^ 53`, and
at least `2 ^ 52` unless the exponent is the least one, `-1074`. -/
structure Binary64 where
  negative : Bool
  mantissa : Nat
  exponent : Int
  deriving DecidableEq, Repr

/-- A decimal, `digits · 10 ^ exponent`. -/
structure Decimal where
  digits : Nat
  exponent : Int
  deriving DecidableEq, Repr

namespace Decimal

/-- The decimal as a fraction. -/
def ratio (d : Decimal) : Nat × Nat :=
  if 0 ≤ d.exponent then (d.digits * Nat.pow 10 d.exponent.toNat, 1)
  else (d.digits, Nat.pow 10 (-d.exponent).toNat)

/-- Moves trailing zeros of the digits into the exponent, at most `n` of them. -/
def strip : Nat → Decimal → Decimal
  | 0, d => d
  | n + 1, d =>
    if d.digits ≠ 0 ∧ d.digits % 10 = 0 then strip n ⟨d.digits / 10, d.exponent + 1⟩ else d

end Decimal

namespace Binary64

/-- Zero with the given sign. -/
def zero (negative : Bool) : Binary64 := ⟨negative, 0, -1074⟩

instance : Inhabited Binary64 := ⟨zero false⟩

/-- The quotient of two naturals rounded to the nearest one, a tie going to the even one. -/
def roundDiv (num den : Nat) : Nat :=
  let q := num / den
  let r := num % den
  if 2 * r < den then q else if den < 2 * r then q + 1 else if q % 2 = 0 then q else q + 1

/-- The fraction `num / den · 2 ^ shift` as a pair of naturals. -/
def scale (num den : Nat) (shift : Int) : Nat × Nat :=
  if 0 ≤ shift then (num * Nat.pow 2 shift.toNat, den) else (num, den * Nat.pow 2 (-shift).toNat)

/-- The exponent at which `num / den` has a mantissa of 53 bits, or the least exponent. -/
def exponentOf (num den : Nat) : Int :=
  let guess : Int := (num.log2 : Int) - (den.log2 : Int) - 52
  let (n, d) := scale num den (-guess)
  max (-1074) (if n < d * Nat.pow 2 52 then guess - 1 else guess)

/-- The number nearest to `± num / den`; none when it is too large. -/
def ofRatio (negative : Bool) (num den : Nat) : Option Binary64 :=
  if num = 0 then some (zero negative)
  else
    let e := exponentOf num den
    let (n, d) := scale num den (-e)
    let m := roundDiv n d
    let (m, e) := if m = Nat.pow 2 53 then (Nat.pow 2 52, e + 1) else (m, e)
    if 971 < e then none else some ⟨negative, m, e⟩

/-- The number of decimal digits of a natural; zero has none. -/
def digitCount (n : Nat) : Nat :=
  if n = 0 then 0 else (Nat.toDigits 10 n).length

/-- The number nearest to `± digits · 10 ^ exponent`; none when it is too large. -/
def ofDecimal (negative : Bool) (digits : Nat) (exponent : Int) : Option Binary64 :=
  let top := exponent + digitCount digits
  if digits = 0 ∨ top < -400 then some (zero negative)
  else if 400 < top then none
  else if 0 ≤ exponent then ofRatio negative (digits * Nat.pow 10 exponent.toNat) 1
  else ofRatio negative digits (Nat.pow 10 (-exponent).toNat)

/-- The magnitude as a fraction. -/
def ratio (x : Binary64) : Nat × Nat := scale x.mantissa 1 x.exponent

/-- The rounded product; none when it is too large. -/
def mul (x y : Binary64) : Option Binary64 :=
  let (a, b) := x.ratio
  let (c, d) := y.ratio
  ofRatio (x.negative != y.negative) (a * c) (b * d)

/-- The rounded quotient by a number other than zero; none when it is too large. -/
def div (x y : Binary64) : Option Binary64 :=
  let (a, b) := x.ratio
  let (c, d) := y.ratio
  ofRatio (x.negative != y.negative) (a * d) (b * c)

/-- The same magnitude with the other sign. -/
def neg (x : Binary64) : Binary64 := { x with negative := !x.negative }

/-! ## Shortest decimals -/

/-- Whether `num / den` rounds to the magnitude of `x`, for a mantissa other than zero: it lies
between the halfway points to the neighbours of `x`, which belong to `x` when its mantissa is
even. -/
def covers (x : Binary64) (num den : Nat) : Bool :=
  let below := if x.mantissa = Nat.pow 2 52 ∧ -1074 < x.exponent then 1 else 2
  let (lo, d) := scale (4 * x.mantissa - below) 1 (x.exponent - 2)
  let (hi, _) := scale (4 * x.mantissa + 2) 1 (x.exponent - 2)
  if x.mantissa % 2 = 0 then lo * den ≤ num * d && num * d ≤ hi * den
  else lo * den < num * d && num * d < hi * den

/-- The exponent `k` with `10 ^ (k - 1) ≤ num / den < 10 ^ k`, for a fraction other than zero. -/
def decimalExponent (num den : Nat) : Int :=
  let guess : Int := (digitCount num : Int) - (digitCount den : Int)
  let d : Decimal := ⟨1, guess⟩
  if num * d.ratio.2 < d.ratio.1 * den then guess else guess + 1

/-- The decimals with `n` digits on either side of the magnitude of `x`, which lies in
`[10 ^ (k - 1), 10 ^ k)`, that round to it; the closer one first, a tie going to the even one. -/
def candidates (x : Binary64) (k : Int) (n : Nat) : List Decimal :=
  let e := k - n
  let (num, den) := x.ratio
  let (p, q) := (⟨1, e⟩ : Decimal).ratio
  let below := num * q / (den * p)
  let r := num * q % (den * p)
  let pair :=
    if 2 * r < den * p ∨ (2 * r = den * p ∧ below % 2 = 0) then [below, below + 1]
    else [below + 1, below]
  (pair.map fun m => (⟨m, e⟩ : Decimal)).filter fun d => x.covers d.ratio.1 d.ratio.2

/-- The decimal with the fewest digits that rounds to the magnitude of `x`, starting from `n`
digits and trying `tries` counts of digits. Seventeen digits always suffice. -/
def shortestFrom (x : Binary64) (k : Int) : (tries n : Nat) → Decimal
  | 0, _ => ⟨0, 0⟩
  | tries + 1, n =>
    match x.candidates k n with
    | d :: _ => d.strip 20
    | [] => shortestFrom x k tries (n + 1)

/-- The decimal with the fewest digits that rounds to the magnitude of `x`. -/
def shortest (x : Binary64) : Decimal :=
  if x.mantissa = 0 then ⟨0, 0⟩
  else shortestFrom x (decimalExponent x.ratio.1 x.ratio.2) 17 1

/-- A run of zeros. -/
def zeros (n : Int) : List Char := List.replicate n.toNat '0'

/-- The text of a decimal: positional when its magnitude is at least `1e-5` and below `1e16`,
always with a fraction; otherwise with one digit before the point and a signed exponent. -/
def decimalText (d : Decimal) : List Char :=
  let ds := Nat.toDigits 10 d.digits
  let point := (ds.length : Int) + d.exponent
  if d.digits = 0 then "0.0".toList
  else if 0 ≤ d.exponent ∧ point ≤ 16 then ds ++ zeros d.exponent ++ ".0".toList
  else if 0 < point ∧ point ≤ 16 then ds.take point.toNat ++ '.' :: ds.drop point.toNat
  else if -5 < point ∧ point ≤ 0 then "0.".toList ++ zeros (-point) ++ ds
  else
    let e := point - 1
    let sign := if e < 0 then '-' else '+'
    let fraction := if ds.length = 1 then [] else '.' :: ds.drop 1
    ds.take 1 ++ fraction ++ 'e' :: sign :: Nat.toDigits 10 e.natAbs

/-- The text of a number: the sign and the text of the shortest decimal. -/
def text (x : Binary64) : String :=
  String.ofList ((if x.negative then ['-'] else []) ++ decimalText x.shortest)

end Binary64

end ProjectScript
