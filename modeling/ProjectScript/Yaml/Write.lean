import ProjectScript.Value.Print
import ProjectScript.Yaml.Resolve

/-!
# Writing scalars

How a text is written as a scalar that reads back as the same text. A text with a line feed is a
literal block. Any other is plain, unless it would stand for something else than itself or would
not be read as one scalar; then it is put in single quotes. Where a style cannot hold the text,
double quotes do, with escapes.

* `style`: the style of a text;
* `scalar`: a text in its style, with the line break behind it.
-/

namespace ProjectScript.Yaml

/-- A character that stands for itself outside double quotes. -/
def isWritable (c : Char) : Bool :=
  let n := c.toNat
  n == 0x0A || (0x20 ≤ n && n ≤ 0x7E) ||
    (0xA0 ≤ n && n != 0xFEFF && n != 0xFFFE && n != 0xFFFF)

/-- A character that has a meaning of its own at the start of a plain scalar. -/
def isOpeningMark (c : Char) : Bool := "#,[]\x7b\x7d&*!|>'\"%@`".toList.contains c

/-- Whether a mark inside a plain scalar would end it: a colon before a blank, or a number sign
behind one. -/
def hasMark : (blankBefore : Bool) → List Char → Bool
  | _, [] => false
  | blankBefore, c :: rest =>
    (c = ':' && Cursor.isSpaceOrEnd rest) || (c = '#' && blankBefore) || hasMark (isSpace c) rest

/-- Whether a text opens or holds a mark that a plain scalar must not have there. -/
def hasIndicator : List Char → Bool
  | [] => false
  | c :: rest =>
    ['-', '-', '-'].isPrefixOf (c :: rest) || ['.', '.', '.'].isPrefixOf (c :: rest) ||
      isOpeningMark c || ((c = '?' || c = '-') && Cursor.isSpaceOrEnd rest) ||
      hasMark true (c :: rest)

/-- Whether two characters stand side by side, the first accepted by `p` and the second by `q`. -/
def hasPair (p q : Char → Bool) : List Char → Bool
  | a :: b :: rest => (p a && q b) || hasPair p q (b :: rest)
  | _ => false

/-- A blank. -/
def isGap (c : Char) : Bool := c = ' '

/-- Whether only double quotes can hold a text. -/
def isSpecial (cs : List Char) : Bool := !cs.all isWritable || hasPair isGap isBreak cs

/-- Whether a text can stand in single quotes. -/
def fitsSingle (cs : List Char) : Bool := !isSpecial cs && !hasPair isBreak isGap cs

/-- Whether a text can be a literal block. -/
def fitsLiteral (cs : List Char) : Bool := !isSpecial cs && cs.getLast? != some ' '

/-- Whether a text can be plain. -/
def fitsPlain (cs : List Char) : Bool :=
  fitsSingle cs && !cs.any isBreak && cs.head? != some ' ' && cs.getLast? != some ' ' &&
    !hasIndicator cs

/-- Whether a text in plain style stands for itself, and not only because of a zero before other
digits. -/
def standsForItself (s : String) : Bool := plainDatum s = .str s && !isZeroLed s.toList

/-- The style of a text. -/
def styleOf (s : String) : Style :=
  let cs := s.toList
  if cs.contains '\n' then if fitsLiteral cs then .literal else .double
  else if standsForItself s && fitsPlain cs then .plain
  else if fitsSingle cs then .single
  else .double

/-! ## The styles -/

/-- The indentation of the lines of a scalar. -/
def indentation (n : Nat) : List Char := List.replicate n ' '

/-- The lines of a text, each behind `n` blanks; blanks are put before what follows a break. -/
def indented (n : Nat) (char : Char → List Char) : (broken : Bool) → List Char → List Char
  | _, [] => []
  | broken, c :: rest =>
    if isBreak c then c :: indented n char true rest
    else (if broken then indentation n else []) ++ char c ++ indented n char false rest

/-- A character between single quotes. -/
def singleChar (c : Char) : List Char := if c = '\'' then ['\'', '\''] else [c]

/-- A text in single quotes. -/
def single (n : Nat) (cs : List Char) : List Char :=
  let closing := if cs.getLast?.any isBreak then indentation n else []
  '\'' :: (indented n singleChar false cs ++ closing ++ ['\''])

/-- The letter that an escape has for a character. -/
def escapeLetter? (c : Char) : Option Char :=
  match c.toNat with
  | 0x00 => some '0'
  | 0x07 => some 'a'
  | 0x08 => some 'b'
  | 0x09 => some 't'
  | 0x0A => some 'n'
  | 0x0B => some 'v'
  | 0x0C => some 'f'
  | 0x0D => some 'r'
  | 0x1B => some 'e'
  | 0x22 => some '"'
  | 0x5C => some '\\'
  | 0x85 => some 'N'
  | 0x2028 => some 'L'
  | 0x2029 => some 'P'
  | _ => none

/-- The last `k` hexadecimal digits of a number, in upper case. -/
def hexDigits : (k : Nat) → Nat → List Char
  | 0, _ => []
  | k + 1, n => hexDigits k (n / 16) ++ [(Nat.digitChar (n % 16)).toUpper]

/-- A character by its number. -/
def numericEscape (c : Char) : List Char :=
  let n := c.toNat
  if n < 0x100 then 'x' :: hexDigits 2 n
  else if n < 0x10000 then 'u' :: hexDigits 4 n
  else 'U' :: hexDigits 8 n

/-- A character between double quotes. -/
def doubleChar (c : Char) : List Char :=
  if isWritable c ∧ !isBreak c ∧ c ≠ '"' ∧ c ≠ '\\' then [c]
  else
    match escapeLetter? c with
    | some letter => ['\\', letter]
    | none => '\\' :: numericEscape c

/-- A text in double quotes. -/
def double (cs : List Char) : List Char := '"' :: (cs.flatMap doubleChar ++ ['"'])

/-- What a literal block says of the breaks at its end: it has one break there without a mark, `-`
stands for none and `+` for more. -/
def chomping (cs : List Char) : List Char :=
  match cs.reverse with
  | [] => ['-']
  | [a] => if isBreak a then ['+'] else ['-']
  | a :: b :: _ => if isBreak a then if isBreak b then ['+'] else [] else ['-']

/-- The indentation of a literal block over that of the mapping around it. -/
def literalIndent : Nat := 2

/-- A literal block. Its indentation is given where the text could hide it. -/
def literal (n : Nat) (cs : List Char) : List Char :=
  let hint :=
    if cs.head?.any (fun c => isGap c || isBreak c) then [Nat.digitChar literalIndent] else []
  '|' :: (hint ++ chomping cs ++ '\n' :: indented n (fun c => [c]) true cs)

/-- A text as a scalar and the line break behind it; `n` is the indentation of further lines. -/
def scalar (n : Nat) (s : String) : List Char :=
  let cs := s.toList
  match styleOf s with
  | .literal => literal n cs ++ if cs.getLast?.any isBreak then [] else ['\n']
  | .single => single n cs ++ ['\n']
  | .double => double cs ++ ['\n']
  | _ => cs ++ ['\n']

end ProjectScript.Yaml
