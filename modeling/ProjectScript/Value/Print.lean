import ProjectScript.Value

/-!
# Compact document text

Writes a value as JSON without blanks. In a string the quote, the backslash and the control
characters below the blank are escaped, with a short form where JSON has one.
-/

namespace ProjectScript.Value

/-- A digit of a hexadecimal number, in lower case. -/
def hexDigit (n : Nat) : Char := (Nat.digitChar (n % 16))

/-- One character of a string as it stands between the quotes. -/
def escapeChar (c : Char) : List Char :=
  if c = '"' then ['\\', '"']
  else if c = '\\' then ['\\', '\\']
  else if c = '\n' then ['\\', 'n']
  else if c = '\r' then ['\\', 'r']
  else if c = '\t' then ['\\', 't']
  else if c = '\x08' then ['\\', 'b']
  else if c = '\x0c' then ['\\', 'f']
  else if c.toNat < 0x20 then ['\\', 'u', '0', '0', hexDigit (c.toNat / 16), hexDigit c.toNat]
  else [c]

/-- A string in quotes. -/
def quoted (s : String) : List Char := '"' :: (s.toList.flatMap escapeChar ++ ['"'])

mutual

/-- The compact text of a value, as characters. -/
def printChars : Value → List Char
  | null => "null".toList
  | bool true => "true".toList
  | bool false => "false".toList
  | num n => n.text.toList
  | str s => quoted s
  | arr [] => ['[', ']']
  | arr (v :: vs) => '[' :: (printChars v ++ printItems vs)
  | obj [] => ['\x7b', '\x7d']
  | obj ((k, v) :: fs) => '\x7b' :: (quoted k ++ ':' :: (printChars v ++ printFields fs))

/-- The items after the first one, and the closing bracket. -/
def printItems : List Value → List Char
  | [] => [']']
  | v :: vs => ',' :: (printChars v ++ printItems vs)

/-- The fields after the first one, and the closing brace. -/
def printFields : List (String × Value) → List Char
  | [] => ['\x7d']
  | (k, v) :: fs => ',' :: (quoted k ++ ':' :: (printChars v ++ printFields fs))

end

/-- The compact text of a value. -/
def print (v : Value) : String := String.ofList v.printChars

/-- The text that a value contributes to a line: a string stands for itself, any other value for
its compact text. -/
def inline : Value → String
  | str s => s
  | v => v.print

end ProjectScript.Value
