/-!
# Quoting

Words of a POSIX shell and literals of PowerShell.

* `posix`: a word that a POSIX shell reads back as the given text. A text made of plain
  characters alone stands for itself; any other is put in single quotes, and a single quote in it
  is written between double quotes.
* `powershell`: a literal in single quotes; a single quote in it is written twice.
-/

namespace ProjectScript.Quote

/-- The characters that stand for themselves in a POSIX word. -/
def isPlain (c : Char) : Bool :=
  c.isAlphanum || "_@%+=:,./~-".toList.contains c

/-- The text between the outer quotes of a POSIX word. -/
def posixBody : List Char → List Char
  | [] => []
  | c :: rest =>
    if c = '\'' then '\'' :: '"' :: '\'' :: '"' :: '\'' :: posixBody rest
    else c :: posixBody rest

/-- The POSIX word of a text, as characters. -/
def posixChars (s : List Char) : List Char :=
  if !s.isEmpty && s.all isPlain then s else '\'' :: (posixBody s ++ ['\''])

/-- The word that a POSIX shell reads as the given text. -/
def posix (s : String) : String := String.ofList (posixChars s.toList)

/-- The text between the quotes of a PowerShell literal. -/
def powershellBody : List Char → List Char
  | [] => []
  | c :: rest => if c = '\'' then '\'' :: '\'' :: powershellBody rest else c :: powershellBody rest

/-- The PowerShell literal of a text, as characters. -/
def powershellChars (s : List Char) : List Char :=
  '\'' :: (powershellBody s ++ ['\''])

/-- The literal that PowerShell reads as the given text. -/
def powershell (s : String) : String := String.ofList (powershellChars s.toList)

end ProjectScript.Quote
