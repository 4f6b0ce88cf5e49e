/-!
# Commands of small shell scripts

The commands that a script may use. Each takes its arguments and the bytes that it may read, and
gives what it writes, what it leaves to read, and its status; `exit` and a signal end the script.

Output of `echo` and of `printf` is given by their own escapes: a backslash and a letter, or a
backslash and an octal number for a byte.
-/

namespace ProjectScript.Shell

/-- Bytes that a command reads or writes. -/
abbrev Bytes := List UInt8

/-- The bytes of a text. -/
def bytesOf (cs : List Char) : Bytes := (String.ofList cs).toUTF8.toList

/-- How a script goes on after a command: it runs on, or it ends with a code, or with none by a
signal. -/
inductive Outcome
  | running
  | ended (code : Option Nat)
  deriving DecidableEq, Repr

/-- What a command does. -/
structure Effect where
  /-- What it leaves to read. -/
  input : Bytes
  output : Bytes := []
  status : Nat := 0
  outcome : Outcome := .running
  deriving DecidableEq, Repr

/-! ## Escapes -/

/-- The byte that a letter behind a backslash stands for. -/
def escapeByte? (c : Char) : Option UInt8 :=
  match c with
  | 'a' => some 7
  | 'b' => some 8
  | 'f' => some 12
  | 'n' => some 10
  | 'r' => some 13
  | 't' => some 9
  | 'v' => some 11
  | '\\' => some 92
  | _ => none

/-- A digit of an octal number. -/
def isOctal (c : Char) : Bool := '0' ≤ c && c ≤ '7'

/-- The value of octal digits. -/
def octalValue (ds : List Char) : Nat := ds.foldl (fun n d => n * 8 + (d.toNat - '0'.toNat)) 0

/-- The octal digits at the front of a text, at most `n`. -/
def octalDigits (n : Nat) (cs : List Char) : List Char := (cs.take n).takeWhile isOctal

/-- The bytes of a text with escapes, where an octal number has a zero before it. Also whether
output ends here. -/
def unescape : (fuel : Nat) → List Char → Bytes × Bool
  | 0, _ => ([], false)
  | _, [] => ([], false)
  | _, '\\' :: 'c' :: _ => ([], true)
  | fuel + 1, '\\' :: '0' :: rest =>
    let ds := octalDigits 3 rest
    let (bs, stop) := unescape fuel (rest.drop ds.length)
    (UInt8.ofNat (octalValue ds) :: bs, stop)
  | fuel + 1, '\\' :: c :: rest =>
    let (bs, stop) := unescape fuel rest
    ((escapeByte? c).elim (bytesOf ['\\', c]) ([·]) ++ bs, stop)
  | fuel + 1, c :: rest =>
    let (bs, stop) := unescape fuel rest
    (bytesOf [c] ++ bs, stop)

/-! ## Commands -/

/-- Writes its arguments on a line; with `-n` first, without the end of the line. -/
def echo (args : List (List Char)) : Bytes :=
  let (args, newline) :=
    match args with
    | ['-', 'n'] :: args => (args, false)
    | args => (args, true)
  let text := List.intercalate [' '] args
  let (bs, stop) := unescape (text.length + 1) text
  if newline && !stop then bs ++ [10] else bs

/-- One pass over a format. Gives what it writes and the arguments left. -/
def formatOnce : (fuel : Nat) → List Char → List (List Char) → Bytes × List (List Char)
  | 0, _, args => ([], args)
  | _, [], args => ([], args)
  | fuel + 1, '%' :: '%' :: rest, args =>
    let (bs, args) := formatOnce fuel rest args
    (37 :: bs, args)
  | fuel + 1, '%' :: c :: rest, args =>
    let arg := args.headD []
    let (bs, left) := formatOnce fuel rest args.tail
    if c = 's' then (bytesOf arg ++ bs, left)
    else if c = 'b' then ((unescape (arg.length + 1) arg).1 ++ bs, left)
    else if c = 'c' then (bytesOf (arg.take 1) ++ bs, left)
    else if c = 'd' ∨ c = 'i' then
      (bytesOf (toString ((String.ofList arg).toInt?.getD 0)).toList ++ bs, left)
    else
      let (bs, args) := formatOnce fuel rest args
      (bytesOf ['%', c] ++ bs, args)
  | fuel + 1, '\\' :: c :: rest, args =>
    let ds := octalDigits 3 (c :: rest)
    if ds.isEmpty then
      let (bs, args) := formatOnce fuel rest args
      let b := if c = '"' then [34] else (escapeByte? c).elim (bytesOf ['\\', c]) ([·])
      (b ++ bs, args)
    else
      let (bs, args) := formatOnce fuel ((c :: rest).drop ds.length) args
      (UInt8.ofNat (octalValue ds) :: bs, args)
  | fuel + 1, c :: rest, args =>
    let (bs, args) := formatOnce fuel rest args
    (bytesOf [c] ++ bs, args)

/-- Writes its arguments by a format, which is used again while arguments are left. -/
def formatAll : (fuel : Nat) → List Char → List (List Char) → Bytes
  | 0, _, _ => []
  | fuel + 1, format, args =>
    let (bs, left) := formatOnce (format.length + 1) format args
    if left.isEmpty || left.length = args.length then bs else bs ++ formatAll fuel format left

/-- The number that an argument of a test writes. -/
def number? (cs : List Char) : Option Int := (String.ofList cs).toInt?

/-- Whether a test of two numbers holds. -/
def compare? (op : String) (a b : List Char) : Option Bool := do
  let a ← number? a
  let b ← number? b
  if op = "-eq" then some (a == b)
  else if op = "-ne" then some (a != b)
  else if op = "-lt" then some (a < b)
  else if op = "-le" then some (a ≤ b)
  else if op = "-gt" then some (b < a)
  else if op = "-ge" then some (b ≤ a)
  else none

/-- Whether a test holds; none when it is not well formed. -/
def test? : List (List Char) → Option Bool
  | [] => some false
  | ['!'] :: a :: args => (test? (a :: args)).map (!·)
  | [a] => some (!a.isEmpty)
  | [op, a] =>
    if op = ['-', 'n'] then some (!a.isEmpty)
    else if op = ['-', 'z'] then some a.isEmpty
    else none
  | [a, op, b] =>
    if op = ['='] then some (a == b)
    else if op = ['!', '='] then some (a != b)
    else compare? (String.ofList op) a b
  | _ => none

/-- The status of a test. -/
def testStatus (args : List (List Char)) : Nat :=
  match test? args with
  | some true => 0
  | some false => 1
  | none => 2

/-! ## Filters -/

/-- The bytes of a set: characters, escapes, and ranges from one character to another. -/
def byteSet : List Char → Bytes
  | '\\' :: c :: rest => (escapeByte? c).elim (bytesOf [c]) ([·]) ++ byteSet rest
  | a :: '-' :: b :: rest =>
    (List.range (b.toNat + 1 - a.toNat)).map (fun i => UInt8.ofNat (a.toNat + i)) ++ byteSet rest
  | c :: rest => bytesOf [c] ++ byteSet rest
  | [] => []

/-- The byte that stands in one set where `b` stands in another; the last one when it has none
there. -/
def mapByte (source target : Bytes) (b : UInt8) : UInt8 :=
  match source.idxOf? b with
  | none => b
  | some i => target.getD i (target.getLast?.getD b)

/-- The first `n` lines. -/
def firstLines : (n : Nat) → Bytes → Bytes
  | 0, _ => []
  | _, [] => []
  | n + 1, b :: bs => b :: firstLines (if b = 10 then n else n + 1) bs

/-- A number on a line. -/
def numberLine (n : Nat) : Bytes := bytesOf (toString n ++ "\n").toList

/-- What a filter writes for what it reads; none when it is not known, or not with these
arguments. -/
def filter? (name : String) (args : List (List Char)) (input : Bytes) : Option Bytes :=
  if name = "cat" then if args.isEmpty ∨ args = [['-']] then some input else none
  else if name = "tr" then
    match args with
    | [['-', 'd'], set] => some (input.filter fun b => !(byteSet set).contains b)
    | [source, target] => some (input.map (mapByte (byteSet source) (byteSet target)))
    | _ => none
  else if name = "wc" then
    match args with
    | [['-', 'c']] => some (numberLine input.length)
    | [['-', 'l']] => some (numberLine (input.count 10))
    | _ => none
  else if name = "head" then
    match args with
    | [] => some (firstLines 10 input)
    | [['-', 'n'], n] => (String.ofList n).toNat?.map (firstLines · input)
    | [['-', 'c'], n] => (String.ofList n).toNat?.map (input.take ·)
    | ['-' :: n] => (String.ofList n).toNat?.map (firstLines · input)
    | _ => none
  else none

/-! ## Any command -/

/-- The status of a command that is not there. -/
def notFoundStatus : Nat := 127

/-- The status of a use that makes no sense. -/
def usageStatus : Nat := 2

/-- The code that `exit` ends a script with. -/
def exitCode (last : Nat) (args : List (List Char)) : Nat :=
  match args.head? with
  | none => last
  | some arg => ((String.ofList arg).toNat?.map (· % 256)).getD usageStatus

/-- What a command does; `here` is the current directory, `last` the status of the pipeline before
it, `process` the text of the shell's process. -/
def command (here : List Char) (last : Nat) (process : List Char) (name : String)
    (args : List (List Char)) (input : Bytes) : Effect :=
  if let some output := filter? name args input then ⟨[], output, 0, .running⟩
  else if name = "pwd" then ⟨input, bytesOf (here ++ ['\n']), 0, .running⟩
  else if name = "echo" then ⟨input, echo args, 0, .running⟩
  else if name = "printf" then
    match args with
    | [] => ⟨input, [], usageStatus, .running⟩
    | format :: args => ⟨input, formatAll (args.length + 1) format args, 0, .running⟩
  else if name = "exit" then
    let code := exitCode last args
    ⟨input, [], code, .ended (some code)⟩
  else if name = "kill" then
    if args.contains process then ⟨input, [], 0, .ended none⟩ else ⟨input, [], 1, .running⟩
  else if name = "true" ∨ name = ":" ∨ name = "set" then ⟨input, [], 0, .running⟩
  else if name = "false" then ⟨input, [], 1, .running⟩
  else if name = "test" then ⟨input, [], testStatus args, .running⟩
  else if name = "[" then
    if args.getLast? = some [']'] then ⟨input, [], testStatus args.dropLast, .running⟩
    else ⟨input, [], usageStatus, .running⟩
  else ⟨input, [], notFoundStatus, .running⟩

end ProjectScript.Shell
