/-!
# The syntax of small shell scripts

A script is a list of pipelines, each run always or by the outcome of the one before. A pipeline
joins commands; a command is a list of words and of redirections. There are no compound commands,
no assignments and no substitution of commands.

* `Word`: text, quoted or not, and parameters;
* `tokens`: the lexical units of a script;
* `parse`: the pipelines of a script.
-/

namespace ProjectScript.Shell

/-- A parameter of a shell. -/
inductive Param
  | positional (n : Nat)
  /-- The number of arguments. -/
  | count
  /-- The arguments. -/
  | all
  /-- The status of the last pipeline. -/
  | status
  /-- The process of the shell. -/
  | process
  | named (name : List Char)
  deriving DecidableEq, Repr

/-- A part of a word. -/
inductive Part
  | text (cs : List Char)
  | param (p : Param) (quoted : Bool)
  deriving DecidableEq, Repr

/-- A word. -/
abbrev Word := List Part

/-- Where an output or an input goes. -/
inductive Redirection
  /-- Output of a stream to a file. -/
  | toFile (stream : Nat) (file : Word)
  /-- Output of a stream to where another stream goes. -/
  | toStream (stream : Nat) (target : Word)
  /-- Input from a file. -/
  | fromFile (file : Word)
  deriving DecidableEq, Repr

/-- A lexical unit. -/
inductive Token
  | word (w : Word)
  | lineEnd
  | and
  | or
  | pipe
  /-- The sign of a redirection, with the stream it is about. -/
  | greater (stream : Nat)
  | greaterAnd (stream : Nat)
  | less
  deriving DecidableEq, Repr

/-! ## Words -/

/-- A character that ends a word. -/
def isMeta (c : Char) : Bool := " \t\n;&|<>()".toList.contains c

/-- A character of a variable's name. -/
def isNameChar (c : Char) : Bool := c.isAlphanum || c == '_'

/-- The parameter of a name. -/
def paramOfName (name : List Char) : Param :=
  match (String.ofList name).toNat? with
  | some n => .positional n
  | none => .named name

/-- Reads a parameter behind its dollar sign. -/
def readParam : List Char → Option (Param × List Char)
  | '#' :: rest => some (.count, rest)
  | '*' :: rest => some (.all, rest)
  | '@' :: rest => some (.all, rest)
  | '?' :: rest => some (.status, rest)
  | '$' :: rest => some (.process, rest)
  | '\x7b' :: rest =>
    match rest.takeWhile isNameChar, rest.dropWhile isNameChar with
    | c :: name, '\x7d' :: rest => some (paramOfName (c :: name), rest)
    | _, _ => none
  | c :: rest =>
    if c.isDigit then some (.positional (c.toNat - '0'.toNat), rest)
    else if isNameChar c then
      some (.named (c :: rest.takeWhile isNameChar), rest.dropWhile isNameChar)
    else none
  | [] => none

/-- Reads text in double quotes up to the closing one. -/
def readDouble : (fuel : Nat) → List Char → Option (Word × List Char)
  | 0, _ => none
  | _, [] => none
  | _, '"' :: rest => some ([], rest)
  | fuel + 1, '\\' :: c :: rest =>
    (readDouble fuel rest).map fun (w, rest) =>
      if c = '\n' then (w, rest)
      else if c = '$' ∨ c = '\x60' ∨ c = '"' ∨ c = '\\' then (.text [c] :: w, rest)
      else (.text ['\\', c] :: w, rest)
  | fuel + 1, '$' :: rest =>
    match readParam rest with
    | some (p, rest) => (readDouble fuel rest).map fun (w, rest) => (.param p true :: w, rest)
    | none => (readDouble fuel rest).map fun (w, rest) => (.text ['$'] :: w, rest)
  | fuel + 1, c :: rest => (readDouble fuel rest).map fun (w, rest) => (.text [c] :: w, rest)

/-- Reads a word. -/
def readWord : (fuel : Nat) → List Char → Option (Word × List Char)
  | 0, _ => none
  | _, [] => some ([], [])
  | fuel + 1, c :: rest =>
    if isMeta c then some ([], c :: rest)
    else if c = '\'' then
      match rest.dropWhile (· ≠ '\'') with
      | [] => none
      | _ :: after =>
        (readWord fuel after).map fun (w, rest') =>
          (.text (rest.takeWhile (· ≠ '\'')) :: w, rest')
    else if c = '"' then do
      let (inner, rest) ← readDouble (rest.length + 1) rest
      let (w, rest) ← readWord fuel rest
      return (.text [] :: inner ++ w, rest)
    else if c = '\\' then
      match rest with
      | [] => some ([.text ['\\']], [])
      | d :: rest =>
        (readWord fuel rest).map fun (w, rest) =>
          (if d = '\n' then w else .text [d] :: w, rest)
    else if c = '$' then
      match readParam rest with
      | some (p, rest) => (readWord fuel rest).map fun (w, rest) => (.param p false :: w, rest)
      | none => (readWord fuel rest).map fun (w, rest) => (.text ['$'] :: w, rest)
    else (readWord fuel rest).map fun (w, rest) => (.text [c] :: w, rest)

/-! ## Tokens -/

/-- The lexical units of a script. -/
def tokens : (fuel : Nat) → List Char → Option (List Token)
  | 0, _ => none
  | _, [] => some []
  | fuel + 1, c :: rest =>
    match c, rest with
    | ' ', _ => tokens fuel rest
    | '\t', _ => tokens fuel rest
    | '\\', '\n' :: rest => tokens fuel rest
    | '#', _ => tokens fuel (rest.dropWhile (· ≠ '\n'))
    | '\n', _ => (tokens fuel rest).map (.lineEnd :: ·)
    | ';', _ => (tokens fuel rest).map (.lineEnd :: ·)
    | '&', '&' :: rest => (tokens fuel rest).map (.and :: ·)
    | '|', '|' :: rest => (tokens fuel rest).map (.or :: ·)
    | '|', _ => (tokens fuel rest).map (.pipe :: ·)
    | '>', '>' :: rest => (tokens fuel rest).map (.greater 1 :: ·)
    | '>', '&' :: rest => (tokens fuel rest).map (.greaterAnd 1 :: ·)
    | '>', _ => (tokens fuel rest).map (.greater 1 :: ·)
    | '<', _ => (tokens fuel rest).map (.less :: ·)
    | '1', '>' :: '&' :: rest => (tokens fuel rest).map (.greaterAnd 1 :: ·)
    | '2', '>' :: '&' :: rest => (tokens fuel rest).map (.greaterAnd 2 :: ·)
    | '1', '>' :: rest => (tokens fuel rest).map (.greater 1 :: ·)
    | '2', '>' :: rest => (tokens fuel rest).map (.greater 2 :: ·)
    | _, _ =>
      if isMeta c then none
      else do
        let (w, rest) ← readWord (rest.length + 2) (c :: rest)
        let ts ← tokens fuel rest
        return .word w :: ts

/-! ## Pipelines -/

/-- A command: words, and where its streams go. -/
structure Command where
  words : List Word
  redirections : List Redirection
  deriving DecidableEq, Repr

/-- When a pipeline runs: always, or by the outcome of the one before. -/
inductive Condition
  | always
  | afterSuccess
  | afterFailure
  deriving DecidableEq, Repr

/-- Commands, each reading what the one before writes. -/
structure Pipeline where
  condition : Condition
  commands : List Command
  deriving DecidableEq, Repr

/-- Reads a command; there must be something to it. -/
def readCommand : List Token → Option (Command × List Token)
  | .word w :: ts => extend (⟨[w], []⟩ : Command) ts
  | .greater n :: .word w :: ts => extend ⟨[], [.toFile n w]⟩ ts
  | .greaterAnd n :: .word w :: ts => extend ⟨[], [.toStream n w]⟩ ts
  | .less :: .word w :: ts => extend ⟨[], [.fromFile w]⟩ ts
  | _ => none
where
  /-- Adds the words and redirections that follow. -/
  extend (c : Command) : List Token → Option (Command × List Token)
    | .word w :: ts => extend { c with words := c.words ++ [w] } ts
    | .greater n :: .word w :: ts =>
      extend { c with redirections := c.redirections ++ [.toFile n w] } ts
    | .greaterAnd n :: .word w :: ts =>
      extend { c with redirections := c.redirections ++ [.toStream n w] } ts
    | .less :: .word w :: ts =>
      extend { c with redirections := c.redirections ++ [.fromFile w] } ts
    | .greater _ :: _ => none
    | .greaterAnd _ :: _ => none
    | .less :: _ => none
    | ts => some (c, ts)

/-- Drops the ends of lines at the front. -/
def skipLineEnds (ts : List Token) : List Token := ts.dropWhile (· == .lineEnd)

/-- Reads the commands of a pipeline. -/
def readPipeline : (fuel : Nat) → List Token → Option (List Command × List Token)
  | 0, _ => none
  | fuel + 1, ts => do
    let (c, ts) ← readCommand ts
    match ts with
    | .pipe :: ts =>
      let (cs, ts) ← readPipeline fuel (skipLineEnds ts)
      return (c :: cs, ts)
    | ts => return ([c], ts)

/-- Reads pipelines, the first of which runs under a condition. -/
def readPipelines : (fuel : Nat) → Condition → List Token → Option (List Pipeline)
  | 0, _, _ => none
  | fuel + 1, condition, ts => do
    let ts := skipLineEnds ts
    if ts.isEmpty then if condition = .always then return [] else none
    else
      let (cs, ts) ← readPipeline (ts.length + 1) ts
      let rest ←
        match ts with
        | [] => some []
        | .lineEnd :: ts => readPipelines fuel .always ts
        | .and :: ts => readPipelines fuel .afterSuccess ts
        | .or :: ts => readPipelines fuel .afterFailure ts
        | _ => none
      return ⟨condition, cs⟩ :: rest

/-- The pipelines of a script; none when it is not one. -/
def parse (script : List Char) : Option (List Pipeline) :=
  (tokens (script.length + 1) script).bind fun ts => readPipelines (ts.length + 1) .always ts

end ProjectScript.Shell
