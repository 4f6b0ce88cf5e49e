import ProjectScript.Environment

/-!
# The command line

Options come first: `--dialect` and `--plugins` with a value each, and the requests for help and
for the version. From the first word that is no option on, all words belong to the project as they
stand; a word `--` ends the options as well, and is dropped. A word with dashes that is no known
option counts as the value of an option that waits for one, or as the first word of the project.

* `parse`: reads the whole command line;
* `operand`: reads the words of a command that takes one operand.
-/

namespace ProjectScript

/-- What a command line is about: options, and the words that follow them. -/
structure CommandLine where
  dialect : Option String
  plugins : Option String
  words : List String
  deriving DecidableEq, Repr

namespace CommandLine

/-- Why a command line gives no words to run: it asks for a text, or it is not well formed. -/
inductive Error
  | helpRequested
  | versionRequested
  /-- An option has no value. -/
  | missingValue
  /-- A request has a value. -/
  | needlessValue
  /-- An option is given twice. -/
  | repeatedOption
  | unknownArgument
  | missingOperand
  deriving DecidableEq, Repr

/-- An option with a value. -/
inductive Flag
  | dialect
  | plugins
  deriving DecidableEq, Repr

/-- What a word is on the command line. -/
inductive WordKind
  /-- The end of the options. -/
  | endOfOptions
  /-- An option, with a value if one is attached. -/
  | option (f : Flag) (value : Option String)
  /-- A request for a text. -/
  | request (e : Error)
  /-- A request with a value. -/
  | requestWithValue
  | plain
  deriving DecidableEq, Repr

/-- The name and the attached value of a word that starts with two dashes. -/
def splitValue (cs : List Char) : String × Option String :=
  match cs.dropWhile (· ≠ '=') with
  | [] => (String.ofList cs, none)
  | _ :: value => (String.ofList (cs.takeWhile (· ≠ '=')), some (String.ofList value))

/-- What a word with a long name is. -/
def longKind (name : String) (value : Option String) : WordKind :=
  if name = "dialect" then .option .dialect value
  else if name = "plugins" then .option .plugins value
  else if name = "help" then if value.isSome then .requestWithValue else .request .helpRequested
  else if name = "version" then
    if value.isSome then .requestWithValue else .request .versionRequested
  else .plain

/-- What a word with the given letters behind one dash is: a request, when all of them are letters
of requests. The first one counts. -/
def lettersKind (cs : List Char) : WordKind :=
  if cs.all fun c => c = 'h' || c = 'V' then
    match cs with
    | [] => .plain
    | c :: _ => .request (if c = 'h' then .helpRequested else .versionRequested)
  else .plain

/-- What a word is. -/
def kind (word : String) : WordKind :=
  match word.toList with
  | ['-', '-'] => .endOfOptions
  | '-' :: '-' :: cs => (fun (name, value) => longKind name value) (splitValue cs)
  | '-' :: cs => lettersKind cs
  | _ => .plain

/-- The value of an option. -/
def get? (c : CommandLine) : Flag → Option String
  | .dialect => c.dialect
  | .plugins => c.plugins

/-- Gives an option its value; it must not have one. -/
def set (c : CommandLine) (f : Flag) (value : String) : Except Error CommandLine :=
  if (c.get? f).isSome then .error .repeatedOption
  else
    match f with
    | .dialect => .ok { c with dialect := some value }
    | .plugins => .ok { c with plugins := some value }

/-- An option that has been read, with its value if that has been read too. -/
abbrev Pending := Option (Flag × Option String)

/-- Gives an option that has been read its value. -/
def settle (c : CommandLine) : Pending → Except Error CommandLine
  | none => .ok c
  | some (_, none) => .error .missingValue
  | some (f, some value) => c.set f value

/-- Reads the rest of a command line. -/
def parseFrom (c : CommandLine) (p : Pending) : List String → Except Error CommandLine
  | [] => c.settle p
  | word :: rest =>
    match kind word with
    | .endOfOptions => do
      let c ← c.settle p
      return { c with words := rest }
    | .option f (some value) => do
      let c ← c.settle p
      let c ← c.set f value
      parseFrom c none rest
    | .option f none => do
      let c ← c.settle p
      parseFrom c (some (f, none)) rest
    | .request e => do
      let _ ← c.settle p
      .error e
    | .requestWithValue => .error .needlessValue
    | .plain =>
      match p with
      | some (f, none) => parseFrom c (some (f, some word)) rest
      | p => do
        let c ← c.settle p
        return { c with words := word :: rest }

/-- The variables that stand in for options that are not given. -/
def flagVariable : Flag → String
  | .dialect => "PM_DIALECT"
  | .plugins => "PM_PLUGIN_DIR"

/-- Takes the options that are not given from variables. -/
def withEnvironment (env : Environment) (c : CommandLine) : CommandLine :=
  { c with
    dialect := c.dialect.or (env (flagVariable .dialect))
    plugins := c.plugins.or (env (flagVariable .plugins)) }

/-- Reads a command line. -/
def parse (env : Environment) (argv : List String) : Except Error CommandLine :=
  (parseFrom ⟨none, none, []⟩ none argv).map (withEnvironment env)

/-! ## Commands with one operand -/

/-- Reads the words behind the end of the options. -/
def operandAfterEnd (found : Option String) : List String → Except Error String
  | [] => found.elim (.error .missingOperand) .ok
  | word :: rest =>
    match found with
    | some _ => .error .unknownArgument
    | none => operandAfterEnd (some word) rest

/-- Reads the words of a command that takes one operand and no options but the request for
help. -/
def operandFrom (found : Option String) : List String → Except Error String
  | [] => found.elim (.error .missingOperand) .ok
  | word :: rest =>
    match word.toList with
    | ['-', '-'] => operandAfterEnd found rest
    | '-' :: '-' :: cs =>
      match splitValue cs with
      | ("help", none) => .error .helpRequested
      | ("help", some _) => .error .needlessValue
      | _ => .error .unknownArgument
    | '-' :: 'h' :: _ => .error .helpRequested
    | '-' :: _ :: _ => .error .unknownArgument
    | _ =>
      match found with
      | some _ => .error .unknownArgument
      | none => operandFrom (some word) rest

/-- The operand of a command. -/
def operand (words : List String) : Except Error String := operandFrom none words

end CommandLine

end ProjectScript
