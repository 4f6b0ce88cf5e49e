import ProjectScript.CallArguments
import ProjectScript.Project
import ProjectScript.Template.Grammar
import ProjectScript.Template.Miss
import ProjectScript.Value.Path

/-!
# Expanding templates

The references of a template are replaced in four stages, each reading the text that the one
before it leaves: variables of the environment, parameters, configuration paths, function calls.
The lines of a called function are expanded in the same way, with the parameters of the call and
with one more frame on the stack that relative paths look into.

* `expand`: the expansion within a given number of nested calls;
* `render`: the expansion with `callLimit` calls within one another, less the frames that stand
  already.

An expansion always has a text; what it could not resolve is listed in the order it was met.
-/

namespace ProjectScript.Template

/-- What references are resolved against. -/
structure Scope where
  env : String → Option String
  project : Project
  globals : Globals

/-- An expanded text and the references that resolved to nothing. -/
structure Expansion where
  text : List Char
  misses : List Miss
  deriving DecidableEq, Repr

namespace Expansion

/-- A text in which every reference resolved. -/
def ofText (s : String) : Expansion := ⟨s.toList, []⟩

/-- A reference that resolved to nothing. -/
def miss (m : Miss) : Expansion := ⟨[], [m]⟩

/-- One expansion after another. -/
def append (a b : Expansion) : Expansion := ⟨a.text ++ b.text, a.misses ++ b.misses⟩

instance : Append Expansion := ⟨append⟩

/-- A text that holds no references, or nothing and a miss. -/
def ofOption (o : Option String) (m : Miss) : Expansion :=
  match o with
  | some s => ofText s
  | none => miss m

/-- Goes on with the text of an expansion. -/
def andThen (a : Expansion) (f : List Char → Expansion) : Expansion :=
  let b := f a.text
  ⟨b.text, a.misses ++ b.misses⟩

/-- Expansions joined by a text between each two. -/
def join (sep : List Char) : List Expansion → Expansion
  | [] => ⟨[], []⟩
  | [e] => e
  | e :: es => e ++ ⟨sep, []⟩ ++ join sep es

end Expansion

/-- Replaces each reference of a cut text by its expansion. -/
def replace {ρ : Type} (value : ρ → Expansion) : List (Piece ρ) → Expansion
  | [] => ⟨[], []⟩
  | .char c :: ps =>
    let e := replace value ps
    ⟨c :: e.text, e.misses⟩
  | .ref r :: ps => value r ++ replace value ps

/-- One stage: replaces the references of one kind. -/
def Grammar.fill {ρ : Type} (g : Grammar ρ) (value : ρ → Expansion) (text : List Char) :
    Expansion :=
  replace value (g.pieces text)

/-- The prefix of names and paths that belong to the global scope. -/
def globalPrefix : List Char := "global.".toList

/-- The rest of a name behind the global prefix. -/
def globalName? (name : String) : Option String :=
  if globalPrefix.isPrefixOf name.toList then
    some (String.ofList (name.toList.drop globalPrefix.length))
  else none

/-- The node that a configuration path names. The global prefix selects the global document; `k`
leading dots select the `k`-th frame from the innermost one; any other path looks into the view of
the project. -/
def lookup (s : Scope) (frames : List Value) (path : String) : Option Value :=
  match globalName? path with
  | some rest => s.globals.document.dig rest
  | none =>
    let dots := (path.toList.takeWhile (· == '.')).length
    if dots = 0 then s.project.view.dig path
    else if dots ≤ frames.length then
      frames[frames.length - dots]?.bind fun frame =>
        frame.dig (String.ofList (path.toList.drop dots))
    else none

/-- The function of a name. -/
def function? (s : Scope) (name : String) : Option Function :=
  match globalName? name with
  | some rest => s.globals.functions.get? rest
  | none => s.project.functions.get? name

/-- The parameters of a call: its arguments over the defaults. -/
def bind (f : Function) (args : String) : Table String :=
  (f.params.filterMap fun _ p => p.seed).overlay (CallArguments.parse args)

/-- The first required parameter, in the order of names, that has no value. -/
def unbound? (f : Function) (params : Table String) : Option String :=
  (f.params.entries.find? fun (name, p) => p.required && !params.contains name).map (·.1)

/-- The frame that relative paths look into while a function is expanded. -/
def frame (f : Function) : Value := .object [("func", f.toValue)]

/-- How the line of a function is expanded: with the stack of frames and the parameters. -/
abbrev Expander := List Value → Table String → List Char → Expansion

/-- What stands between the lines of a function. -/
def lineSeparator : List Char := " && ".toList

/-- The expansion of a call; `inner` expands the lines, if one more call may be nested. -/
def expandCall (s : Scope) (inner : Option Expander) (frames : List Value) (c : Call) :
    Expansion :=
  match function? s c.name with
  | none => .miss (.unknownFunction c.name)
  | some f =>
    match inner with
    | none => .miss (.tooDeep c.name)
    | some inner =>
      let params := bind f c.args
      match unbound? f params with
      | some p => .miss (.missingRequired c.name p)
      | none =>
        let expandLine (line : String) := inner (frames ++ [frame f]) params line.toList
        .join lineSeparator (f.script.map expandLine)

/-- The four stages. -/
def stages (s : Scope) (inner : Option Expander) : Expander := fun frames params text =>
  (env.fill (fun n => .ofOption (s.env n) (.unsetVariable n)) text).andThen fun text =>
  (param.fill (fun n => .ofOption (params.get? n) (.absentParameter n)) text).andThen fun text =>
  (config.fill (fun p => .ofOption ((lookup s frames p).map Value.inline) (.noSuchPath p))
    text).andThen fun text =>
  call.fill (expandCall s inner frames) text

/-- The expansion of a template with at most `depth` calls within one another. -/
def expand (s : Scope) : (depth : Nat) → Expander
  | 0 => stages s none
  | depth + 1 => stages s (some (expand s depth))

/-- The expansion of a template when at most `limit` frames may stand on the stack. -/
def renderWithin (limit : Nat) (s : Scope) (frames : List Value) (params : Table String)
    (text : String) : Expansion :=
  expand s (limit - frames.length) frames params text.toList

/-- The expansion of a template. -/
def render (s : Scope) (frames : List Value) (params : Table String) (text : String) : Expansion :=
  renderWithin callLimit s frames params text

end ProjectScript.Template
