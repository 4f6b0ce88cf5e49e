import ProjectScript.Environment
import ProjectScript.Text.Letter

/-!
# Variables and the home directory in paths

A path may refer to variables, as `$name`, `${name}` or `${name:-default}`, and start with `~` for
the home directory. Two dollar signs stand for one, and a dollar sign that opens no reference
stands for itself. Values are not read again.

* `expand`: an unset variable without a default is an error;
* `expandLenient`: an unset variable stands for nothing, whatever its default.
-/

namespace ProjectScript.Path

/-- A reference to a variable, with its default. -/
structure Variable where
  name : List Char
  default : Option (List Char)
  deriving DecidableEq, Repr

/-- A part of a path: a character of its own, or a reference. -/
inductive Piece
  | char (c : Char)
  | variable (v : Variable)
  deriving DecidableEq, Repr

/-- A character of a name that is not in braces. -/
def isNameChar (c : Char) : Bool := Text.isLetterOrNumber c || c == '_'

/-- The text before the first `:-` and the text behind it. -/
def splitDefault : List Char → Option (List Char × List Char)
  | [] => none
  | ':' :: '-' :: rest => some ([], rest)
  | c :: rest => (splitDefault rest).map fun (name, d) => (c :: name, d)

/-- The reference that stands between braces. A default needs a name before it. -/
def bracedVariable (inner : List Char) : Variable :=
  match splitDefault inner with
  | some (c :: name, d) => ⟨c :: name, some d⟩
  | _ => ⟨inner, none⟩

/-- Reads a reference behind its opening brace; none when no brace closes it. -/
def readBraced (cs : List Char) : Option (Variable × List Char) :=
  match cs.dropWhile (· ≠ '\x7d') with
  | [] => none
  | _ :: rest => some (bracedVariable (cs.takeWhile (· ≠ '\x7d')), rest)

theorem length_readBraced {cs rest : List Char} {v : Variable}
    (h : readBraced cs = some (v, rest)) : rest.length < cs.length := by
  unfold readBraced at h
  split at h
  · cases h
  · rename_i hd
    obtain ⟨-, rfl⟩ := Prod.mk.inj (Option.some.inj h)
    have := (List.dropWhile_sublist (l := cs) (· ≠ '\x7d')).length_le
    rw [hd, List.length_cons] at this
    omega

/-- Cuts a path into references and the characters between them. -/
def pieces : List Char → List Piece
  | [] => []
  | '$' :: '\x7b' :: rest =>
    match _h : readBraced rest with
    | some (v, rest') => .variable v :: pieces rest'
    | none => .char '$' :: .char '\x7b' :: pieces rest
  | '$' :: '$' :: rest => .char '$' :: pieces rest
  | '$' :: c :: rest =>
    if isNameChar c then
      .variable ⟨c :: rest.takeWhile isNameChar, none⟩ :: pieces (rest.dropWhile isNameChar)
    else .char '$' :: pieces (c :: rest)
  | c :: rest => .char c :: pieces rest
termination_by cs => cs.length
decreasing_by
  all_goals simp only [List.length_cons]
  · have := length_readBraced _h
    omega
  · omega
  · omega
  · have := (List.dropWhile_sublist (l := rest) isNameChar).length_le
    omega
  · omega
  · omega

/-- Puts values for the references; the first one that has none is the error. -/
def substitute (env : Environment) : List Piece → Except String (List Char)
  | [] => .ok []
  | .char c :: ps => (substitute env ps).map (c :: ·)
  | .variable v :: ps =>
    let name := String.ofList v.name
    match (env name).map String.toList |>.or v.default with
    | some value => (substitute env ps).map (value ++ ·)
    | none => .error name

/-- Puts values for the references, and nothing for a variable that is not set. -/
def substituteLenient (env : Environment) : List Piece → List Char
  | [] => []
  | .char c :: ps => c :: substituteLenient env ps
  | .variable v :: ps =>
    ((env (String.ofList v.name)).getD "").toList ++ substituteLenient env ps

/-- Puts the home directory for a tilde that stands alone or before a slash. -/
def expandTilde (home : Option String) (cs : List Char) : List Char :=
  match home, cs with
  | some home, '~' :: rest => if rest = [] ∨ rest.head? = some '/' then home.toList ++ rest else cs
  | _, _ => cs

/-- The path that an expanded text is. A tilde counts only where the text as written starts with
one. -/
def finish (env : Environment) (raw : String) (expanded : List Char) : String :=
  String.ofList
    (if raw.toList.head? = some '~' then expandTilde env.home? expanded else expanded)

/-- Expands a path. The error is the name of the first variable that is not set and has no
default. -/
def expand (env : Environment) (raw : String) : Except String String :=
  (substitute env (pieces raw.toList)).map (finish env raw)

/-- Expands a path, with nothing for a variable that is not set. -/
def expandLenient (env : Environment) (raw : String) : String :=
  finish env raw (substituteLenient env (pieces raw.toList))

end ProjectScript.Path
