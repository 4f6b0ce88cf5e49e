/-!
# References in a template

A template is text with references of four kinds. A grammar tells where a reference of one kind
stands: `Grammar.read` takes a reference off the front of a text. `Grammar.pieces` cuts a text,
from the left, into references and the characters between them; a reference that fails to read is
no reference, and the reading goes on at its second character.

* `env`: a variable of the environment, `$` and a name in braces;
* `param`: a parameter, `@` and a name in braces;
* `config`: a path into the configuration, `#` and any text in braces;
* `call`: a function call, `_` and in braces a name and arguments in parentheses, on one line.
-/

namespace ProjectScript.Template

/-- A kind of reference: how one is read off the front of a text. -/
structure Grammar (ρ : Type) where
  read : List Char → Option (ρ × List Char)
  shorter : ∀ {cs r rest}, read cs = some (r, rest) → rest.length < cs.length

/-- A part of a template: a character of its own, or a reference. -/
inductive Piece (ρ : Type)
  | char (c : Char)
  | ref (r : ρ)
  deriving DecidableEq, Repr

/-- Cuts a text into references and the characters between them. -/
def Grammar.pieces {ρ : Type} (g : Grammar ρ) : List Char → List (Piece ρ)
  | [] => []
  | c :: cs =>
    match _h : g.read (c :: cs) with
    | some (r, rest) => .ref r :: g.pieces rest
    | none => .char c :: g.pieces cs
termination_by cs => cs.length
decreasing_by
  · exact g.shorter _h
  · simp

/-- A character of a variable's name, from the second on. -/
def isWordChar (c : Char) : Bool := c.isAlphanum || c == '_'

/-- A character that may open a variable's name. -/
def isWordStart (c : Char) : Bool := c.isAlpha || c == '_'

/-- A character of a parameter's or a function's name. -/
def isNameChar (c : Char) : Bool := c.isAlphanum || c == '_' || c == '.' || c == '-'

/-- Takes a non-empty run of characters that `p` accepts, and the closing brace behind it. -/
def readBraced (p : Char → Bool) (cs : List Char) : Option (List Char × List Char) :=
  match cs.takeWhile p, cs.dropWhile p with
  | c :: name, '\x7d' :: rest => some (c :: name, rest)
  | _, _ => none

theorem length_readBraced {p : Char → Bool} {cs w rest : List Char}
    (h : readBraced p cs = some (w, rest)) : rest.length < cs.length := by
  unfold readBraced at h
  split at h
  · rename_i ht hd
    obtain ⟨-, rfl⟩ := Prod.mk.inj (Option.some.inj h)
    have := congrArg List.length (List.takeWhile_append_dropWhile (p := p) (l := cs))
    rw [ht, hd] at this
    simp only [List.length_append, List.length_cons] at this
    omega
  · cases h

/-- Reads a reference to a variable. -/
def readEnv : List Char → Option (String × List Char)
  | '$' :: '\x7b' :: c :: cs =>
    if isWordStart c then
      (readBraced isWordChar (c :: cs)).map fun (w, rest) => (String.ofList w, rest)
    else none
  | _ => none

/-- Reads a reference to a parameter. -/
def readParam : List Char → Option (String × List Char)
  | '@' :: '\x7b' :: cs =>
    (readBraced isNameChar cs).map fun (w, rest) => (String.ofList w, rest)
  | _ => none

/-- Reads a reference to the configuration. -/
def readConfig : List Char → Option (String × List Char)
  | '#' :: '\x7b' :: cs =>
    (readBraced (· ≠ '\x7d') cs).map fun (w, rest) => (String.ofList w, rest)
  | _ => none

/-- Takes the text up to the first `)` with a closing brace behind it, on one line. -/
def readArgs : List Char → Option (List Char × List Char)
  | [] => none
  | ')' :: '\x7d' :: rest => some ([], rest)
  | c :: cs => if c = '\n' then none else (readArgs cs).map fun (w, rest) => (c :: w, rest)

theorem length_readArgs {cs w rest : List Char} (h : readArgs cs = some (w, rest)) :
    rest.length < cs.length := by
  fun_induction readArgs cs generalizing w with
  | case1 => cases h
  | case2 rest' =>
    obtain ⟨-, rfl⟩ := Prod.mk.inj (Option.some.inj h)
    simp only [List.length_cons]
    omega
  | case3 => cases h
  | case4 c cs _ _ ih =>
    obtain ⟨⟨w', r'⟩, hw, he⟩ := Option.map_eq_some_iff.1 h
    obtain ⟨-, rfl⟩ := Prod.mk.inj he
    have := ih hw
    simp only [List.length_cons]
    omega

/-- A call of a function: its name and its argument text. -/
structure Call where
  name : String
  args : String
  deriving DecidableEq, Repr

/-- Reads a function call. -/
def readCall : List Char → Option (Call × List Char)
  | '_' :: '\x7b' :: cs =>
    match cs.takeWhile isNameChar, cs.dropWhile isNameChar with
    | c :: name, '(' :: rest =>
      (readArgs rest).map fun (args, rest) =>
        (⟨String.ofList (c :: name), String.ofList args⟩, rest)
    | _, _ => none
  | _ => none

/-- References to variables of the environment. -/
def env : Grammar String where
  read := readEnv
  shorter := by
    intro cs r rest h
    unfold readEnv at h
    split at h
    · split at h
      · obtain ⟨⟨w, r'⟩, hw, he⟩ := Option.map_eq_some_iff.1 h
        obtain ⟨-, rfl⟩ := Prod.mk.inj he
        have := length_readBraced hw
        simp only [List.length_cons] at this ⊢
        omega
      · cases h
    · cases h

/-- References to parameters. -/
def param : Grammar String where
  read := readParam
  shorter := by
    intro cs r rest h
    unfold readParam at h
    split at h
    · obtain ⟨⟨w, r'⟩, hw, he⟩ := Option.map_eq_some_iff.1 h
      obtain ⟨-, rfl⟩ := Prod.mk.inj he
      have := length_readBraced hw
      simp only [List.length_cons]
      omega
    · cases h

/-- References to the configuration. -/
def config : Grammar String where
  read := readConfig
  shorter := by
    intro cs r rest h
    unfold readConfig at h
    split at h
    · obtain ⟨⟨w, r'⟩, hw, he⟩ := Option.map_eq_some_iff.1 h
      obtain ⟨-, rfl⟩ := Prod.mk.inj he
      have := length_readBraced hw
      simp only [List.length_cons]
      omega
    · cases h

/-- Function calls. -/
def call : Grammar Call where
  read := readCall
  shorter := by
    intro cs r rest h
    unfold readCall at h
    split at h
    · rename_i cs
      split at h
      · rename_i c name rest' ht hd
        obtain ⟨⟨w, r'⟩, hw, he⟩ := Option.map_eq_some_iff.1 h
        obtain ⟨-, rfl⟩ := Prod.mk.inj he
        have h₁ := length_readArgs hw
        have h₂ : (cs.takeWhile isNameChar ++ cs.dropWhile isNameChar).length = cs.length :=
          congrArg List.length List.takeWhile_append_dropWhile
        rw [ht, hd] at h₂
        simp only [List.length_append, List.length_cons] at h₂ ⊢
        omega
      · cases h
    · cases h

end ProjectScript.Template
