import ProjectScript.Value

/-!
# Sources

Project files come in several formats. What they have in common is a *source*: how a place in a
document is read as a text, a truth value, a list, a table, and so on. The shapes of projects and
registries are read from any source in the same way (`Decode/Project.lean`).

Reading may fail, for no stated reason, and may leave notices; the notices left before a failure
are kept.
-/

namespace ProjectScript

/-- What a reading keeps track of: its notices, and how many aliases it has followed. -/
structure Progress where
  notices : List String
  jumps : Nat
  deriving DecidableEq, Repr

/-- A reading: it may fail, and it leaves notices. -/
abbrev Decode := OptionT (StateM Progress)

namespace Decode

/-- A reading that fails. -/
def reject {α : Type} : Decode α := failure

/-- A reading that succeeds only with a value. -/
def ofOption {α : Type} : Option α → Decode α
  | some a => pure a
  | none => reject

/-- Leaves notices. -/
def notify (ns : List String) : Decode Unit :=
  modify fun p => { p with notices := p.notices ++ ns }

/-- The result of a reading and its notices. -/
def start {α : Type} (d : Decode α) : Option α × List String :=
  let (a, p) := d.run.run ⟨[], 0⟩
  (a, p.notices)

end Decode

/-- How the places of a document are read. -/
structure Source (σ : Type) where
  /-- A text. -/
  text : σ → Decode String
  /-- A truth value. -/
  flag : σ → Decode Bool
  /-- A place that may hold nothing. -/
  optional : σ → Decode (Option σ)
  /-- The entries of a table; the name of each is read only when its turn comes. -/
  entries : σ → Decode (List (Decode String × σ))
  /-- The fields of a record with the given names. -/
  fields : List String → σ → Decode (List (Decode String × σ))
  /-- The items of a list. -/
  items : σ → Decode (List σ)
  /-- A value of any kind. -/
  value : σ → Decode Value
  /-- A value that is the body of a function or a command. -/
  body : σ → Decode Value
  /-- Passes over a field that is not known. -/
  skip : σ → Decode Unit

namespace Source

variable {σ α : Type}

/-- Reads a record field by field, in the order of the document. A field that is not known is
passed over, one that comes twice is an error. -/
def record (src : Source σ) (names : List String) (set : α → String → σ → Decode α) (start : α)
    (p : σ) : Decode α := do
  let fields ← src.fields names p
  let (a, _) ← fields.foldlM (fun (a, seen) (name, q) => do
    let k ← name
    if !names.contains k then
      src.skip q
      return (a, seen)
    else if seen.contains k then Decode.reject
    else return (← set a k q, k :: seen)) (start, [])
  return a

/-- Reads a table; the last entry of a name counts. -/
def table (src : Source σ) (value : σ → Decode α) (p : σ) : Decode (Table α) := do
  let entries ← src.entries p
  entries.foldlM (fun t (name, q) => do
    let k ← name
    let v ← value q
    return t.insert k v) .empty

/-- Reads a list. -/
def list (src : Source σ) (value : σ → Decode α) (p : σ) : Decode (List α) := do
  (← src.items p).mapM value

end Source

end ProjectScript
