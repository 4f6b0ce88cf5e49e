import ProjectScript.Decode.Source
import ProjectScript.Yaml.Resolve

/-!
# YAML as a source

A text may be any scalar, whatever it would stand for by itself. An empty scalar is an empty
table, record or list. Collections may be nested 128 deep, and the aliases followed may not be
more than a hundred times the marks of the document.

In a free value the names of a mapping may be any scalars; in a body they must be strings.
-/

namespace ProjectScript.Decode

open Yaml (Node Document Scalar Datum)

/-- A node with the nesting that is left below it. -/
structure YamlPlace where
  node : Node
  depth : Nat

/-- The nesting that a document may have. -/
def yamlDepth : Nat := 128

/-- The node that stands at a place: that of an alias is the node it stands for. -/
def follow (d : Document) (n : Node) : Decode Node :=
  match n with
  | .reference id => do
    modify fun p => { p with jumps := p.jumps + 1 }
    if 100 * d.weight < (← get).jumps then reject else ofOption (d.target? id)
  | n => pure n

/-- The scalar at a place. -/
def scalar (d : Document) (n : Node) : Decode Scalar := do
  match ← follow d n with
  | .scalar _ s => return s
  | _ => reject

/-- The text of the scalar at a place. -/
def scalarText (d : Document) (n : Node) : Decode String := return (← scalar d n).text

/-- Whether a node is a plain scalar without text, which stands for an empty collection. -/
def isVoid : Node → Bool
  | .scalar _ s => s.text.isEmpty && s.style = .plain
  | _ => false

/-- The name of a mapping's entry in a body. -/
def strictName (d : Document) (n : Node) : Decode String := do
  match ← follow d n with
  | .scalar _ s =>
    match s.datum? with
    | some (.str s) => return s
    | _ => reject
  | _ => reject

/-- The value of what a scalar stands for. -/
def datumValue : Datum → Decode Value
  | .null => pure .null
  | .bool b => pure (.bool b)
  | .int n => pure (.num (.int n))
  | .wideInt => reject
  | .float x => pure (.num (.float x))
  | .nonFinite => pure .null
  | .str s => pure (.str s)

/-- The value at a place; `name` reads the names of mappings. -/
def yamlValue (d : Document) (name : Node → Decode String) : (depth : Nat) → Node → Decode Value
  | depth, n => do
    match ← follow d n with
    | .scalar _ s => datumValue (← ofOption s.datum?)
    | .seq _ tag items =>
      if Yaml.isOwnTag tag then reject
      else
        match depth with
        | 0 => reject
        | depth + 1 => return .arr (← items.mapM (yamlValue d name depth))
    | .map _ tag entries =>
      if Yaml.isOwnTag tag then reject
      else
        match depth with
        | 0 => reject
        | depth + 1 =>
          let fields ← entries.mapM fun (k, v) => do
            let k ← name k
            return (k, ← yamlValue d name depth v)
          return .object fields
    | _ => reject

/-- The entries of a mapping. -/
def yamlEntries (d : Document) (p : YamlPlace) : Decode (List (Decode String × YamlPlace)) := do
  match ← follow d p.node with
  | .map _ _ entries =>
    match p.depth with
    | 0 => reject
    | depth + 1 => return entries.map fun (k, v) => (scalarText d k, ⟨v, depth⟩)
  | n => if isVoid n then return [] else reject

/-- A YAML document as a source. -/
def ofYaml (d : Document) : Source YamlPlace where
  text p := scalarText d p.node
  flag p := do
    let s ← scalar d p.node
    if s.style = .plain ∨ (s.style = .literal ∧ s.tag = some (Yaml.coreTag "bool")) then
      ofOption (Yaml.bool? s.text)
    else reject
  optional p := do
    match ← follow d p.node with
    | .scalar a s =>
      let there : Option YamlPlace := some ⟨.scalar a s, p.depth⟩
      if s.style ≠ .plain then return there
      else
        match s.tag with
        | none => return if s.text.isEmpty ∨ Yaml.isNull s.text then none else there
        | some t =>
          if t ≠ Yaml.coreTag "null" then return there
          else if Yaml.isNull s.text then return none
          else reject
    | .broken => reject
    | n => return some ⟨n, p.depth⟩
  entries := yamlEntries d
  fields _ := yamlEntries d
  items p := do
    match ← follow d p.node with
    | .seq _ _ items =>
      match p.depth with
      | 0 => reject
      | depth + 1 => return items.map fun n => ⟨n, depth⟩
    | n => if isVoid n then return [] else reject
  value p := yamlValue d (scalarText d) p.depth p.node
  body p := yamlValue d (strictName d) p.depth p.node
  skip p := if p.node.isWhole then pure () else reject

/-- Reads a YAML text, which must hold one document and nothing else. -/
def yaml {α : Type} (read : {σ : Type} → Source σ → σ → Decode α) (text : String) :
    Option α × List String :=
  let d := Document.parse text
  let (a, notices) := (read (ofYaml d) ⟨d.root.getD .empty, yamlDepth⟩).start
  (if d.complete then a else none, notices)

end ProjectScript.Decode
