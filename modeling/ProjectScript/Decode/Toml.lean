import ProjectScript.Decode.Value
import ProjectScript.Toml.Read

/-!
# TOML as a source

TOML values are read strictly. A date or a time is a table with one entry, its text. A record may
also be written as the list of its fields' values; values beyond the record are ignored. An
infinity or a value that is not a number counts as nothing.
-/

namespace ProjectScript.Decode

/-- The name of the entry that holds a date or a time. -/
def datetimeField : String := "$__toml_private_datetime"

/-- The value of a number; integers must fit 64 bits. -/
def numeralValue : Toml.Numeral → Option Value
  | .int n => if isWord n then some (.num (.int n)) else none
  | .float x => some (.num (.float x))
  | .nonFinite => some .null

mutual

/-- The document value of a TOML value. -/
def tomlValue : Toml → Option Value
  | .str s => some (.str s)
  | .num n => numeralValue n
  | .bool b => some (.bool b)
  | .datetime s => some (.obj [(datetimeField, .str s)])
  | .arr items => (tomlItems items).map .arr
  | .table fields => (tomlFields fields).map .object

/-- The document values of items. -/
def tomlItems : List Toml → Option (List Value)
  | [] => some []
  | t :: ts => do
    let v ← tomlValue t
    let vs ← tomlItems ts
    return v :: vs

/-- The document values of fields. -/
def tomlFields : List (String × Toml) → Option (List (String × Value))
  | [] => some []
  | (k, t) :: ts => do
    let v ← tomlValue t
    let vs ← tomlFields ts
    return (k, v) :: vs

end

/-- The entries of a table. -/
def tomlEntries : Toml → Option (List (Decode String × Toml))
  | .table fields => some (fields.map fun (k, t) => (pure k, t))
  | .datetime s => some [(pure datetimeField, .str s)]
  | _ => none

/-- TOML values as a source. -/
def ofToml : Source Toml where
  text
    | .str s => pure s
    | _ => reject
  flag
    | .bool b => pure b
    | _ => reject
  optional t := pure (some t)
  entries t := ofOption (tomlEntries t)
  fields names
    | .arr items => pure ((names.map pure).zip items)
    | t => ofOption (tomlEntries t)
  items
    | .arr items => pure items
    | _ => reject
  value t := ofOption (tomlValue t)
  body t := ofOption (tomlValue t)
  skip _ := pure ()

/-- Reads a TOML text. -/
def toml {α : Type} (read : {σ : Type} → Source σ → σ → Decode α) (text : String) :
    Option α × List String :=
  match Toml.parse text with
  | some t => (read ofToml t).start
  | none => (none, [])

end ProjectScript.Decode
