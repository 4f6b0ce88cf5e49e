import ProjectScript.Decode.Source

/-!
# Values as a source

A document value is read strictly: a text must be a string, a table an object. A record may also
be written as the list of its fields' values, which must not be longer than the record.
-/

namespace ProjectScript.Decode

/-- The fields that a list writes for a record; one value too many is an error after the others. -/
def positional {σ : Type} : List String → List σ → List (Decode String × σ)
  | name :: names, q :: qs => (pure name, q) :: positional names qs
  | [], q :: _ => [(reject, q)]
  | _, [] => []

/-- Document values as a source. -/
def ofValue : Source Value where
  text
    | .str s => pure s
    | _ => reject
  flag
    | .bool b => pure b
    | _ => reject
  optional
    | .null => pure none
    | v => pure (some v)
  entries
    | .obj fields => pure (fields.map fun (k, v) => (pure k, v))
    | _ => reject
  fields names
    | .obj fields => pure (fields.map fun (k, v) => (pure k, v))
    | .arr items => pure (positional names items)
    | _ => reject
  items
    | .arr items => pure items
    | _ => reject
  value := pure
  body := pure
  skip _ := pure ()

end ProjectScript.Decode
