import ProjectScript.Json.Read
import ProjectScript.Plan
import ProjectScript.Value.Print

/-!
# Plan documents

The form in which a plan is handed to an external renderer: a JSON object with the plan's root and
its operations, each tagged by its kind. Reading is more liberal than writing: fields that are not
known are skipped, and an object may also be written as the list of its fields' values.

* `ofPlan`, `toPlan`: between plans and documents;
* `text`: the document as JSON;
* `parse`: the document that a JSON text writes.
-/

namespace ProjectScript.Plan

/-- An operation of a document. -/
inductive Operation
  | pushd (dir : String)
  | popd
  | echo (msg : String)
  | run (line : String)
  deriving DecidableEq, Repr

/-- A plan document. -/
structure Document where
  root : String
  ops : List Operation
  deriving DecidableEq, Repr

/-- The operation of a step. -/
def Operation.ofStep : Step → Operation
  | .enter dir => pushd dir
  | .leave => popd
  | .say text => echo text
  | .run line => run line

/-- The step of an operation. -/
def Operation.toStep : Operation → Step
  | pushd dir => .enter dir
  | popd => .leave
  | echo msg => .say msg
  | run line => .run line

namespace Document

/-- The document of a plan. -/
def ofPlan (p : Plan) : Document := ⟨p.root, p.steps.map .ofStep⟩

/-- The plan of a document. The root is not kept: a plan has the root that its steps give. -/
def toPlan (d : Document) : Plan := ⟨d.ops.map Operation.toStep⟩

/-- An operation as a value, its kind first. -/
def opValue : Operation → Value
  | .pushd dir => .obj [("kind", .str "pushd"), ("dir", .str dir)]
  | .popd => .obj [("kind", .str "popd")]
  | .echo msg => .obj [("kind", .str "echo"), ("msg", .str msg)]
  | .run line => .obj [("kind", .str "run"), ("line", .str line)]

/-- A document as a value, its root first. -/
def toValue (d : Document) : Value :=
  .obj [("root", .str d.root), ("ops", .arr (d.ops.map opValue))]

/-- A document as JSON. -/
def text (d : Document) : String := d.toValue.print

/-! ## Reading -/

/-- A string. -/
def string? : Json → Option String
  | .str s => s
  | _ => none

/-- The only value of a field; none when the field is missing or repeated. -/
def only? (name : String) (fields : List (String × Json)) : Option Json :=
  match fields.filter (·.1 == name) with
  | [(_, j)] => some j
  | _ => none

/-- The fields of an object whose names are all text. -/
def named? : List (Option String × Json) → Option (List (String × Json))
  | [] => some []
  | (k, j) :: fs => do
    let k ← k
    let fs ← named? fs
    return (k, j) :: fs

/-- The operation of a kind, if there is such a kind, with the name of the field it needs. -/
inductive Kind
  | bare (op : Operation)
  | field (name : String) (op : String → Operation)

/-- The kind of a name. -/
def kind? (name : String) : Option Kind :=
  if name = "pushd" then some (.field "dir" .pushd)
  else if name = "popd" then some (.bare .popd)
  else if name = "echo" then some (.field "msg" .echo)
  else if name = "run" then some (.field "line" .run)
  else none

/-- The nesting that the fields of an operation may have. -/
def fieldDepth : Nat := Json.depthLimit - 3

/-- Whether a field of an operation has a value. -/
def isSound (j : Json) : Bool := (j.value? fieldDepth).isSome

/-- Reads an operation. -/
def readOp : Json → Option Operation
  | .obj fields => do
    let fields ← named? fields
    let tag ← only? "kind" fields
    let kind ← (string? tag).bind kind?
    if (fields.filter (·.1 != "kind")).all (isSound ·.2) then
      match kind with
      | .bare op => some op
      | .field name op => ((only? name fields).bind string?).map op
    else none
  | .arr (tag :: rest) => do
    let kind ← (string? tag).bind kind?
    match kind, rest with
    | .bare op, [] => some op
    | .field _ op, [j] => (string? j).map op
    | _, _ => none
  | _ => none

/-- Reads a list of operations. -/
def readOps : Json → Option (List Operation)
  | .arr items => items.mapM readOp
  | _ => none

/-- Reads a document. -/
def ofJson : Json → Option Document
  | .obj fields => do
    let fields ← named? fields
    let root ← (only? "root" fields).bind string?
    let ops ← (only? "ops" fields).bind readOps
    return ⟨root, ops⟩
  | .arr [root, ops] => do
    let root ← string? root
    let ops ← readOps ops
    return ⟨root, ops⟩
  | _ => none

/-- The document that a JSON text writes. -/
def parse (text : String) : Option Document := (Json.parse text).bind ofJson

end Document

end ProjectScript.Plan
