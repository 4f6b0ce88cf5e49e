import ProjectScript.Text.Cut
import ProjectScript.Value

/-!
# Key paths

A key path names a node of a document by the keys on the way to it, written with dots between
them. The empty path names the document itself. Only objects have keys, so a path that has keys
left at any other value names nothing.
-/

namespace ProjectScript.Value

/-- The keys of a path, cut at its dots. -/
def keys (path : String) : List String := (Text.cut '.' path.toList).map String.ofList

/-- The value under one key. -/
def key? (v : Value) (k : String) : Option Value :=
  match v with
  | obj fields => Table.find? k fields
  | _ => none

/-- The node reached along a list of keys. -/
def walk (v : Value) : List String → Option Value
  | [] => some v
  | k :: ks => (v.key? k).bind fun w => walk w ks

/-- The node that a dotted path names. -/
def dig (v : Value) (path : String) : Option Value :=
  if path.isEmpty then some v else v.walk (keys path)

theorem walk_append (v : Value) (ks ls : List String) :
    v.walk (ks ++ ls) = (v.walk ks).bind fun w => w.walk ls := by
  induction ks generalizing v with
  | nil => rfl
  | cons k ks ih => cases h : v.key? k <;> simp [walk, h, ih]

end ProjectScript.Value
