import ProjectScript.Binary64
import ProjectScript.Table

/-!
# Document values

The values that project files, the global file and plan documents are made of. A number is an
exact integer or a floating-point number, and the two are told apart: `1` is not `1.0`.
-/

namespace ProjectScript

/-- An exact integer or a floating-point number. -/
inductive Number
  | int (n : Int)
  | float (x : Binary64)
  deriving DecidableEq, Repr

/-- Whether an integer fits 64 bits, with a sign or without one. -/
def isWord (n : Int) : Bool := -(Nat.pow 2 63 : Int) ≤ n && n < (Nat.pow 2 64 : Int)

/-- The text of a number: an integer in decimal, a floating-point number as `Binary64.text`. -/
def Number.text : Number → String
  | .int n => toString n
  | .float x => x.text

/-- A document value. The fields of an object read from a document stand in the order of their
names. -/
inductive Value
  | null
  | bool (b : Bool)
  | num (n : Number)
  | str (s : String)
  | arr (items : List Value)
  | obj (fields : List (String × Value))
  deriving Repr

namespace Value

instance : Inhabited Value := ⟨null⟩

/-- The object with the given fields; the last of several fields of one name counts. -/
def object (fields : List (String × Value)) : Value := obj (Table.ofList fields).entries

/-- The object with the fields of a table. -/
def ofTable (t : Table Value) : Value := obj t.entries

mutual

/-- Whether two values are the same. -/
def same : Value → Value → Bool
  | null, null => true
  | bool a, bool b => a == b
  | num a, num b => decide (a = b)
  | str a, str b => a == b
  | arr a, arr b => sameItems a b
  | obj a, obj b => sameFields a b
  | _, _ => false

/-- Whether two lists hold the same values. -/
def sameItems : List Value → List Value → Bool
  | [], [] => true
  | a :: as, b :: bs => same a b && sameItems as bs
  | _, _ => false

/-- Whether two lists hold the same fields. -/
def sameFields : List (String × Value) → List (String × Value) → Bool
  | [], [] => true
  | (k, a) :: as, (l, b) :: bs => k == l && same a b && sameFields as bs
  | _, _ => false

end

mutual

theorem same_iff : ∀ a b : Value, same a b = true ↔ a = b
  | null, b => by cases b <;> simp [same]
  | bool a, b => by cases b <;> simp [same]
  | num a, b => by cases b <;> simp [same]
  | str a, b => by cases b <;> simp [same]
  | arr as, b => by cases b <;> simp [same, sameItems_iff as]
  | obj as, b => by cases b <;> simp [same, sameFields_iff as]

theorem sameItems_iff : ∀ as bs : List Value, sameItems as bs = true ↔ as = bs
  | [], bs => by cases bs <;> simp [sameItems]
  | a :: as, bs => by cases bs <;> simp [sameItems, same_iff a, sameItems_iff as]

theorem sameFields_iff : ∀ as bs : List (String × Value), sameFields as bs = true ↔ as = bs
  | [], bs => by cases bs <;> simp [sameFields]
  | (k, a) :: as, bs => by
    rcases bs with _ | ⟨⟨l, b⟩, bs⟩ <;>
      simp [sameFields, same_iff a, sameFields_iff as]

end

instance : DecidableEq Value := fun a b => decidable_of_iff _ (same_iff a b)

end Value

end ProjectScript
