/-!
# Blank characters

The characters with the Unicode property `White_Space`, and trimming by them. A text is *blank*
when it holds no other character (`isBlank`), which is the same as trimming to nothing
(`trim_eq_empty_iff`). Trimming takes a text without blanks at its ends out of the blanks around it
(`trimChars_pad`).
-/

namespace ProjectScript.Text

/-- The characters with the Unicode property `White_Space`. -/
def isSpace (c : Char) : Bool :=
  let n := c.toNat
  (0x09 ≤ n && n ≤ 0x0D) || n == 0x20 || n == 0x85 || n == 0xA0 || n == 0x1680 ||
    (0x2000 ≤ n && n ≤ 0x200A) || n == 0x2028 || n == 0x2029 || n == 0x202F || n == 0x205F ||
    n == 0x3000

/-- Drops the blank characters at both ends. -/
def trimChars (s : List Char) : List Char :=
  ((s.dropWhile isSpace).reverse.dropWhile isSpace).reverse

/-- Drops the blank characters at both ends of a string. -/
def trim (s : String) : String :=
  String.ofList (trimChars s.toList)

/-- No character but blank ones. -/
def isBlank (s : String) : Bool :=
  s.toList.all isSpace

theorem dropWhile_eq_nil_iff {α : Type} (p : α → Bool) (s : List α) :
    s.dropWhile p = [] ↔ s.all p = true := by
  induction s with
  | nil => simp
  | cons a s ih => by_cases h : p a <;> simp [h, ih]

theorem trimChars_eq_nil_iff (s : List Char) : trimChars s = [] ↔ s.all isSpace = true := by
  rw [trimChars, List.reverse_eq_nil_iff, dropWhile_eq_nil_iff, List.all_reverse]
  induction s with
  | nil => simp
  | cons a s ih => by_cases h : isSpace a <;> simp [h, ih]

theorem trim_eq_empty_iff (s : String) : trim s = "" ↔ isBlank s = true := by
  rw [isBlank, ← trimChars_eq_nil_iff, trim]
  constructor
  · intro h
    have := congrArg String.toList h
    simpa using this
  · intro h
    rw [h]

/-- No blank character at either end. -/
def IsTrimmed (s : List Char) : Prop :=
  (∀ c ∈ s.head?, isSpace c = false) ∧ ∀ c ∈ s.getLast?, isSpace c = false

instance (s : List Char) : Decidable (IsTrimmed s) :=
  decidable_of_iff ((s.head?.all fun c => !isSpace c) = true ∧
    (s.getLast?.all fun c => !isSpace c) = true) (by simp [IsTrimmed, Option.all_eq_true])

theorem dropWhile_isSpace_of_head? {s : List Char} (h : ∀ c ∈ s.head?, isSpace c = false) :
    s.dropWhile isSpace = s := by
  cases s with
  | nil => rfl
  | cons c s => rw [List.dropWhile_cons_of_neg]; simpa using h c rfl

/-- Blanks around a text are trimmed off. -/
theorem trimChars_pad {a b s : List Char} (ha : ∀ c ∈ a, isSpace c = true)
    (hb : ∀ c ∈ b, isSpace c = true) (hs : IsTrimmed s) : trimChars (a ++ s ++ b) = s := by
  by_cases hne : s = []
  · subst hne
    rw [trimChars_eq_nil_iff, List.all_eq_true]
    intro c hc
    rcases List.mem_append.1 hc with hc | hc
    · exact ha c (by simpa using hc)
    · exact hb c hc
  · obtain ⟨c, t, rfl⟩ := List.exists_cons_of_ne_nil hne
    have hfront : (a ++ c :: t ++ b).dropWhile isSpace = c :: t ++ b := by
      rw [List.append_assoc, List.dropWhile_append_of_pos ha]
      exact dropWhile_isSpace_of_head? hs.1
    have hback : ∀ d ∈ (c :: t).reverse.head?, isSpace d = false := by
      rw [List.head?_reverse]
      exact hs.2
    rw [trimChars, hfront, List.reverse_append,
      List.dropWhile_append_of_pos fun d hd => hb d (List.mem_reverse.1 hd),
      dropWhile_isSpace_of_head? hback, List.reverse_reverse]

end ProjectScript.Text
