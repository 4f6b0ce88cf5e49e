import ProjectScript.Json.Read
import ProjectScript.Value.Print

/-!
# Reading printed values

The text of a value is read back as a syntax tree, whatever follows it (`Value.Reads`): a string,
whose characters may be escaped in three ways (`reads_str`), an array of values that are read back
(`reads_arr`) and an object of such values (`reads_obj`). As many steps as the text has characters
are enough, so a whole text is read by `Json.parse` (`Reads.parse`).

Numbers are left out: plan documents hold none.
-/

namespace ProjectScript

namespace Json

/-! ## Strings -/

/-- A text between the quotes of a string is read as one unit, and the unit stands for a
character. -/
def Denotes (cs : List Char) (c : Char) : Prop :=
  ∃ u : Unit16,
    (∀ rest, readUnits (cs ++ rest) = (readUnits rest).map fun (us, rest) => (u :: us, rest)) ∧
      ∀ us, joinUnits (u :: us) = (joinUnits us).map (c :: ·)

theorem denotes_short {e c : Char} (h : shortEscape? e = some c) : Denotes ['\\', e] c := by
  have hu : e ≠ 'u' := by
    rintro rfl
    cases h
  refine ⟨.inl c, fun rest => ?_, fun us => rfl⟩
  rw [List.cons_append, List.singleton_append, readUnits]
  · rw [h]
    cases readUnits rest <;> rfl
  · intro a b x y r he
    exact absurd he hu

theorem hex4?_escape : ∀ n < 0x20,
    hex4? '0' '0' (Value.hexDigit (n / 16)) (Value.hexDigit n) = some n := by decide

/-- A control character may be written by its number. -/
theorem denotes_number {c : Char} (h : c.toNat < 0x20) :
    Denotes ['\\', 'u', '0', '0', Value.hexDigit (c.toNat / 16), Value.hexDigit c.toNat] c := by
  refine ⟨.inr c.toNat, fun rest => ?_, fun us => ?_⟩
  · simp only [List.cons_append, List.nil_append]
    rw [readUnits, hex4?_escape _ h]
    cases readUnits rest <;> rfl
  · have hlead : isLead c.toNat = false := by
      rw [isLead, decide_eq_false (by omega), Bool.false_and]
    have htrail : isTrail c.toNat = false := by
      rw [isTrail, decide_eq_false (by omega), Bool.false_and]
    rw [joinUnits.eq_def]
    simp only [hlead, htrail, Bool.false_eq_true, if_false, Char.ofNat_toNat]

/-- Any other character but the quote and the backslash is written as it is. -/
theorem denotes_plain {c : Char} (h : 0x20 ≤ c.toNat) (hq : c ≠ '"') (hb : c ≠ '\\') :
    Denotes [c] c := by
  refine ⟨.inl c, fun rest => ?_, fun us => rfl⟩
  rw [List.singleton_append, readUnits]
  · rw [if_neg (by simp only [hb, or_false]; omega)]
    cases readUnits rest <;> rfl
  · exact hq
  · intro a b x y r he
    exact absurd he hb
  · intro e r he
    exact absurd he hb

theorem denotes_escapeChar (c : Char) : Denotes (Value.escapeChar c) c := by
  by_cases h : c ∈ ['"', '\\', '\n', '\r', '\t', '\x08', '\x0c']
  · simp only [List.mem_cons, List.not_mem_nil, or_false] at h
    rcases h with rfl | rfl | rfl | rfl | rfl | rfl | rfl <;> exact denotes_short rfl
  · simp only [List.mem_cons, List.not_mem_nil, or_false, not_or] at h
    obtain ⟨hq, hb, hn, hr, ht, hs, hf⟩ := h
    rw [Value.escapeChar, if_neg hq, if_neg hb, if_neg hn, if_neg hr, if_neg ht, if_neg hs,
      if_neg hf]
    by_cases hc : c.toNat < 0x20
    · rw [if_pos hc]
      exact denotes_number hc
    · rw [if_neg hc]
      exact denotes_plain (Nat.not_lt.1 hc) hq hb

/-- By induction on the text: each character is read as one unit. -/
theorem exists_units (s : List Char) : ∃ us,
    (∀ rest, readUnits (s.flatMap Value.escapeChar ++ '"' :: rest) = some (us, rest)) ∧
      joinUnits us = some s := by
  induction s with
  | nil => exact ⟨[], fun rest => rfl, rfl⟩
  | cons c s ih =>
    obtain ⟨us, hread, hjoin⟩ := ih
    obtain ⟨u, hu, hc⟩ := denotes_escapeChar c
    refine ⟨u :: us, fun rest => ?_, ?_⟩
    · rw [List.flatMap_cons, List.append_assoc, hu, hread]
      rfl
    · rw [hc, hjoin]
      rfl

theorem readString_escaped (s : String) (rest : List Char) :
    readString (s.toList.flatMap Value.escapeChar ++ '"' :: rest) = some (some s, rest) := by
  obtain ⟨us, hread, hjoin⟩ := exists_units s.toList
  rw [readString, hread]
  simp only [Option.map_some, hjoin, String.ofList_toList]

/-! ## Arrays and objects -/

theorem readValue_array {c : Char} (hb : isBlank c = false) (he : c ≠ ']') (fuel : Nat)
    (cs : List Char) :
    readValue (fuel + 1) ('[' :: c :: cs) =
      (readItems fuel (c :: cs)).map fun (vs, rest) => (.arr vs, rest) := by
  rw [readValue, List.dropWhile_cons_of_neg (by decide)]
  simp only [Char.reduceEq, if_false, if_true]
  rw [List.dropWhile_cons_of_neg (by simp [hb])]
  split
  · rename_i h
    exact absurd (List.cons.inj h).1 he
  · rfl

theorem readValue_object (fuel : Nat) (cs : List Char) :
    readValue (fuel + 1) ('\x7b' :: '"' :: cs) =
      (readFields fuel ('"' :: cs)).map fun (fs, rest) => (.obj fs, rest) := rfl

end Json

namespace Value

open Json

/-! ## The text of a value -/

theorem printChars_str (s : String) : printChars (.str s) = quoted s := rfl

theorem printChars_arr_nil : printChars (.arr []) = ['[', ']'] := rfl

theorem printChars_obj_nil : printChars (.obj []) = ['\x7b', '\x7d'] := rfl

theorem printItems_nil : printItems [] = [']'] := rfl

theorem printChars_arr (v : Value) (vs : List Value) :
    printChars (.arr (v :: vs)) = '[' :: (printChars v ++ printItems vs) := rfl

theorem printItems_cons (v : Value) (vs : List Value) :
    printItems (v :: vs) = ',' :: (printChars v ++ printItems vs) := rfl

theorem printChars_obj (k : String) (v : Value) (fs : List (String × Value)) :
    printChars (.obj ((k, v) :: fs)) =
      '\x7b' :: (quoted k ++ ':' :: (printChars v ++ printFields fs)) := rfl

theorem printFields_cons (k : String) (v : Value) (fs : List (String × Value)) :
    printFields ((k, v) :: fs) = ',' :: (quoted k ++ ':' :: (printChars v ++ printFields fs)) :=
  rfl

/-! ## Reading it back -/

/-- The text of a value is read as a tree, whatever follows. -/
structure Reads (v : Value) (j : Json) : Prop where
  /-- The text starts with no blank, and does not look like the end of an array. -/
  opening : ∃ c cs, v.printChars = c :: cs ∧ isBlank c = false ∧ c ≠ ']'
  read : ∀ fuel rest, v.printChars.length ≤ fuel →
    readValue fuel (v.printChars ++ rest) = some (j, rest)

theorem quoted_append (s : String) (rest : List Char) :
    quoted s ++ rest = '"' :: (s.toList.flatMap escapeChar ++ '"' :: rest) := by
  rw [quoted, List.cons_append, List.append_assoc]
  rfl

theorem reads_str (s : String) : Reads (.str s) (.str (some s)) where
  opening := ⟨'"', _, rfl, by decide, by decide⟩
  read := by
    intro fuel rest hfuel
    rw [printChars_str] at hfuel ⊢
    rw [quoted, List.length_cons] at hfuel
    obtain ⟨fuel, rfl⟩ := Nat.exists_eq_add_one_of_ne_zero (show fuel ≠ 0 by omega)
    rw [quoted_append, readValue, List.dropWhile_cons_of_neg (by decide)]
    simp only [if_true, readString_escaped, Option.map_some]

/-- An item of an array is read, and then what follows it. -/
theorem readItems_value {v : Value} {j : Json} (h : v.Reads j) {fuel : Nat}
    (hfuel : v.printChars.length ≤ fuel) (rest : List Char) :
    readItems (fuel + 1) (v.printChars ++ rest) =
      match rest.dropWhile isBlank with
      | ',' :: rest => do
        let (js, rest) ← readItems fuel rest
        return (j :: js, rest)
      | ']' :: rest => some ([j], rest)
      | _ => none := by
  rw [readItems, h.read fuel rest hfuel]
  rfl

/-- A field of an object is read, and then what follows it. -/
theorem readFields_field {v : Value} {j : Json} (h : v.Reads j) {fuel : Nat}
    (hfuel : v.printChars.length ≤ fuel) (k : String) (rest : List Char) :
    readFields (fuel + 1) (quoted k ++ ':' :: (v.printChars ++ rest)) =
      match rest.dropWhile isBlank with
      | ',' :: rest => do
        let (fs, rest) ← readFields fuel rest
        return ((some k, j) :: fs, rest)
      | '\x7d' :: rest => some ([(some k, j)], rest)
      | _ => none := by
  rw [quoted_append, readFields, List.dropWhile_cons_of_neg (by decide)]
  simp only [readString_escaped, Option.bind_eq_bind, Option.bind_some]
  rw [List.dropWhile_cons_of_neg (by decide)]
  simp only
  rw [h.read fuel rest hfuel]
  rfl

section

variable {α : Type} {value : α → Value} {tree : α → Json}

/-- The items of an array are read up to its bracket. -/
theorem readItems_printItems {x : α} {xs : List α}
    (h : ∀ y ∈ x :: xs, (value y).Reads (tree y)) (fuel : Nat) (rest : List Char)
    (hfuel : (value x).printChars.length + (printItems (xs.map value)).length ≤ fuel) :
    readItems fuel ((value x).printChars ++ (printItems (xs.map value) ++ rest)) =
      some (tree x :: xs.map tree, rest) := by
  have hx := h x List.mem_cons_self
  induction xs generalizing x fuel with
  | nil =>
    rw [List.map_nil, printItems_nil, List.length_singleton] at hfuel
    obtain ⟨fuel, rfl⟩ := Nat.exists_eq_add_one_of_ne_zero (show fuel ≠ 0 by omega)
    rw [readItems_value hx (by omega)]
    rfl
  | cons y xs ih =>
    simp only [List.map_cons, printItems_cons, List.length_cons, List.length_append] at hfuel ⊢
    obtain ⟨fuel, rfl⟩ := Nat.exists_eq_add_one_of_ne_zero (show fuel ≠ 0 by omega)
    have hxs := fun z hz => h z (List.mem_cons_of_mem x hz)
    have hrest := ih hxs fuel (by omega) (hxs y List.mem_cons_self)
    rw [readItems_value hx (by omega), List.cons_append, List.append_assoc,
      List.dropWhile_cons_of_neg (by decide)]
    simp only [hrest]
    rfl

/-- An array of values that are read back is read back. -/
theorem reads_arr (value : α → Value) (tree : α → Json) {xs : List α}
    (h : ∀ x ∈ xs, (value x).Reads (tree x)) :
    Reads (.arr (xs.map value)) (.arr (xs.map tree)) := by
  cases xs with
  | nil =>
    refine ⟨⟨'[', _, rfl, by decide, by decide⟩, fun fuel rest hfuel => ?_⟩
    rw [List.map_nil, printChars_arr_nil, List.length_cons] at hfuel
    obtain ⟨fuel, rfl⟩ := Nat.exists_eq_add_one_of_ne_zero (show fuel ≠ 0 by omega)
    rfl
  | cons x xs =>
    refine ⟨⟨'[', _, rfl, by decide, by decide⟩, fun fuel rest hfuel => ?_⟩
    simp only [List.map_cons, printChars_arr, List.length_cons, List.length_append] at hfuel ⊢
    obtain ⟨fuel, rfl⟩ := Nat.exists_eq_add_one_of_ne_zero (show fuel ≠ 0 by omega)
    have hitems := readItems_printItems h fuel rest (by omega)
    obtain ⟨c, cs, hc, hblank, hend⟩ := (h x List.mem_cons_self).opening
    rw [hc, List.cons_append] at hitems
    rw [List.cons_append, List.append_assoc, hc, List.cons_append, readValue_array hblank hend,
      hitems]
    rfl

/-- The fields of an object are read up to its brace. -/
theorem readFields_printFields {f : String × α} {fs : List (String × α)}
    (h : ∀ g ∈ f :: fs, (value g.2).Reads (tree g.2)) (fuel : Nat) (rest : List Char)
    (hfuel : (quoted f.1).length + (value f.2).printChars.length +
      (printFields (fs.map fun g => (g.1, value g.2))).length < fuel) :
    readFields fuel (quoted f.1 ++ ':' :: ((value f.2).printChars ++
        (printFields (fs.map fun g => (g.1, value g.2)) ++ rest))) =
      some ((some f.1, tree f.2) :: fs.map fun g => (some g.1, tree g.2), rest) := by
  have hf := h f List.mem_cons_self
  induction fs generalizing f fuel with
  | nil =>
    obtain ⟨fuel, rfl⟩ := Nat.exists_eq_add_one_of_ne_zero (show fuel ≠ 0 by omega)
    rw [readFields_field hf (by omega)]
    rfl
  | cons g fs ih =>
    simp only [List.map_cons, printFields_cons, List.length_cons, List.length_append] at hfuel ⊢
    obtain ⟨fuel, rfl⟩ := Nat.exists_eq_add_one_of_ne_zero (show fuel ≠ 0 by omega)
    have hfs := fun k hk => h k (List.mem_cons_of_mem f hk)
    have hrest := ih hfs fuel (by omega) (hfs g List.mem_cons_self)
    rw [readFields_field hf (by omega)]
    simp only [List.cons_append, List.append_assoc]
    rw [List.dropWhile_cons_of_neg (by decide)]
    simp only [hrest]
    rfl

/-- An object of values that are read back is read back. -/
theorem reads_obj (value : α → Value) (tree : α → Json) {fs : List (String × α)}
    (h : ∀ f ∈ fs, (value f.2).Reads (tree f.2)) :
    Reads (.obj (fs.map fun f => (f.1, value f.2)))
      (.obj (fs.map fun f => (some f.1, tree f.2))) := by
  cases fs with
  | nil =>
    refine ⟨⟨'\x7b', _, rfl, by decide, by decide⟩, fun fuel rest hfuel => ?_⟩
    rw [List.map_nil, printChars_obj_nil, List.length_cons] at hfuel
    obtain ⟨fuel, rfl⟩ := Nat.exists_eq_add_one_of_ne_zero (show fuel ≠ 0 by omega)
    rfl
  | cons f fs =>
    refine ⟨⟨'\x7b', _, rfl, by decide, by decide⟩, fun fuel rest hfuel => ?_⟩
    simp only [List.map_cons, printChars_obj, List.length_cons, List.length_append] at hfuel ⊢
    obtain ⟨fuel, rfl⟩ := Nat.exists_eq_add_one_of_ne_zero (show fuel ≠ 0 by omega)
    have hfields := readFields_printFields h fuel rest (by omega)
    rw [quoted_append] at hfields
    simp only [List.cons_append, List.append_assoc]
    rw [quoted_append, readValue_object, hfields]
    rfl

end

/-- A text that is a printed value is read as a whole. -/
theorem Reads.parse {v : Value} {j : Json} (h : v.Reads j) : Json.parse v.print = some j := by
  have hread := h.read (v.printChars.length + 1) [] (Nat.le_succ _)
  rw [List.append_nil] at hread
  rw [Json.parse, print, String.toList_ofList]
  dsimp only
  rw [hread]
  rfl

end Value

end ProjectScript
