import Mathlib.Data.List.Induction
import ProjectScript.Proofs.CallArguments.Quoted

/-!
# Where an argument text is split

Which commas of an argument text separate two items is said here without following a reader from
character to character. A text is `Whole` if it is made of characters that are no marks, of
backslashes with the character behind each, and of quotes with what they may enclose. Every other
text leaves quotes open or ends with an active backslash (`ending`), and behind a text the reader
stands outside quotes and behind no backslash exactly if it does neither (`after_eq_start_iff`).

These are the places where a comma separates two items (`separatesAt_iff`). The items with commas
between them are the text again (`join_split`), so that splitting loses nothing, and behind a comma
that separates it starts anew (`splitting_composes`).
-/

namespace ProjectScript.CallArguments

/-! ## Whole texts -/

/-- What quotes may enclose: single quotes all but their own mark, and double quotes all but their
own mark and the backslash, and any character behind a backslash. -/
inductive Enclosed : Style → List Char → Prop
  | nil (style : Style) : Enclosed style []
  | char {style : Style} {c : Char} {s : List Char} : c ≠ style.mark →
      (style = .double → c ≠ '\\') → Enclosed style s → Enclosed style (c :: s)
  | escaped {s : List Char} (c : Char) : Enclosed .double s → Enclosed .double ('\\' :: c :: s)

/-- A text in which all quotes are closed and all active backslashes have a character behind
them. -/
inductive Whole : List Char → Prop
  | nil : Whole []
  | char {c : Char} {s : List Char} : c ∉ marks → Whole s → Whole (c :: s)
  | escaped {s : List Char} (c : Char) : Whole s → Whole ('\\' :: c :: s)
  | quoted (style : Style) {body s : List Char} : Enclosed style body → Whole s →
      Whole (style.mark :: (body ++ style.mark :: s))

/-- The text ends between quotes that are open, and behind no active backslash. -/
def Within (style : Style) (s : List Char) : Prop :=
  ∃ front body, Whole front ∧ Enclosed style body ∧ s = front ++ style.mark :: body

/-- The text ends with an active backslash, outside quotes or in double quotes. -/
def EndsActive (s : List Char) : Prop :=
  ∃ front, (Whole front ∨ Within .double front) ∧ s = front ++ ['\\']

/-- The text ends between quotes that are open, perhaps behind an active backslash. -/
def InQuotes (s : List Char) : Prop :=
  (∃ style, Within style s) ∨ ∃ front, Within .double front ∧ s = front ++ ['\\']

/-- How a text ends. -/
inductive Ending (s : List Char) : Prop
  | whole : Whole s → Ending s
  | within (style : Style) : Within style s → Ending s
  | active : EndsActive s → Ending s

variable {style : Style} {s t : List Char}

theorem Enclosed.append (hs : Enclosed style s) (ht : Enclosed style t) :
    Enclosed style (s ++ t) := by
  induction hs with
  | nil => exact ht
  | char hmark hback _ ih => exact .char hmark hback (ih ht)
  | escaped c _ ih => exact .escaped c (ih ht)

theorem Whole.append (hs : Whole s) (ht : Whole t) : Whole (s ++ t) := by
  induction hs with
  | nil => exact ht
  | char hc _ ih => exact .char hc ih
  | escaped c _ ih => exact .escaped c ih
  | @quoted style body s hbody _ ih =>
    have htext : style.mark :: (body ++ style.mark :: s) ++ t =
        style.mark :: (body ++ style.mark :: (s ++ t)) := by simp
    rw [htext]
    exact .quoted style hbody ih

/-! ## One more character -/

theorem mem_marks_iff {c : Char} : c ∈ marks ↔ c = '\\' ∨ ∃ style : Style, c = style.mark := by
  constructor
  · intro h
    simp only [marks, List.mem_cons, List.not_mem_nil, or_false] at h
    rcases h with rfl | rfl | rfl
    · exact .inr ⟨.single, rfl⟩
    · exact .inr ⟨.double, rfl⟩
    · exact .inl rfl
  · rintro (rfl | ⟨style, rfl⟩)
    · decide
    · exact mark_mem_marks style

theorem Whole.ending_concat (h : Whole s) (c : Char) : Ending (s ++ [c]) := by
  by_cases hc : c ∈ marks
  · rcases mem_marks_iff.1 hc with rfl | ⟨style, rfl⟩
    · exact .active ⟨s, .inl h, rfl⟩
    · exact .within style ⟨s, [], h, .nil style, rfl⟩
  · exact .whole (h.append (.char hc .nil))

theorem Within.ending_concat (h : Within style s) (c : Char) : Ending (s ++ [c]) := by
  obtain ⟨front, body, hfront, hbody, rfl⟩ := h
  by_cases hmark : c = style.mark
  · subst hmark
    have htext : front ++ style.mark :: body ++ [style.mark] =
        front ++ style.mark :: (body ++ style.mark :: []) := by simp
    rw [htext]
    exact .whole (hfront.append (.quoted style hbody .nil))
  · by_cases hback : style = .double → c ≠ '\\'
    · have hmore := hbody.append (.char hmark hback (.nil style))
      exact .within style ⟨front, body ++ [c], hfront, hmore, by simp⟩
    · obtain ⟨rfl, hc⟩ := Classical.not_imp.1 hback
      obtain rfl := Classical.not_not.1 hc
      exact .active ⟨_, .inr ⟨front, body, hfront, hbody, rfl⟩, rfl⟩

theorem EndsActive.ending_concat (h : EndsActive s) (c : Char) : Ending (s ++ [c]) := by
  obtain ⟨front, hfront | ⟨front, body, hfront, hbody, rfl⟩, rfl⟩ := h
  · rw [List.append_assoc]
    exact .whole (hfront.append (.escaped c .nil))
  · have hmore := hbody.append (.escaped c (.nil .double))
    exact .within .double ⟨front, body ++ ['\\', c], hfront, hmore, by simp⟩

/-- Every text is whole, ends between open quotes or ends with an active backslash. By induction on
the text from its end. -/
theorem ending (s : List Char) : Ending s := by
  induction s using List.reverseRecOn with
  | nil => exact .whole .nil
  | append_singleton s c ih =>
    cases ih with
    | whole h => exact h.ending_concat c
    | within style h => exact h.ending_concat c
    | active h => exact h.ending_concat c

/-! ## Where the reader stands -/

theorem Place.after_append (p : Place) (s t : List Char) :
    p.after (s ++ t) = (p.after s).after t := List.foldl_append

theorem Style.next_mark_start (style : Style) : Place.start.next style.mark = style.inside := by
  cases style <;> rfl

theorem Style.next_mark_inside (style : Style) : style.inside.next style.mark = .start := by
  cases style <;> rfl

theorem Enclosed.after_eq (h : Enclosed style s) : style.inside.after s = style.inside := by
  induction h with
  | nil => rfl
  | @char style c s hmark hback _ ih =>
    change (style.inside.next c).after s = style.inside
    rw [next_inside hmark hback, ih]
  | escaped c _ ih => exact ih

theorem Whole.after_eq (h : Whole s) : Place.start.after s = .start := by
  induction h with
  | nil => rfl
  | @char c s hc _ ih =>
    change (Place.start.next c).after s = .start
    rw [next_start hc, ih]
  | escaped c _ ih => exact ih
  | @quoted style body s hbody _ ih =>
    change (Place.start.next style.mark).after (body ++ style.mark :: s) = .start
    rw [style.next_mark_start, Place.after_append, hbody.after_eq]
    change (style.inside.next style.mark).after s = .start
    rw [style.next_mark_inside, ih]

theorem Within.after_eq (h : Within style s) : Place.start.after s = style.inside := by
  obtain ⟨front, body, hfront, hbody, rfl⟩ := h
  rw [Place.after_append, hfront.after_eq]
  change (Place.start.next style.mark).after body = style.inside
  rw [style.next_mark_start, hbody.after_eq]

theorem EndsActive.after_ne (h : EndsActive s) : Place.start.after s ≠ .start := by
  obtain ⟨front, hfront | hfront, rfl⟩ := h
  · rw [Place.after_append, hfront.after_eq]
    decide
  · rw [Place.after_append, hfront.after_eq]
    decide

theorem InQuotes.after_ne (h : InQuotes s) : Place.start.after s ≠ .start := by
  rcases h with ⟨style, hs⟩ | ⟨front, hfront, rfl⟩
  · rw [hs.after_eq]
    cases style <;> decide
  · exact EndsActive.after_ne ⟨front, .inr hfront, rfl⟩

/-- **Where the reader stands.** Behind a text the reader stands outside quotes and behind no
backslash exactly if the text ends so. -/
theorem after_eq_start_iff (s : List Char) :
    Place.start.after s = .start ↔ ¬EndsActive s ∧ ¬InQuotes s := by
  constructor
  · exact fun h => ⟨fun hactive => hactive.after_ne h, fun hquotes => hquotes.after_ne h⟩
  · rintro ⟨hactive, hquotes⟩
    cases ending s with
    | whole hs => exact hs.after_eq
    | within style hs => exact (hquotes (.inl ⟨style, hs⟩)).elim
    | active hs => exact (hactive hs).elim

/-! ## Items and commas -/

theorem join_consFirst (c : Char) {items : List (List Char)} (h : items ≠ []) :
    Text.join ',' (consFirst c items) = c :: Text.join ',' items := by
  rcases items with _ | ⟨item, _ | ⟨item', items⟩⟩
  · exact (h rfl).elim
  · rfl
  · rfl

theorem join_nil_cons {items : List (List Char)} (h : items ≠ []) :
    Text.join ',' ([] :: items) = ',' :: Text.join ',' items := by
  cases items with
  | nil => exact (h rfl).elim
  | cons item items => rfl

theorem eq_comma_of_separates {p : Place} {c : Char} (h : p.separates c = true) : c = ',' := by
  simp only [Place.separates, Bool.and_eq_true, beq_iff_eq] at h
  exact h.1.1.1

/-- The items with commas between them are the text again. -/
theorem join_split (p : Place) (s : List Char) : Text.join ',' (split p s) = s := by
  induction s generalizing p with
  | nil => rfl
  | cons c s ih =>
    rw [split]
    split
    · rename_i hc
      rw [join_nil_cons (split_ne_nil p s), ih, eq_comma_of_separates hc]
    · rw [join_consFirst c (split_ne_nil _ s), ih]

theorem separates_comma_iff {p : Place} : p.separates ',' = true ↔ p = .start := by
  obtain ⟨single, double, escaped⟩ := p
  revert single double escaped
  decide

/-- The comma between two texts separates two items: some of the items make up the first text, and
the others the second. -/
def SeparatesAt (front rest : List Char) : Prop :=
  ∃ items more, items ≠ [] ∧ more ≠ [] ∧ split .start (front ++ ',' :: rest) = items ++ more ∧
    Text.join ',' items = front ∧ Text.join ',' more = rest

/-- Between two items there is a comma at which the reader stands outside quotes and behind no
backslash. By induction on the text, from whatever place it is read. -/
theorem exists_of_split_eq_append {p : Place} {items more : List (List Char)}
    (h : split p s = items ++ more) (hitems : items ≠ []) (hmore : more ≠ []) :
    ∃ front rest, s = front ++ ',' :: rest ∧ p.after front = .start ∧ split p front = items := by
  obtain ⟨item, items, rfl⟩ := List.exists_cons_of_ne_nil hitems
  induction s generalizing p item items with
  | nil =>
    obtain ⟨-, hnil⟩ := List.cons.inj h
    exact (hmore (List.append_eq_nil_iff.1 hnil.symm).2).elim
  | cons c s ih =>
    rw [split] at h
    split at h
    · rename_i hc
      obtain rfl := eq_comma_of_separates hc
      obtain ⟨rfl, hrest⟩ := List.cons.inj h
      -- this comma is the one in question if it ends the last of the items
      cases items with
      | nil => exact ⟨[], s, rfl, separates_comma_iff.1 hc, rfl⟩
      | cons item items =>
        obtain ⟨front, rest, rfl, hafter, hfront⟩ := ih item items hrest (List.cons_ne_nil _ _)
        refine ⟨',' :: front, rest, rfl, ?_, ?_⟩
        · change (p.next ',').after front = .start
          rw [Place.next_of_separates hc, hafter]
        · rw [split, if_pos hc, hfront]
    · rename_i hc
      obtain ⟨first, others, hsplit⟩ := List.exists_cons_of_ne_nil (split_ne_nil (p.next c) s)
      rw [hsplit] at h
      obtain ⟨rfl, hothers⟩ := List.cons.inj h
      obtain ⟨front, rest, rfl, hafter, hfront⟩ :=
        ih first items (by rw [hsplit, hothers]; rfl) (List.cons_ne_nil _ _)
      refine ⟨c :: front, rest, rfl, hafter, ?_⟩
      rw [split, if_neg hc, hfront]
      rfl

/-- A comma separates two items exactly if the reader stands outside quotes and behind no backslash
when it comes to it. -/
theorem separatesAt_iff (front rest : List Char) :
    SeparatesAt front rest ↔ Place.start.after front = .start := by
  constructor
  · rintro ⟨items, more, hitems, hmore, hsplit, hfront, -⟩
    obtain ⟨front', rest', -, hafter, hfront'⟩ := exists_of_split_eq_append hsplit hitems hmore
    rw [← hfront, ← hfront', join_split]
    exact hafter
  · intro h
    exact ⟨_, _, split_ne_nil _ _, split_ne_nil _ _, split_append_separator h rest,
      join_split _ _, join_split _ _⟩

/-! ## Texts put together -/

theorem toList_append_comma (s t : String) :
    (s ++ "," ++ t).toList = s.toList ++ ',' :: t.toList := by
  simp [String.toList_append]

/-- **Splitting loses nothing and composes.** The items of a text with commas between them are the
text again, and a comma of it separates two items exactly if no active backslash stands before it
and it lies outside quotes. Behind a text that the reader leaves outside quotes, with no backslash
pending, and a comma, the items are those of the two texts, and the bindings of the second text lie
over those of the first. -/
theorem splitting_composes :
    (∀ s : List Char, Text.join ',' (split .start s) = s) ∧
      (∀ front rest : List Char,
        SeparatesAt front rest ↔ ¬EndsActive front ∧ ¬InQuotes front) ∧
      ∀ s t : String, Place.start.after s.toList = .start →
        split .start (s ++ "," ++ t).toList = split .start s.toList ++ split .start t.toList ∧
          parse (s ++ "," ++ t) = (parse s).overlay (parse t) := by
  refine ⟨join_split .start, fun front rest => ?_, fun s t h => ?_⟩
  · rw [separatesAt_iff, after_eq_start_iff]
  · have hsplit : split .start (s ++ "," ++ t).toList =
        split .start s.toList ++ split .start t.toList := by
      rw [toList_append_comma, split_append_separator h]
    refine ⟨hsplit, ?_⟩
    rw [parse, hsplit, List.filterMap_append, Table.ofList_append, parse, parse]

namespace Sample

/-- A backslash that is none in single quotes, marks of one kind within the other, and an escaped
comma outside quotes. -/
def first : String := "a='C:\\',b=\"x\\\",'\",c=\\,"

/-- Quotes that are not closed, and a key of the first text again. -/
def second : String := "b='y,z"

/-- The two texts put together. -/
theorem splitting_composes_marks :
    Place.start.after first.toList = .start ∧
      split .start (first ++ "," ++ second).toList =
        split .start first.toList ++ split .start second.toList ∧
      (parse (first ++ "," ++ second)).get? "a" = some "C:\\" ∧
      (parse (first ++ "," ++ second)).get? "b" = some "'y,z" ∧
      (parse (first ++ "," ++ second)).get? "c" = some "," := by
  have hfirst : Place.start.after first.toList = .start := by decide +kernel
  obtain ⟨-, -, hcomposes⟩ := splitting_composes
  obtain ⟨hsplit, hparse⟩ := hcomposes first second hfirst
  refine ⟨hfirst, hsplit, ?_, ?_, ?_⟩
  all_goals
    rw [hparse]
    decide +kernel

end Sample

end ProjectScript.CallArguments
