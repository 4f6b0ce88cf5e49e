import Mathlib.Data.List.Basic
import ProjectScript.Proofs.CallArguments.Splitting

/-!
# Quoted arguments

A value can be written in quotes of either kind: in single quotes with each single quote in it
doubled, or in double quotes with a backslash before each backslash and each double quote
(`Style.quote`). Whatever the value, the reader has then read one item of an argument text
(`passes_quote`), and takes the value out of the quotes again (`unquote_quote`).

An item binds a key to a value that is written in one of these ways, with blanks wherever they may
stand (`Item.text`); it makes this binding and no other (`binding_text`). So an argument text made
of such items gives the value of the last item of each key (`parse_quoted`).
-/

namespace ProjectScript.CallArguments

/-- The two kinds of quotes. -/
inductive Style
  | single
  | double
  deriving DecidableEq, Repr

namespace Style

/-- The mark that opens and closes a value. -/
def mark : Style → Char
  | single => '\''
  | double => '"'

/-- How a character is written between the quotes. -/
def escape : Style → Char → List Char
  | single, c => if c = '\'' then ['\'', '\''] else [c]
  | double, c => if c = '\\' ∨ c = '"' then ['\\', c] else [c]

/-- A value in quotes. -/
def quote (style : Style) (value : List Char) : List Char :=
  style.mark :: (value.flatMap style.escape ++ [style.mark])

/-- Between the quotes. -/
def inside : Style → Place
  | single => ⟨true, false, false⟩
  | double => ⟨false, true, false⟩

end Style

/-- The characters that quotes put into a text. -/
def marks : List Char := ['\'', '"', '\\']

/-- A character is written as itself, behind a mark where it needs one. -/
theorem escape_eq (style : Style) (c : Char) :
    style.escape c = [c] ∨ ∃ m ∈ marks, style.escape c = [m, c] := by
  cases style with
  | single =>
    rw [Style.escape]
    split
    · rename_i hc
      exact .inr ⟨'\'', by decide, by rw [hc]⟩
    · exact .inl rfl
  | double =>
    rw [Style.escape]
    split
    · exact .inr ⟨'\\', by decide, rfl⟩
    · exact .inl rfl

theorem mark_mem_marks (style : Style) : style.mark ∈ marks := by cases style <;> decide

/-- A value in quotes holds marks and the characters of the value. -/
theorem mem_quote {style : Style} {v : List Char} {c : Char} (h : c ∈ style.quote v) :
    c ∈ marks ∨ c ∈ v := by
  rw [Style.quote, List.mem_cons, List.mem_append, List.mem_singleton] at h
  rcases h with rfl | h | rfl
  · exact .inl (mark_mem_marks style)
  · obtain ⟨d, hd, hc⟩ := List.mem_flatMap.1 h
    rcases escape_eq style d with he | ⟨m, hm, he⟩
    · rw [he, List.mem_singleton] at hc
      exact .inr (hc ▸ hd)
    · rw [he, List.mem_cons, List.mem_singleton] at hc
      rcases hc with rfl | rfl
      · exact .inl hm
      · exact .inr hd
  · exact .inl (mark_mem_marks style)

/-! ## One value -/

/-- Outside quotes a character that is no mark changes nothing. -/
theorem next_start {c : Char} (hc : c ∉ marks) : Place.start.next c = .start := by
  simp only [marks, List.mem_cons, List.not_mem_nil, or_false, not_or] at hc
  simp [Place.next, Place.start, hc]

/-- Between quotes a character changes nothing unless it closes them, or escapes the next one. -/
theorem next_inside {style : Style} {c : Char} (hmark : c ≠ style.mark)
    (hback : style = .double → c ≠ '\\') : style.inside.next c = style.inside := by
  cases style with
  | single =>
    have hmark : c ≠ '\'' := hmark
    simp [Place.next, Style.inside, hmark]
  | double =>
    have hmark : c ≠ '"' := hmark
    simp [Place.next, Style.inside, hmark, hback rfl]

theorem passes_inside {style : Style} {c : Char} (hmark : c ≠ style.mark)
    (hback : style = .double → c ≠ '\\') : Passes style.inside [c] style.inside := by
  refine .cons ?_ ?_
  · cases style <;> simp [Place.separates, Style.inside]
  · rw [next_inside hmark hback]
    exact .nil _

theorem passes_escape (style : Style) (c : Char) :
    Passes style.inside (style.escape c) style.inside := by
  cases style with
  | single =>
    by_cases hc : c = '\''
    · subst hc
      exact ⟨rfl, rfl⟩
    · rw [Style.escape, if_neg hc]
      exact passes_inside hc nofun
  | double =>
    by_cases hc : c = '\\' ∨ c = '"'
    · rcases hc with rfl | rfl <;> exact ⟨rfl, rfl⟩
    · rw [Style.escape, if_neg hc]
      rw [not_or] at hc
      exact passes_inside hc.2 fun _ => hc.1

theorem passes_body (style : Style) (value : List Char) :
    Passes style.inside (value.flatMap style.escape) style.inside := by
  induction value with
  | nil => exact .nil _
  | cons c value ih => exact (passes_escape style c).append ih

/-- A value in quotes is read from outside of quotes to outside of quotes, with no separator in
it. -/
theorem passes_quote (style : Style) (value : List Char) :
    Passes .start (style.quote value) .start := by
  have hopen : Passes .start [style.mark] style.inside := by cases style <;> exact ⟨rfl, rfl⟩
  have hclose : Passes style.inside [style.mark] .start := by cases style <;> exact ⟨rfl, rfl⟩
  exact hopen.append ((passes_body style value).append hclose)

theorem undouble_body (value : List Char) :
    undouble (value.flatMap Style.single.escape) = value := by
  induction value with
  | nil => rfl
  | cons c value ih =>
    rw [List.flatMap_cons, Style.escape]
    by_cases hc : c = '\''
    · subst hc
      rw [if_pos rfl]
      exact congrArg ('\'' :: ·) ih
    · rw [if_neg hc, List.singleton_append, undouble, ih]
      intro rest h
      exact (hc h).elim

theorem unescape_cons {c : Char} (hc : c ≠ '\\') (s : List Char) :
    unescape (c :: s) = c :: unescape s := by
  cases s <;> simp [unescape, hc]

theorem unescape_body (value : List Char) :
    unescape (value.flatMap Style.double.escape) = value := by
  induction value with
  | nil => rfl
  | cons c value ih =>
    rw [List.flatMap_cons, Style.escape]
    by_cases hc : c = '\\' ∨ c = '"'
    · rw [if_pos hc]
      exact congrArg (c :: ·) ih
    · rw [if_neg hc, List.singleton_append, unescape_cons fun h => hc (.inl h), ih]

theorem between?_quote (style : Style) (value : List Char) :
    between? style.mark (style.quote value) = some (value.flatMap style.escape) := by
  rw [Style.quote, between?, if_pos ⟨rfl, List.getLast?_concat⟩, List.dropLast_concat]

/-- A value is taken out of its quotes. -/
theorem unquote_quote (style : Style) (value : List Char) :
    unquote (style.quote value) = value := by
  have hbetween := between?_quote style value
  cases style with
  | single =>
    rw [Style.mark] at hbetween
    rw [unquote, hbetween]
    exact undouble_body value
  | double =>
    have hsingle : between? '\'' (Style.double.quote value) = none := rfl
    rw [Style.mark] at hbetween
    rw [unquote, hsingle, hbetween]
    exact unescape_body value

/-! ## One item -/

/-- A text of blank characters. -/
abbrev Blanks := { s : List Char // ∀ c ∈ s, Text.isSpace c = true }

/-- No blank at all. -/
def Blanks.none : Blanks := ⟨[], nofun⟩

/-- A key that can stand without quotes. -/
structure IsKey (key : String) : Prop where
  ne_empty : key ≠ ""
  /-- It holds none of the characters that mean something in an item. -/
  not_mark : ∀ c ∈ key.toList, c ∉ ['=', ',', '\'', '"', '\\']
  isTrimmed : Text.IsTrimmed key.toList

instance (key : String) : Decidable (IsKey key) :=
  decidable_of_iff (key ≠ "" ∧
      (key.toList.all fun c => decide (c ∉ ['=', ',', '\'', '"', '\\'])) = true ∧
      Text.IsTrimmed key.toList)
    ⟨fun ⟨hne, hmark, htrimmed⟩ => ⟨hne, by simpa using hmark, htrimmed⟩,
      fun ⟨hne, hmark, htrimmed⟩ => ⟨hne, by simpa using hmark, htrimmed⟩⟩

/-- What an item of an argument text writes, and how: a key and a value in quotes, with an equals
sign between them and blanks around all three. -/
structure Item where
  key : String
  value : String
  style : Style
  lead : Blanks
  beforeSign : Blanks
  behindSign : Blanks
  trail : Blanks
  isKey : IsKey key

namespace Item

/-- The text of an item without the blanks around it. -/
def core (i : Item) : List Char :=
  i.key.toList ++ i.beforeSign ++ '=' :: (i.behindSign ++ i.style.quote i.value.toList)

/-- The text of an item. -/
def text (i : Item) : List Char := i.lead ++ i.core ++ i.trail

end Item

/-- An argument text: items with commas between them. -/
def argumentText (items : List Item) : String :=
  String.ofList (Text.join ',' (items.map Item.text))

/-- Outside quotes, characters without a meaning of their own are read over. -/
theorem passes_plain {s : List Char} (h : ∀ c ∈ s, c ∉ [',', '\'', '"', '\\']) :
    Passes .start s .start := by
  induction s with
  | nil => exact .nil _
  | cons c s ih =>
    obtain ⟨hc, hs⟩ := List.forall_mem_cons.1 h
    refine .cons ?_ ?_
    · simp [Place.separates, List.ne_of_not_mem_cons hc]
    · rw [next_start fun hmark => hc (List.mem_cons_of_mem _ hmark)]
      exact ih hs

theorem passes_blanks (s : Blanks) : Passes .start s .start := by
  refine passes_plain fun c hc hmark => ?_
  have hspace := s.2 c hc
  simp only [List.mem_cons, List.not_mem_nil, or_false] at hmark
  rcases hmark with rfl | rfl | rfl | rfl <;> revert hspace <;> decide

theorem passes_key {key : String} (h : IsKey key) : Passes .start key.toList .start :=
  passes_plain fun c hc hmark => h.not_mark c hc (List.mem_cons_of_mem _ hmark)

theorem passes_item (i : Item) : Passes .start i.text .start := by
  have hsign : Passes .start ['='] .start := ⟨rfl, rfl⟩
  have hcore : Passes .start i.core .start :=
    ((passes_key i.isKey).append (passes_blanks i.beforeSign)).append
      (hsign.append ((passes_blanks i.behindSign).append (passes_quote i.style i.value.toList)))
  exact ((passes_blanks i.lead).append hcore).append (passes_blanks i.trail)

theorem isTrimmed_quote (style : Style) (value : List Char) :
    Text.IsTrimmed (style.quote value) := by
  have hmark : Text.isSpace style.mark = false := by cases style <;> decide
  refine ⟨fun c hc => ?_, fun c hc => ?_⟩
  · obtain rfl := Option.some.inj hc
    exact hmark
  · rw [Style.quote, ← List.cons_append, List.getLast?_concat] at hc
    obtain rfl := Option.some.inj hc
    exact hmark

section

variable {key : String} {written : List Char}

theorem isTrimmed_assignment (hkey : IsKey key) (before : Blanks)
    (hend : ∀ c ∈ ('=' :: written).getLast?, Text.isSpace c = false) :
    Text.IsTrimmed (key.toList ++ before ++ '=' :: written) := by
  obtain ⟨c, rest, hc⟩ := List.exists_cons_of_ne_nil (mt String.toList_eq_nil_iff.1 hkey.ne_empty)
  refine ⟨fun d hd => hkey.isTrimmed.1 d ?_, fun d hd => hend d ?_⟩
  · rw [hc] at hd ⊢
    exact hd
  · rwa [List.getLast?_append_of_ne_nil _ (List.cons_ne_nil _ _)] at hd

/-- The key ends at the first equals sign. -/
theorem assignment_split (hkey : IsKey key) (before : Blanks) (written : List Char) :
    (key.toList ++ before ++ '=' :: written).takeWhile (· ≠ '=') = key.toList ++ before ∧
      (key.toList ++ before ++ '=' :: written).dropWhile (· ≠ '=') = '=' :: written := by
  have hfront : ∀ c ∈ key.toList ++ before.1, decide (c ≠ '=') = true := by
    intro c hc
    refine decide_eq_true fun he => ?_
    subst he
    rcases List.mem_append.1 hc with hc | hc
    · exact hkey.not_mark _ hc List.mem_cons_self
    · have := before.2 _ hc
      revert this
      decide
  rw [List.takeWhile_append_of_pos hfront, List.dropWhile_append_of_pos hfront]
  simp

/-- A key and a written value, with an equals sign between them and blanks around, make the binding
of the key to the value. -/
theorem binding?_assignment (hkey : IsKey key) (lead before trail : Blanks) {value : List Char}
    (hend : ∀ c ∈ ('=' :: written).getLast?, Text.isSpace c = false)
    (hvalue : Text.trimChars written = value) :
    binding? (lead ++ (key.toList ++ before ++ '=' :: written) ++ trail) =
      some (key, String.ofList (unquote value)) := by
  have htext : Text.trimChars (lead ++ (key.toList ++ before ++ '=' :: written) ++ trail) =
      key.toList ++ before ++ '=' :: written :=
    Text.trimChars_pad lead.2 trail.2 (isTrimmed_assignment hkey before hend)
  have hfront : Text.trimChars (key.toList ++ before) = key.toList :=
    Text.trimChars_pad (a := []) (by simp) before.2 hkey.isTrimmed
  have hne : key.toList.isEmpty = false :=
    List.isEmpty_eq_false_iff.2 (mt String.toList_eq_nil_iff.1 hkey.ne_empty)
  have htextne : (key.toList ++ before ++ '=' :: written).isEmpty = false := by simp
  obtain ⟨htake, hdrop⟩ := assignment_split hkey before written
  rw [binding?, htext]
  simp only [htextne, hdrop, htake, hfront, hvalue, hne, String.ofList_toList]
  rfl

end

/-- **An item makes its binding.** -/
theorem binding_text (i : Item) : binding? i.text = some (i.key, i.value) := by
  have hvalue : Text.trimChars (i.behindSign ++ i.style.quote i.value.toList) =
      i.style.quote i.value.toList := by
    have := Text.trimChars_pad i.behindSign.2 (b := []) (by simp)
      (isTrimmed_quote i.style i.value.toList)
    rwa [List.append_nil] at this
  have hend : ∀ c ∈ ('=' :: (i.behindSign ++ i.style.quote i.value.toList)).getLast?,
      Text.isSpace c = false := by
    have hne : i.style.quote i.value.toList ≠ [] := List.cons_ne_nil _ _
    intro c hc
    rw [← List.cons_append, List.getLast?_append_of_ne_nil _ hne] at hc
    exact (isTrimmed_quote i.style i.value.toList).2 c hc
  have hbinding := binding?_assignment i.isKey i.lead i.beforeSign i.trail hend hvalue
  rwa [unquote_quote, String.ofList_toList] at hbinding

/-! ## An argument text -/

/-- Items with commas between them, each read from outside quotes to outside quotes, make their
bindings one after the other. -/
theorem parse_join {ι : Type} {text : ι → List Char} {entry : ι → String × String}
    (hpasses : ∀ i, Passes .start (text i) .start)
    (hbinding : ∀ i, binding? (text i) = some (entry i)) (items : List ι) :
    parse (String.ofList (Text.join ',' (items.map text))) = Table.ofList (items.map entry) := by
  rw [parse, String.toList_ofList]
  cases items with
  | nil => rfl
  | cons i items =>
    have hentries : binding? ∘ text = fun i => some (entry i) := funext hbinding
    rw [split_join (by simp) (by simp [hpasses]), List.filterMap_map, hentries,
      List.filterMap_eq_map']

/-- The bindings of an argument text are those of its items. -/
theorem parse_argumentText (items : List Item) :
    parse (argumentText items) = Table.ofList (items.map fun i => (i.key, i.value)) :=
  parse_join passes_item binding_text items

theorem find?_items {ι : Type} {key value : ι → String} (items : List ι) (name : String) :
    Table.find? name (items.map fun i => (key i, value i)) =
      (items.find? fun i => name = key i).map value := by
  induction items with
  | nil => rfl
  | cons i items ih =>
    rw [List.map_cons, Table.find?, List.find?_cons, ih]
    by_cases h : name = key i <;> simp [h]

/-- **Quoted arguments are read back.** An argument text of items with quoted values binds the key
of each item, and nothing else, to the value of the last item that has this key. -/
theorem parse_quoted (items : List Item) :
    parse (argumentText items) = Table.ofList (items.map fun i => (i.key, i.value)) ∧
      ∀ name, (parse (argumentText items)).get? name =
        (items.reverse.find? fun i => name = i.key).map Item.value := by
  have hparse := parse_argumentText items
  refine ⟨hparse, fun name => ?_⟩
  rw [hparse, Table.get?_ofList, ← List.map_reverse]
  exact find?_items items.reverse name

namespace Sample

/-- One blank. -/
def blank : Blanks := ⟨[' '], List.all_eq_true.1 rfl⟩

/-- Quotes, commas and backslashes in values of both styles, and a key that comes twice. -/
def items : List Item := [
  { key := "a", value := "it's", style := .single
    lead := .none, beforeSign := .none, behindSign := blank, trail := .none
    isKey := by decide },
  { key := "b c", value := "\\", style := .single
    lead := blank, beforeSign := blank, behindSign := .none, trail := blank
    isKey := by decide },
  { key := "a", value := "x, y=\"\\", style := .double
    lead := blank, beforeSign := .none, behindSign := .none, trail := .none
    isKey := by decide }]

/-- The text of the items, and what it binds. -/
theorem parse_quoted_items :
    argumentText items = "a= 'it''s', b c ='\\' , a=\"x, y=\\\"\\\\\"" ∧
      (parse (argumentText items)).get? "a" = some "x, y=\"\\" ∧
      (parse (argumentText items)).get? "b c" = some "\\" ∧
      (parse (argumentText items)).get? "b" = none := by
  obtain ⟨-, hget⟩ := parse_quoted items
  refine ⟨by decide +kernel, ?_, ?_, ?_⟩
  all_goals
    rw [hget]
    decide +kernel

end Sample

end ProjectScript.CallArguments
