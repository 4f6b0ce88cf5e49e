import ProjectScript.Proofs.CallArguments.Quoted

/-!
# Bare arguments

A value can also be written without quotes, with a backslash before each of its characters
(`protect`). The reader then reads one item of an argument text (`passes_protect`), and the
backslashes are dropped again (`unescape_protect_append`). In between the blanks around the item are
trimmed off, and a blank at the end goes even if a backslash stands before it: this backslash is
left, and as nothing stands behind it any more it counts for itself (`exists_stem`).

So the value that is read is the one that was written, but with a backslash in the place of a blank
at its end (`worn`, `binding_bareText`). An argument text made of such items gives the value of the
last item of each key exactly if none of these values ends with a blank (`bare_read_back_iff`).
-/

namespace ProjectScript.CallArguments

/-- A value with a backslash before each character. -/
def protect (value : List Char) : List Char := value.flatMap fun c => ['\\', c]

/-- Whether a value has a blank at its end. -/
def endsBlank (value : List Char) : Bool := value.getLast?.any Text.isSpace

/-- A value with a backslash in the place of a blank at its end. -/
def worn (value : List Char) : List Char :=
  if endsBlank value then value.dropLast ++ ['\\'] else value

/-! ## One value -/

theorem protect_concat (value : List Char) (c : Char) :
    protect (value ++ [c]) = protect value ++ ['\\', c] := by
  rw [protect, List.flatMap_append, List.flatMap_singleton, protect]

theorem passes_protect (value : List Char) : Passes .start (protect value) .start := by
  induction value with
  | nil => exact .nil _
  | cons c value ih =>
    have hpair : Passes .start ['\\', c] .start := by
      refine .cons rfl (.cons ?_ (.nil _))
      simp [Place.separates, Place.next, Place.start]
    exact hpair.append ih

/-- A text behind protected characters is read as it stands. -/
theorem unescape_protect_append (value rest : List Char) :
    unescape (protect value ++ rest) = value ++ unescape rest := by
  induction value with
  | nil => rfl
  | cons c value ih => exact congrArg (c :: ·) ih

/-- A text that begins with a backslash is not taken out of quotes. -/
theorem unquote_of_head? {s : List Char} (h : s.head? = some '\\') : unquote s = unescape s := by
  obtain ⟨rest, rfl⟩ := List.head?_eq_some_iff.1 h
  rfl

theorem head?_protect_append (value rest : List Char) :
    (protect value ++ '\\' :: rest).head? = some '\\' := by
  cases value <;> rfl

theorem endsBlank_concat (value : List Char) (c : Char) :
    endsBlank (value ++ [c]) = Text.isSpace c := by
  rw [endsBlank, List.getLast?_concat, Option.any_some]

/-- A value stays as it is exactly if no blank ends it. -/
theorem worn_eq_iff (value : List Char) : worn value = value ↔ endsBlank value = false := by
  rcases List.eq_nil_or_concat' value with rfl | ⟨front, c, rfl⟩
  · exact iff_of_true rfl rfl
  · rw [worn, endsBlank_concat, List.dropLast_concat]
    cases hc : Text.isSpace c with
    | false => exact iff_of_true rfl rfl
    | true =>
      refine iff_of_false (fun h => ?_) nofun
      obtain rfl : '\\' = c := by simpa using h
      revert hc
      decide

/-- Trimming takes a blank off the end of a protected value, but not the backslash before it. -/
theorem exists_stem (value : List Char) :
    ∃ (stem : List Char) (blanks : Blanks), protect value = stem ++ blanks ∧
      Text.IsTrimmed stem ∧ unquote stem = worn value := by
  rcases List.eq_nil_or_concat' value with rfl | ⟨front, c, rfl⟩
  · exact ⟨[], .none, rfl, ⟨nofun, nofun⟩, rfl⟩
  have hhead : ∀ rest, ∀ d ∈ (protect front ++ '\\' :: rest).head?, Text.isSpace d = false := by
    intro rest d hd
    rw [head?_protect_append] at hd
    obtain rfl := Option.some.inj hd
    decide
  rw [worn, endsBlank_concat, List.dropLast_concat, protect_concat]
  cases hc : Text.isSpace c with
  | true =>
    have hblank : ∀ d ∈ [c], Text.isSpace d = true := by simpa using hc
    refine ⟨protect front ++ ['\\'], ⟨[c], hblank⟩, ?_, ⟨hhead [], ?_⟩, ?_⟩
    · rw [List.append_assoc]
      rfl
    · rw [List.getLast?_concat]
      rintro d ⟨⟩
      decide
    · rw [unquote_of_head? (head?_protect_append front []), unescape_protect_append]
      rfl
  | false =>
    refine ⟨protect front ++ ['\\', c], .none, (List.append_nil _).symm, ⟨hhead [c], ?_⟩, ?_⟩
    · rw [List.getLast?_append_of_ne_nil _ (List.cons_ne_nil _ _)]
      rintro d ⟨⟩
      exact hc
    · rw [unquote_of_head? (head?_protect_append front [c]), unescape_protect_append]
      rfl

/-! ## One item -/

/-- A key and a value, to be written without quotes. -/
structure BareItem where
  key : String
  value : String
  isKey : IsKey key

namespace BareItem

/-- The text of an item: the key, an equals sign and the protected value. -/
def text (i : BareItem) : List Char := i.key.toList ++ '=' :: protect i.value.toList

/-- The value that is read. -/
def read (i : BareItem) : String := String.ofList (worn i.value.toList)

end BareItem

theorem passes_bareText (i : BareItem) : Passes .start i.text .start := by
  have hsign : Passes .start ['='] .start := ⟨rfl, rfl⟩
  exact (passes_key i.isKey).append (hsign.append (passes_protect i.value.toList))

/-- An item binds its key to the value that is read. -/
theorem binding_bareText (i : BareItem) : binding? i.text = some (i.key, i.read) := by
  obtain ⟨stem, blanks, hstem, htrimmed, hread⟩ := exists_stem i.value.toList
  have htext : i.text =
      Blanks.none ++ (i.key.toList ++ Blanks.none ++ '=' :: stem) ++ blanks := by
    simp [BareItem.text, hstem, Blanks.none]
  have hend : ∀ c ∈ ('=' :: stem).getLast?, Text.isSpace c = false := by
    rcases List.eq_nil_or_concat' stem with rfl | ⟨front, c, rfl⟩
    · rintro c ⟨⟩
      decide
    · rw [← List.cons_append, List.getLast?_concat, ← List.getLast?_concat]
      exact htrimmed.2
  have hvalue : Text.trimChars stem = stem := by
    have := Text.trimChars_pad (a := []) (b := []) (by simp) (by simp) htrimmed
    rwa [List.nil_append, List.append_nil] at this
  rw [htext, binding?_assignment i.isKey .none .none blanks hend hvalue, hread, BareItem.read]

theorem read_eq_iff (i : BareItem) : i.read = i.value ↔ endsBlank i.value.toList = false := by
  rw [← worn_eq_iff, BareItem.read]
  refine ⟨fun h => ?_, fun h => ?_⟩
  · have hlist := congrArg String.toList h
    rwa [String.toList_ofList] at hlist
  · rw [h, String.ofList_toList]

/-! ## An argument text -/

/-- An argument text of items without quotes, with commas between them. -/
def bareText (items : List BareItem) : String :=
  String.ofList (Text.join ',' (items.map BareItem.text))

/-- The last item of a key. -/
def lastOf (items : List BareItem) (key : String) : Option BareItem :=
  items.reverse.find? fun i => key = i.key

theorem get?_parse_bareText (items : List BareItem) (key : String) :
    (parse (bareText items)).get? key = (lastOf items key).map BareItem.read := by
  rw [bareText, parse_join passes_bareText binding_bareText, Table.get?_ofList, ← List.map_reverse]
  exact find?_items items.reverse key

/-- **Protected values are read back unless a blank ends them.** An argument text of items whose
values have a backslash before each character binds the key of each item, and nothing else, to the
value of the last item of this key, with a backslash in the place of a blank at its end. So it
binds all keys to the values as they are meant exactly if none of these values ends with a blank. -/
theorem bare_read_back_iff (items : List BareItem) :
    (∀ key, (parse (bareText items)).get? key = (lastOf items key).map BareItem.read) ∧
      ((∀ key, (parse (bareText items)).get? key = (lastOf items key).map BareItem.value) ↔
        ∀ key, ∀ i ∈ lastOf items key, endsBlank i.value.toList = false) := by
  refine ⟨get?_parse_bareText items, forall_congr' fun key => ?_⟩
  rw [get?_parse_bareText]
  cases lastOf items key with
  | none => exact iff_of_true rfl nofun
  | some i => simp [read_eq_iff]

theorem isKey_a : IsKey "a" := by decide

/-- An item with a blank for its value. -/
def blankItem : BareItem := ⟨"a", " ", isKey_a⟩

/-- The blank is read as the backslash before it. -/
theorem blank_at_end_lost :
    bareText [blankItem] = "a=\\ " ∧ (lastOf [blankItem] "a").map BareItem.value = some " " ∧
      (parse (bareText [blankItem])).get? "a" = some "\\" ∧
      ¬∀ key, (parse (bareText [blankItem])).get? key =
        (lastOf [blankItem] key).map BareItem.value := by
  have hread : (parse (bareText [blankItem])).get? "a" = some "\\" := by decide +kernel
  refine ⟨by decide +kernel, rfl, hread, fun h => ?_⟩
  have := hread.symm.trans (h "a")
  revert this
  decide

end ProjectScript.CallArguments
