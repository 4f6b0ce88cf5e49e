import ProjectScript.Proofs.Plan.Sequence

/-!
# Invocations and their words

Words are read as an invocation by `Invocation.ofWords`, and `Invocation.flatten` writes an
invocation as words. Grouping keeps every word at its place (`group_words`), and the words that it
finds before the first command, which a sequence of commands has no room for, are none where the
words open with a command (`OpensCommand.group_fst`). So reading loses nothing
(`flatten_ofWords`).

What is read is canonical: no argument of a command starts with a colon, for such a word is the
next command, and a raw command line has a first word that does not (`canonical_ofWords`). The other
way round, grouping takes the words of commands apart where they were put together
(`group_flatMap`), so a canonical invocation is read back from its words (`ofWords_flatten`).
-/

namespace ProjectScript.Invocation

/-- The word does not start with a colon, so it names no command. -/
def IsArgument (word : String) : Prop := word.toList.head? ≠ some ':'

instance (word : String) : Decidable (IsArgument word) :=
  inferInstanceAs (Decidable (word.toList.head? ≠ some ':'))

/-- An invocation that words are read as: no argument of a command starts with a colon, and a raw
command line has a first word, which does not. -/
def Canonical : Invocation → Prop
  | commands chunks => ∀ c ∈ chunks, ∀ arg ∈ c.args, IsArgument arg
  | raw words => ∃ word, words.head? = some word ∧ IsArgument word

section

variable {word name : String} {words args rest : List String} {chunks : List Chunk}

theorem commandName?_eq_none_iff : commandName? word = none ↔ IsArgument word := by
  rw [← Option.not_isSome_iff_eq_none, commandName?_isSome_iff, IsArgument]

theorem commandName?_colon (name : String) : commandName? (":" ++ name) = some name := by
  have hword : (":" ++ name).toList = ':' :: name.toList := String.toList_append
  rw [commandName?, hword]
  exact congrArg some String.ofList_toList

theorem eq_of_commandName? (h : commandName? word = some name) : word = ":" ++ name := by
  unfold commandName? at h
  split at h
  · rename_i cs hword
    cases h
    exact (String.ofList_toList.symm.trans (congrArg String.ofList hword)).trans
      String.ofList_cons
  · cases h

/-! ## Reading -/

/-- A command takes the arguments that were found before the next one. -/
theorem group_command (h : commandName? word = some name) :
    group (word :: rest) = ([], ⟨name, (group rest).1⟩ :: (group rest).2) := by
  rw [group, h]

theorem group_argument (h : IsArgument word) :
    group (word :: rest) = (word :: (group rest).1, (group rest).2) := by
  rw [group, commandName?_eq_none_iff.2 h]

/-- Grouping keeps every word, and the order of the words. -/
theorem group_words (words : List String) :
    (group words).1 ++ (group words).2.flatMap chunkWords = words := by
  induction words with
  | nil => rfl
  | cons word rest ih =>
    cases h : commandName? word with
    | some name =>
      rw [group_command h, List.flatMap_cons, chunkWords, ← eq_of_commandName? h,
        List.nil_append, List.cons_append, ih]
    | none =>
      rw [group_argument (commandName?_eq_none_iff.1 h), List.cons_append, ih]

/-- No word is grouped as an argument that names a command. -/
theorem isArgument_of_group (words : List String) :
    (∀ arg ∈ (group words).1, IsArgument arg) ∧
      ∀ c ∈ (group words).2, ∀ arg ∈ c.args, IsArgument arg := by
  induction words with
  | nil => exact ⟨List.forall_mem_nil _, List.forall_mem_nil _⟩
  | cons word rest ih =>
    cases h : commandName? word with
    | some name =>
      rw [group_command h]
      exact ⟨List.forall_mem_nil _, List.forall_mem_cons.2 ih⟩
    | none =>
      have hword := commandName?_eq_none_iff.1 h
      rw [group_argument hword]
      exact ⟨List.forall_mem_cons.2 ⟨hword, ih.1⟩, ih.2⟩

theorem ofWords_of_isArgument (h : IsArgument word) :
    ofWords (word :: rest) = raw (word :: rest) := by
  rw [ofWords, commandName?_eq_none_iff.2 h]

/-- Words are either those of a raw command line or those of a sequence of commands. -/
theorem ofWords_cases (words : List String) :
    (∃ word rest, words = word :: rest ∧ IsArgument word ∧ ofWords words = raw words) ∨
      (group words).1 = [] ∧ ofWords words = commands (group words).2 := by
  cases words with
  | nil => exact .inr ⟨rfl, rfl⟩
  | cons word rest =>
    by_cases h : word.toList.head? = some ':'
    · have hopens : OpensCommand (word :: rest) := ⟨word, rfl, h⟩
      exact .inr ⟨hopens.group_fst, hopens.ofWords⟩
    · exact .inl ⟨word, rest, rfl, h, ofWords_of_isArgument h⟩

theorem flatten_ofWords (words : List String) : flatten (ofWords words) = words := by
  obtain ⟨_, _, -, -, hraw⟩ | ⟨hfst, hcommands⟩ := ofWords_cases words
  · rw [hraw, flatten]
  · have hwords := group_words words
    rw [hfst, List.nil_append] at hwords
    rw [hcommands, flatten, hwords]

theorem canonical_ofWords (words : List String) : Canonical (ofWords words) := by
  obtain ⟨word, rest, rfl, hword, hraw⟩ | ⟨-, hcommands⟩ := ofWords_cases words
  · rw [hraw]
    exact ⟨word, rfl, hword⟩
  · rw [hcommands]
    exact (isArgument_of_group words).2

/-! ## Reading back -/

theorem group_arguments_append (h : ∀ arg ∈ args, IsArgument arg) (rest : List String) :
    group (args ++ rest) = (args ++ (group rest).1, (group rest).2) := by
  induction args with
  | nil => rfl
  | cons arg args ih =>
    obtain ⟨harg, hargs⟩ := List.forall_mem_cons.1 h
    rw [List.cons_append, group_argument harg, ih hargs]
    rfl

/-- The words of a command are grouped as this command, if the next words do not add to it. -/
theorem group_chunkWords {c : Chunk} (h : ∀ arg ∈ c.args, IsArgument arg)
    (hrest : (group rest).1 = []) :
    group (chunkWords c ++ rest) = ([], c :: (group rest).2) := by
  rw [chunkWords, List.cons_append, group_command (commandName?_colon c.name),
    group_arguments_append h, hrest, List.append_nil]

theorem group_flatMap (h : ∀ c ∈ chunks, ∀ arg ∈ c.args, IsArgument arg) :
    group (chunks.flatMap chunkWords) = ([], chunks) := by
  induction chunks with
  | nil => rfl
  | cons c chunks ih =>
    obtain ⟨hc, hchunks⟩ := List.forall_mem_cons.1 h
    have hrest := ih hchunks
    rw [List.flatMap_cons, group_chunkWords hc (by rw [hrest]), hrest]

theorem opensCommand_chunkWords (c : Chunk) (rest : List String) :
    OpensCommand (chunkWords c ++ rest) :=
  ⟨":" ++ c.name, rfl, commandName?_isSome_iff.1 (by rw [commandName?_colon]; rfl)⟩

theorem ofWords_flatMap (h : ∀ c ∈ chunks, ∀ arg ∈ c.args, IsArgument arg) :
    ofWords (chunks.flatMap chunkWords) = commands chunks := by
  have hopens : chunks.flatMap chunkWords = [] ∨ OpensCommand (chunks.flatMap chunkWords) := by
    cases chunks with
    | nil => exact .inl rfl
    | cons c chunks => exact .inr (opensCommand_chunkWords c _)
  rw [ofWords_of_opens hopens, group_flatMap h]

end

theorem ofWords_flatten {i : Invocation} (h : i.Canonical) : ofWords i.flatten = i := by
  cases i with
  | commands chunks => exact ofWords_flatMap h
  | raw words =>
    obtain ⟨word, hhead, hword⟩ := h
    obtain ⟨rest, rfl⟩ := List.head?_eq_some_iff.1 hhead
    exact ofWords_of_isArgument hword

/-- **Reading words loses nothing.** The words of the invocation that words are read as are these
words, and no argument of a command starts with a colon. A canonical invocation is the one that its
words are read as. So every word stands in the invocation once, at its place and with its command. -/
theorem words_read_exactly :
    (∀ words, (ofWords words).flatten = words ∧ (ofWords words).Canonical) ∧
      ∀ i : Invocation, i.Canonical → ofWords i.flatten = i :=
  ⟨fun words => ⟨flatten_ofWords words, canonical_ofWords words⟩, fun _ => ofWords_flatten⟩

/-- Commands with an empty name, without arguments, with an empty argument, and with a name that
starts with a colon. -/
def colons : Invocation := .commands [⟨"", []⟩, ⟨"run", ["", "a:b"]⟩, ⟨":x", ["-d"]⟩]

theorem words_read_exactly_colons :
    colons.Canonical ∧ ofWords [":", ":run", "", "a:b", "::x", "-d"] = colons ∧
      (raw ["", ":x"]).Canonical ∧ ofWords ["", ":x"] = raw ["", ":x"] := by
  have hcolons : colons.Canonical := by
    unfold colons Canonical
    decide +kernel
  have hraw : (raw ["", ":x"]).Canonical := ⟨"", rfl, by decide +kernel⟩
  have hwords : colons.flatten = [":", ":run", "", "a:b", "::x", "-d"] := by decide +kernel
  exact ⟨hcolons, hwords ▸ words_read_exactly.2 _ hcolons, hraw, words_read_exactly.2 _ hraw⟩

end ProjectScript.Invocation
