import ProjectScript.CommandLine

/-!
# Options before the words of a project

An option is given with its value attached or in a word of its own (`Setting.words`). In the second
case the value waits until the next word is read; whether it has been settled by then makes no
difference to the rest of the command line (`parseFrom_of_settle`), so reading a setting is giving
the option its value (`parseFrom_setting`), and reading several of them with different options
gives each its value and leaves the rest to be read (`parseFrom_settings`).

The first word without a dash ends the options. All words from there on are taken as they stand,
and only an option that has not been given before is looked up in the environment
(`words_belong_to_project`).
-/

namespace ProjectScript.CommandLine

/-- The name of an option. -/
def Flag.name : Flag → String
  | .dialect => "dialect"
  | .plugins => "plugins"

/-- The word of an option. -/
def Flag.word (f : Flag) : String := "--" ++ f.name

/-- An option with a value, attached to it or behind it. -/
structure Setting where
  flag : Flag
  value : String
  attached : Bool
  deriving DecidableEq, Repr

/-- The words that give an option its value. -/
def Setting.words (s : Setting) : List String :=
  if s.attached then [s.flag.word ++ "=" ++ s.value] else [s.flag.word, s.value]

/-- The word does not begin with a dash. -/
def IsUndashed (word : String) : Prop := word.toList.head? ≠ some '-'

instance (word : String) : Decidable (IsUndashed word) := inferInstanceAs (Decidable (_ ≠ _))

/-- The value that settings give an option. -/
def valueIn (settings : List Setting) (f : Flag) : Option String :=
  (settings.find? fun s => s.flag = f).map Setting.value

/-! ## What words are -/

theorem kind_of_isUndashed {word : String} (h : IsUndashed word) : kind word = .plain := by
  unfold kind
  split
  case h_1 hword => exact (h (by rw [hword]; rfl)).elim
  case h_2 _ hword => exact (h (by rw [hword]; rfl)).elim
  case h_3 _ _ hword => exact (h (by rw [hword]; rfl)).elim
  case h_4 => rfl

theorem longKind_name (f : Flag) (value : Option String) :
    longKind f.name value = .option f value := by
  cases f <;> rfl

theorem kind_word (f : Flag) : kind f.word = .option f none := by
  cases f <;> decide +kernel

/-- A value is attached to a name by an equals sign. -/
theorem splitValue_attached {name : String} (h : '=' ∉ name.toList) (value : String) :
    splitValue (name.toList ++ '=' :: value.toList) = (name, some value) := by
  have hname : ∀ c ∈ name.toList, decide (c ≠ '=') = true := by
    intro c hc
    exact decide_eq_true fun he => h (he ▸ hc)
  rw [splitValue, List.dropWhile_append_of_pos hname, List.takeWhile_append_of_pos hname]
  simp

theorem kind_dashes {word : String} {c : Char} {cs : List Char}
    (h : word.toList = '-' :: '-' :: c :: cs) :
    kind word = longKind (splitValue (c :: cs)).1 (splitValue (c :: cs)).2 := by
  rw [kind, h]
  rfl

theorem kind_attached (f : Flag) (value : String) :
    kind (f.word ++ "=" ++ value) = .option f (some value) := by
  have hword : (f.word ++ "=" ++ value).toList =
      '-' :: '-' :: (f.name.toList ++ '=' :: value.toList) := by
    simp [Flag.word]
  have hname : '=' ∉ f.name.toList := by cases f <;> decide +kernel
  obtain ⟨c, cs, hcs⟩ : ∃ c cs, f.name.toList ++ '=' :: value.toList = c :: cs :=
    List.exists_cons_of_ne_nil (by simp)
  rw [kind_dashes (hword.trans (by rw [hcs])), ← hcs, splitValue_attached hname]
  exact longKind_name f (some value)

/-! ## One setting -/

section

variable {c c' : CommandLine} {p : Pending} {f : Flag} {word value : String}

/-- An option that has no value takes one, and nothing else changes. -/
theorem exists_of_set (h : c.get? f = none) (value : String) :
    ∃ c', c.set f value = .ok c' ∧ (∀ g, c'.get? g = if f = g then some value else c.get? g) ∧
      c'.words = c.words := by
  unfold set
  rw [h]
  cases f with
  | dialect => exact ⟨_, rfl, fun g => by cases g <;> rfl, rfl⟩
  | plugins => exact ⟨_, rfl, fun g => by cases g <;> rfl, rfl⟩

theorem parseFrom_option (h : kind word = .option f none) (rest : List String) :
    parseFrom c none (word :: rest) = parseFrom c (some (f, none)) rest := by
  rw [parseFrom.eq_def]
  simp only [h]
  rfl

theorem parseFrom_attached (h : kind word = .option f (some value)) (hset : c.set f value = .ok c')
    (rest : List String) : parseFrom c none (word :: rest) = parseFrom c' none rest := by
  rw [parseFrom.eq_def]
  simp only [h, settle, bind, Except.bind, hset]

/-- A word that means nothing else is the value that an option waits for. -/
theorem parseFrom_value (h : kind word = .plain) (rest : List String) :
    parseFrom c (some (f, none)) (word :: rest) = parseFrom c (some (f, some word)) rest := by
  rw [parseFrom.eq_def]
  simp only [h]

/-- A word that means nothing else ends the options, when none of them waits for a value. -/
theorem parseFrom_plain (h : kind word = .plain) (hsettle : c.settle p = .ok c')
    (rest : List String) :
    parseFrom c p (word :: rest) = .ok { c' with words := word :: rest } := by
  rcases p with _ | ⟨f, _ | value⟩
  · obtain rfl := Except.ok.inj hsettle
    rw [parseFrom.eq_def]
    simp only [h]
    rfl
  · cases hsettle
  · rw [parseFrom.eq_def]
    simp only [h, hsettle]
    rfl

/-- A value that can be settled may as well have been settled before. -/
theorem parseFrom_of_settle (h : c.settle p = .ok c') (words : List String) :
    parseFrom c p words = parseFrom c' none words := by
  have hsettled : c'.settle none = .ok c' := rfl
  cases words with
  | nil => exact h
  | cons word rest =>
    cases hk : kind word with
    | plain => rw [parseFrom_plain hk h, parseFrom_plain hk hsettled]
    | option f value =>
      rw [parseFrom.eq_def, parseFrom.eq_def c']
      cases value <;> simp only [hk, h, hsettled]
    | _ =>
      rw [parseFrom.eq_def, parseFrom.eq_def c']
      simp only [hk, h, hsettled]

theorem parseFrom_setting {s : Setting} (h : c.set s.flag s.value = .ok c')
    (hvalue : IsUndashed s.value) (rest : List String) :
    parseFrom c none (s.words ++ rest) = parseFrom c' none rest := by
  rw [Setting.words]
  split
  · exact parseFrom_attached (kind_attached s.flag s.value) h rest
  · rw [List.cons_append, List.singleton_append, parseFrom_option (kind_word s.flag),
      parseFrom_value (kind_of_isUndashed hvalue)]
    exact parseFrom_of_settle (p := some (s.flag, some s.value)) h rest

end

/-! ## All settings -/

/-- Settings of different options give each its value. -/
theorem parseFrom_settings {c : CommandLine} {settings : List Setting}
    (hflags : (settings.map Setting.flag).Nodup) (hfree : ∀ s ∈ settings, c.get? s.flag = none)
    (hvalues : ∀ s ∈ settings, IsUndashed s.value) (rest : List String) :
    ∃ c', parseFrom c none (settings.flatMap Setting.words ++ rest) = parseFrom c' none rest ∧
      (∀ f, c'.get? f = (valueIn settings f).or (c.get? f)) ∧ c'.words = c.words := by
  induction settings generalizing c with
  | nil => exact ⟨c, rfl, fun f => rfl, rfl⟩
  | cons s settings ih =>
    obtain ⟨hfresh, hflags⟩ := List.nodup_cons.1 hflags
    obtain ⟨hs, hfree⟩ := List.forall_mem_cons.1 hfree
    obtain ⟨hvalue, hvalues⟩ := List.forall_mem_cons.1 hvalues
    obtain ⟨c₁, hset, hget, hwords⟩ := exists_of_set hs s.value
    have hfree₁ : ∀ t ∈ settings, c₁.get? t.flag = none := by
      intro t ht
      have hne : s.flag ≠ t.flag := fun he => hfresh (he ▸ List.mem_map_of_mem ht)
      rw [hget, if_neg hne]
      exact hfree t ht
    obtain ⟨c', hparse, hget', hwords'⟩ := ih hflags hfree₁ hvalues
    refine ⟨c', ?_, fun f => ?_, hwords'.trans hwords⟩
    · rw [List.flatMap_cons, List.append_assoc, parseFrom_setting hset hvalue]
      exact hparse
    · rw [hget', hget, valueIn, valueIn, List.find?_cons]
      by_cases hf : s.flag = f
      · have hnone : settings.find? (fun t => t.flag = f) = none := by
          refine List.find?_eq_none.2 fun t ht htf => hfresh ?_
          rw [hf, ← of_decide_eq_true htf]
          exact List.mem_map_of_mem ht
        simp [hf, hnone]
      · simp [hf]

/-- **The words behind the name of a project belong to the project.** Each option is given at most
once, with a value that does not begin with a dash, and a word follows that does not begin with one
either. Then the command line is read, whatever stands behind that word: the words are this one and
all that follow, as they stand, and an option has the value that it was given, or else that of its
variable. -/
theorem words_belong_to_project (env : Environment) {settings : List Setting}
    (hflags : (settings.map Setting.flag).Nodup)
    (hvalues : ∀ s ∈ settings, IsUndashed s.value) {word : String} (hword : IsUndashed word)
    (tail : List String) :
    parse env (settings.flatMap Setting.words ++ word :: tail) = .ok
      { dialect := (valueIn settings .dialect).or (env "PM_DIALECT")
        plugins := (valueIn settings .plugins).or (env "PM_PLUGIN_DIR")
        words := word :: tail } := by
  obtain ⟨c, hparse, hget, -⟩ :=
    parseFrom_settings (c := ⟨none, none, []⟩) hflags (fun s _ => by cases s.flag <;> rfl) hvalues
      (word :: tail)
  have hdialect : c.dialect = valueIn settings .dialect := (hget .dialect).trans Option.or_none
  have hplugins : c.plugins = valueIn settings .plugins := (hget .plugins).trans Option.or_none
  rw [parse, hparse, parseFrom_plain (kind_of_isUndashed hword) rfl, ← hdialect, ← hplugins]
  rfl

namespace Sample

/-- A dialect, and a directory of external renderers that is attached to its option. -/
def settings : List Setting := [⟨.dialect, "pwsh", false⟩, ⟨.plugins, "~/p=q", true⟩]

/-- Words that would mean something before the name of a project. -/
def tail : List String := ["--dialect", "x", "--plugins", "--help", "-h", "--", "", ":build"]

/-- An environment with a dialect. -/
def env : Environment := fun name => if name = "PM_DIALECT" then some "fish" else none

/-- With both options given the dialect of the environment does not count; with one of them not
given, its variable is looked up. -/
theorem words_belong_to_subzero :
    (settings.map Setting.flag).Nodup ∧ (∀ s ∈ settings, IsUndashed s.value) ∧
      IsUndashed "subzero" ∧
      parse env ("--dialect" :: "pwsh" :: "--plugins=~/p=q" :: "subzero" :: tail) =
        .ok ⟨some "pwsh", some "~/p=q", "subzero" :: tail⟩ ∧
      parse env ("--plugins=~/p=q" :: "subzero" :: tail) =
        .ok ⟨some "fish", some "~/p=q", "subzero" :: tail⟩ := by
  have hflags : (settings.map Setting.flag).Nodup := by decide
  have hvalues : ∀ s ∈ settings, IsUndashed s.value := by decide +kernel
  have hword : IsUndashed "subzero" := by decide +kernel
  have hrest : ∀ s ∈ settings.drop 1, IsUndashed s.value := fun s hs =>
    hvalues s (List.mem_of_mem_drop hs)
  exact ⟨hflags, hvalues, hword, words_belong_to_project env hflags hvalues hword tail,
    @words_belong_to_project env (settings.drop 1) (by decide) hrest _ hword tail⟩

end Sample

end ProjectScript.CommandLine
