import ProjectScript.Dialect

/-!
# What shells read

A POSIX shell takes a text apart into words and the signs of redirections, and removes the quotes
(`Quote.tokens`). Only what a shell takes as it stands is read: in single quotes everything, in
double quotes everything but `$`, a backquote and a backslash, and without quotes the characters
that mean nothing else (`Quote.isBare`). PowerShell reads a literal from one quote to the next one
that is not doubled (`Quote.literal?`, for any choice of the characters that are quotes).

Whatever follows a quoted text, a shell has then read one word, which is the text
(`Quote.read_posixChars`), and PowerShell one literal, where the apostrophes are the only quotes
(`Quote.literalBody_powershellBody`). So, if the apostrophe is the only character that is a quote, each
line of a script that the plan's root, its directories or its texts are put into is read as the
statement it is meant to be (`Dialect.statement?_enter`, `Dialect.statement?_say`).
-/

namespace ProjectScript

namespace Quote

/-! ## Words of a POSIX shell -/

/-- A character that stands for itself without quotes. A tilde at the front of a word is taken as it
stands too. -/
def isBare (c : Char) : Bool :=
  ('A' ≤ c && c ≤ 'Z') || ('a' ≤ c && c ≤ 'z') || ('0' ≤ c && c ≤ '9') ||
    ['_', '@', '%', '+', '=', ':', ',', '.', '/', '~', '-'].contains c

/-- A character that is not taken as it stands in double quotes. -/
def isActive (c : Char) : Bool := c = '$' || c = '\x60' || c = '\\'

/-- A blank between words. -/
def isBlank (c : Char) : Bool := c = ' ' || c = '\t'

/-- What a line is made of: words, and the sign of a redirection. -/
inductive Token
  | word (w : String)
  | output
  deriving DecidableEq, Repr

/-- Where a reader stands: between words, or in one that begins with what it has read. -/
inductive Place
  | between
  | bare (w : List Char)
  | single (w : List Char)
  | double (w : List Char)
  deriving DecidableEq, Repr

/-- Reads a text from a place on, and removes the quotes. -/
def read : Place → List Char → Option (List Token)
  | .between, [] => some []
  | .between, c :: rest =>
    if isBlank c then read .between rest
    else if c = '>' then (read .between rest).map (.output :: ·)
    else if c = '\'' then read (.single []) rest
    else if c = '"' then read (.double []) rest
    else if isBare c then read (.bare [c]) rest
    else none
  | .bare w, [] => some [.word (String.ofList w)]
  | .bare w, c :: rest =>
    if isBlank c then (read .between rest).map (.word (String.ofList w) :: ·)
    else if c = '\'' then read (.single w) rest
    else if c = '"' then read (.double w) rest
    else if isBare c then read (.bare (w ++ [c])) rest
    else none
  | .single _, [] => none
  | .single w, c :: rest =>
    if c = '\'' then read (.bare w) rest else read (.single (w ++ [c])) rest
  | .double _, [] => none
  | .double w, c :: rest =>
    if c = '"' then read (.bare w) rest
    else if isActive c then none
    else read (.double (w ++ [c])) rest

/-- The words and signs of a text, as a POSIX shell reads them. -/
def tokens (s : String) : Option (List Token) := read .between s.toList

theorem isBare_of_isPlain {c : Char} (h : isPlain c = true) : isBare c = true := by
  have hsigns : "_@%+=:,./~-".toList =
      ['_', '@', '%', '+', '=', ':', ',', '.', '/', '~', '-'] := by decide +kernel
  have hupper : c.isUpper = true ↔ 'A' ≤ c ∧ c ≤ 'Z' := decide_eq_true_iff
  have hlower : c.isLower = true ↔ 'a' ≤ c ∧ c ≤ 'z' :=
    Bool.and_eq_true_iff.trans (and_congr decide_eq_true_iff decide_eq_true_iff)
  have hdigit : c.isDigit = true ↔ '0' ≤ c ∧ c ≤ '9' :=
    Bool.and_eq_true_iff.trans (and_congr decide_eq_true_iff decide_eq_true_iff)
  have halphanum :
      c.isAlphanum = true ↔ (c.isUpper = true ∨ c.isLower = true) ∨ c.isDigit = true :=
    Bool.or_eq_true_iff.trans (or_congr_left Bool.or_eq_true_iff)
  rw [isPlain, hsigns, Bool.or_eq_true, halphanum, hupper, hlower, hdigit] at h
  simpa only [isBare, Bool.or_eq_true, Bool.and_eq_true, decide_eq_true_eq] using h

/-- A bare character does nothing but stand for itself. -/
theorem ne_of_isBare {c : Char} (h : isBare c = true) :
    ¬isBlank c = true ∧ c ≠ '>' ∧ c ≠ '\'' ∧ c ≠ '"' := by
  refine ⟨fun hc => ?_, ?_, ?_, ?_⟩
  · unfold isBlank at hc
    simp only [Bool.or_eq_true, decide_eq_true_eq] at hc
    rcases hc with rfl | rfl <;> revert h <;> decide
  all_goals
    rintro rfl
    revert h
    decide

section

variable {s rest : List Char}

/-- Bare characters are added to the word. -/
theorem read_bare (h : s.all isBare = true) (w : List Char) :
    read (.bare w) (s ++ rest) = read (.bare (w ++ s)) rest := by
  induction s generalizing w with
  | nil => rw [List.nil_append, List.append_nil]
  | cons c s ih =>
    rw [List.all_cons, Bool.and_eq_true] at h
    obtain ⟨hblank, -, hsingle, hdouble⟩ := ne_of_isBare h.1
    rw [List.cons_append, read, if_neg hblank, if_neg hsingle, if_neg hdouble, if_pos h.1,
      ih h.2, List.append_assoc, List.singleton_append]

/-- In single quotes a text is read as it was, also where the quotes are left for a quote. -/
theorem read_posixBody (s w : List Char) :
    read (.single w) (posixBody s ++ '\'' :: rest) = read (.bare (w ++ s)) rest := by
  induction s generalizing w with
  | nil =>
    rw [posixBody, List.nil_append, read, if_pos rfl, List.append_nil]
  | cons c s ih =>
    rw [posixBody]
    by_cases hc : c = '\''
    · -- out of the single quotes, a quote in double ones, and back
      have hquote : ∀ t, read (.single w) ('\'' :: '"' :: '\'' :: '"' :: '\'' :: t) =
          read (.single (w ++ ['\''])) t := fun t => rfl
      rw [if_pos hc, hc]
      simp only [List.cons_append]
      rw [hquote, ih, List.append_assoc, List.singleton_append]
    · rw [if_neg hc, List.cons_append, read, if_neg hc, ih, List.append_assoc,
        List.singleton_append]

/-- What follows a quoted text is read behind a word that is the text. -/
theorem read_posixChars (s rest : List Char) :
    read .between (posixChars s ++ rest) = read (.bare s) rest := by
  unfold posixChars
  split
  · rename_i hplain
    rw [Bool.and_eq_true] at hplain
    have hbare : s.all isBare = true :=
      List.all_eq_true.2 fun c hc => isBare_of_isPlain (List.all_eq_true.1 hplain.2 c hc)
    cases s with
    | nil => cases hplain.1
    | cons c s =>
      rw [List.all_cons, Bool.and_eq_true] at hbare
      obtain ⟨hblank, hsign, hsingle, hdouble⟩ := ne_of_isBare hbare.1
      rw [List.cons_append, read, if_neg hblank, if_neg hsign, if_neg hsingle, if_neg hdouble,
        if_pos hbare.1, read_bare hbare.2, List.singleton_append]
  · have hopen : ∀ t, read .between ('\'' :: t) = read (.single []) t := fun t => rfl
    rw [List.cons_append, hopen, List.append_assoc, List.singleton_append, read_posixBody,
      List.nil_append]

end

/-- A quoted text in front of a blank is a word of its own. -/
theorem read_posix_blank (s : String) (rest : List Char) :
    read .between ((posix s).toList ++ ' ' :: rest) = (read .between rest).map (.word s :: ·) := by
  rw [posix, String.toList_ofList, read_posixChars, read, if_pos (by decide),
    String.ofList_toList]

theorem read_output (rest : List Char) :
    read .between ('>' :: rest) = (read .between rest).map (.output :: ·) := by
  rw [read, if_neg (by decide), if_pos rfl]

/-- A quoted text is read as one word, which is the text. -/
theorem tokens_posix (s : String) : tokens (posix s) = some [.word s] := by
  have h := read_posixChars s.toList []
  rw [List.append_nil, read, String.ofList_toList] at h
  rw [tokens, posix, String.toList_ofList, h]

/-! ## Literals of PowerShell -/

/-- The quote that delimits a literal. -/
def isApostrophe (c : Char) : Bool := c = '\''

/-- Reads a literal behind its opening quote: up to the first quote that is not doubled. Gives what
the literal stands for, and the rest. -/
def literalBody (isQuote : Char → Bool) : List Char → Option (List Char × List Char)
  | [] => none
  | [c] => if isQuote c then some ([], []) else none
  | c :: d :: rest =>
    if isQuote c then
      if isQuote d then (literalBody isQuote rest).map fun (s, rest) => (d :: s, rest)
      else some ([], d :: rest)
    else (literalBody isQuote (d :: rest)).map fun (s, rest) => (c :: s, rest)

/-- The text that a literal stands for, if nothing follows the literal. -/
def literal? (isQuote : Char → Bool) : List Char → Option String
  | [] => none
  | c :: rest =>
    if isQuote c then
      match literalBody isQuote rest with
      | some (s, []) => some (String.ofList s)
      | _ => none
    else none

section

variable {isQuote : Char → Bool} {c : Char} {rest : List Char}

theorem literalBody_cons (hc : isQuote c = false) (s : List Char) :
    literalBody isQuote (c :: s) = (literalBody isQuote s).map fun (s, rest) => (c :: s, rest) := by
  cases s with
  | nil => simp [literalBody, hc]
  | cons d s => simp [literalBody, hc]

/-- A quote that no other one follows ends the literal. -/
theorem literalBody_end (hc : isQuote c = true) (h : ∀ d ∈ rest.head?, isQuote d = false) :
    literalBody isQuote (c :: rest) = some ([], rest) := by
  cases rest with
  | nil => simp [literalBody, hc]
  | cons d rest => simp [literalBody, hc, h d rfl]

/-- The text between the quotes is read as it was, where it has no other quotes than those that are
written twice. -/
theorem literalBody_powershellBody (hquote : isQuote '\'' = true)
    (h : ∀ d ∈ rest.head?, isQuote d = false) {s : List Char}
    (hs : ∀ c ∈ s, isQuote c = true → c = '\'') :
    literalBody isQuote (powershellBody s ++ '\'' :: rest) = some (s, rest) := by
  induction s with
  | nil => exact literalBody_end hquote h
  | cons c s ih =>
    obtain ⟨hc, hs⟩ := List.forall_mem_cons.1 hs
    rw [powershellBody]
    by_cases heq : c = '\''
    · rw [if_pos heq, List.cons_append, List.cons_append, literalBody, if_pos hquote,
        if_pos hquote, ih hs, heq]
      rfl
    · have hplain : isQuote c = false := Bool.eq_false_iff.2 fun h => heq (hc h)
      rw [if_neg heq, List.cons_append, literalBody_cons hplain, ih hs]
      rfl

/-- A quoted text that has no other quotes is read as one literal, which stands for the text. -/
theorem literal?_powershell_of (hquote : isQuote '\'' = true) {s : String}
    (hs : ∀ c ∈ s.toList, isQuote c = true → c = '\'') :
    literal? isQuote (powershell s).toList = some s := by
  have hbody : literalBody isQuote (powershellBody s.toList ++ ['\'']) = some (s.toList, []) :=
    literalBody_powershellBody hquote (fun d hd => by cases hd) hs
  rw [powershell, String.toList_ofList, powershellChars, literal?, if_pos hquote, hbody]
  dsimp only
  rw [String.ofList_toList]

end

/-- A quoted text is read as one literal, which stands for the text. -/
theorem literal?_powershell (s : String) :
    literal? isApostrophe (powershell s).toList = some s :=
  literal?_powershell_of rfl fun _ _ h => of_decide_eq_true h

end Quote

/-! ## Statements -/

/-- A command with its arguments, and the file that its output goes to. -/
structure Statement where
  command : String
  arguments : List String
  output : Option String
  deriving DecidableEq, Repr

namespace Statement

/-- The words in front of a redirection, and its file. -/
def parts : List Quote.Token → Option (List String × Option String)
  | [] => some ([], none)
  | [.output, .word file] => some ([], some file)
  | .word w :: ts => (parts ts).map fun (ws, file) => (w :: ws, file)
  | .output :: _ => none

/-- The statement of a line of a POSIX shell. -/
def ofPosix? (line : String) : Option Statement :=
  match (Quote.tokens line).bind parts with
  | some (command :: arguments, output) => some ⟨command, arguments, output⟩
  | _ => none

theorem ofPosix?_of_parts {line command : String} {ts : List Quote.Token}
    {arguments : List String} {output : Option String} (hts : Quote.tokens line = some ts)
    (h : parts ts = some (command :: arguments, output)) :
    ofPosix? line = some ⟨command, arguments, output⟩ := by
  unfold ofPosix?
  rw [hts, Option.bind_some, h]

/-- A character of the name of a command. -/
def isNameChar (c : Char) : Bool := c.isAlpha || c = '-'

/-- The statement of a line of PowerShell: the name of a command, and a literal if there is
more. -/
def ofPowershell? (line : String) : Option Statement :=
  match line.toList.takeWhile isNameChar, line.toList.dropWhile isNameChar with
  | [], _ => none
  | command, [] => some ⟨String.ofList command, [], none⟩
  | command, ' ' :: argument =>
    (Quote.literal? Quote.isApostrophe argument).map fun s => ⟨String.ofList command, [s], none⟩
  | _, _ => none

theorem ofPowershell?_literal (command s : String) (hne : command.toList ≠ [])
    (h : command.toList.all isNameChar = true) :
    ofPowershell? (command ++ " " ++ Quote.powershell s) = some ⟨command, [s], none⟩ := by
  have hline : (command ++ " " ++ Quote.powershell s).toList =
      command.toList ++ ' ' :: (Quote.powershell s).toList := by
    rw [String.toList_append, String.toList_append, List.append_assoc]
    rfl
  have hname : ∀ c ∈ command.toList, isNameChar c = true := List.all_eq_true.1 h
  have hblank : ¬isNameChar ' ' = true := by decide
  unfold ofPowershell?
  rw [hline, List.takeWhile_append_of_pos hname, List.dropWhile_append_of_pos hname,
    List.takeWhile_cons_of_neg hblank, List.dropWhile_cons_of_neg hblank, List.append_nil]
  cases hc : command.toList with
  | nil => exact (hne hc).elim
  | cons c cs =>
    change (Quote.literal? Quote.isApostrophe (Quote.powershell s).toList).map _ = _
    rw [Quote.literal?_powershell, ← hc, String.ofList_toList]
    rfl

end Statement

namespace Dialect

/-- The statement of a line of a script. -/
def statement? : Dialect → String → Option Statement
  | posix => Statement.ofPosix?
  | powershell => Statement.ofPowershell?

/-- The statement that enters a directory. -/
def entering : Dialect → String → Statement
  | posix, dir => ⟨"pushd", [dir], some "/dev/null"⟩
  | powershell, dir => ⟨"Push-Location", [dir], none⟩

/-- The statement that leaves a directory. -/
def leaving : Dialect → Statement
  | posix => ⟨"popd", [], some "/dev/null"⟩
  | powershell => ⟨"Pop-Location", [], none⟩

/-- The statement that prints a text. -/
def saying : Dialect → String → Statement
  | posix, text => ⟨"echo", [text], none⟩
  | powershell, text => ⟨"Write-Host", [text], none⟩

variable (d : Dialect)

theorem statement?_enter (dir : String) : d.statement? (d.enter dir) = some (d.entering dir) := by
  cases d with
  | posix =>
    have hline : ("pushd " ++ Quote.posix dir ++ " >/dev/null").toList =
        (Quote.posix "pushd").toList ++ ' ' ::
          ((Quote.posix dir).toList ++ ' ' :: '>' :: (Quote.posix "/dev/null").toList) := by
      have hcommand : "pushd ".toList = (Quote.posix "pushd").toList ++ [' '] := by decide +kernel
      have hfile : " >/dev/null".toList = ' ' :: '>' :: (Quote.posix "/dev/null").toList := by
        decide +kernel
      rw [String.toList_append, String.toList_append, hcommand, hfile]
      simp only [List.append_assoc, List.cons_append, List.nil_append]
    have htokens : Quote.tokens ("pushd " ++ Quote.posix dir ++ " >/dev/null") =
        some [.word "pushd", .word dir, .output, .word "/dev/null"] := by
      have hfile := Quote.tokens_posix "/dev/null"
      rw [Quote.tokens] at hfile ⊢
      rw [hline, Quote.read_posix_blank, Quote.read_posix_blank, Quote.read_output, hfile]
      rfl
    exact Statement.ofPosix?_of_parts htokens rfl
  | powershell => exact Statement.ofPowershell?_literal "Push-Location" dir (by decide) (by decide)

theorem statement?_leave : d.statement? d.leave = some d.leaving := by
  cases d <;> decide +kernel

theorem statement?_say (text : String) : d.statement? (d.say text) = some (d.saying text) := by
  cases d with
  | posix =>
    have hline : ("echo " ++ Quote.posix text).toList =
        (Quote.posix "echo").toList ++ ' ' :: (Quote.posix text).toList := by
      have hcommand : "echo ".toList = (Quote.posix "echo").toList ++ [' '] := by decide +kernel
      rw [String.toList_append, hcommand, List.append_assoc, List.singleton_append]
    have htokens : Quote.tokens ("echo " ++ Quote.posix text) =
        some [.word "echo", .word text] := by
      have htext := Quote.tokens_posix text
      rw [Quote.tokens] at htext ⊢
      rw [hline, Quote.read_posix_blank, htext]
      rfl
    exact Statement.ofPosix?_of_parts htokens rfl
  | powershell => exact Statement.ofPowershell?_literal "Write-Host" text (by decide) (by decide)

theorem getElem?_lines {p : Plan} {i : Nat} {step : Step} (h : p.steps[i]? = some step) :
    (d.lines p)[i + 2]? = some (d.line step) := by
  obtain ⟨hi, -⟩ := List.getElem?_eq_some_iff.1 h
  have hline : (p.steps.map d.line)[i]? = some (d.line step) := by
    rw [List.getElem?_map, h]
    rfl
  have hlength : i < (p.steps.map d.line).length := by rwa [List.length_map]
  rw [lines, prologue, List.append_assoc]
  change (p.steps.map d.line ++ d.epilogue)[i]? = _
  rw [List.getElem?_append_left hlength, hline]

/-- **Texts are read back as they are.** A POSIX shell reads a quoted text as one word and
PowerShell reads it as one literal, which is the text. So in the script of any plan the statement
that enters the root, and each that enters a directory or prints a text, has this root, directory or
text as its only argument. -/
theorem texts_read_back :
    (∀ s, Quote.tokens (Quote.posix s) = some [.word s]) ∧
      (∀ s, Quote.literal? Quote.isApostrophe (Quote.powershell s).toList = some s) ∧
      ∀ (d : Dialect) (p : Plan),
        (∃ line, (d.lines p)[1]? = some line ∧ d.statement? line = some (d.entering p.root)) ∧
        ∀ i,
          (∀ dir, p.steps[i]? = some (.enter dir) → ∃ line, (d.lines p)[i + 2]? = some line ∧
            d.statement? line = some (d.entering dir)) ∧
          ∀ text, p.steps[i]? = some (.say text) → ∃ line, (d.lines p)[i + 2]? = some line ∧
            d.statement? line = some (d.saying text) := by
  refine ⟨Quote.tokens_posix, Quote.literal?_powershell, fun d p => ⟨?_, fun i => ⟨?_, ?_⟩⟩⟩
  · exact ⟨_, rfl, d.statement?_enter p.root⟩
  · intro dir h
    exact ⟨_, d.getElem?_lines h, d.statement?_enter dir⟩
  · intro text h
    exact ⟨_, d.getElem?_lines h, d.statement?_say text⟩

/-- Texts with quotes, line feeds and signs that shells act upon. -/
def hostile : Plan := ⟨[.enter "/it's", .say "'\n$(rm x); \x60y\x60 \"\\''", .say "", .leave]⟩

theorem texts_read_back_hostile :
    hostile.steps[0]? = some (.enter "/it's") ∧
      (∃ line, (posix.lines hostile)[2]? = some line ∧
        posix.statement? line = some ⟨"pushd", ["/it's"], some "/dev/null"⟩) ∧
      hostile.steps[1]? = some (.say "'\n$(rm x); \x60y\x60 \"\\''") ∧
      (∃ line, (powershell.lines hostile)[3]? = some line ∧
        powershell.statement? line =
          some ⟨"Write-Host", ["'\n$(rm x); \x60y\x60 \"\\''"], none⟩) ∧
      hostile.steps[2]? = some (.say "") ∧
      ∃ line, (posix.lines hostile)[4]? = some line ∧
        posix.statement? line = some ⟨"echo", [""], none⟩ := by
  obtain ⟨-, -, hread⟩ := texts_read_back
  exact ⟨rfl, ((hread posix hostile).2 0).1 _ rfl, rfl, ((hread powershell hostile).2 1).2 _ rfl,
    rfl, ((hread posix hostile).2 2).2 _ rfl⟩

end Dialect

end ProjectScript
