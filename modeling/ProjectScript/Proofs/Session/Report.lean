import ProjectScript.Proofs.FileSystem.Steps
import ProjectScript.Proofs.Registry.History
import ProjectScript.Proofs.Session.Output

/-!
# Reports of the commands

A command that keeps the registry, and a command line without words, write a report and no script
(`Reported`, `outcome_dispatch_iff`). A shell that evaluates a report runs nothing if each line is
empty or a comment (`Inert`). This is so of the usage and of the report about an empty registry. A
report about one project is inert if the name and the root put no other line into it, and the list
of one or more projects never is, since it names them on lines of their own (`inert_text_iff`).
-/

namespace ProjectScript

open Act

/-! ## Inert texts -/

/-- A shell passes over the line: it is empty or a comment. -/
def IsComment (line : List Char) : Prop := line = [] ∨ line.head? = some '#'

instance (line : List Char) : Decidable (IsComment line) :=
  inferInstanceAs (Decidable (_ ∨ _))

/-- All lines of a text are empty or comments. -/
def Inert (text : List Char) : Prop := ∀ line ∈ Text.cut '\n' text, IsComment line

instance (text : List Char) : Decidable (Inert text) :=
  inferInstanceAs (Decidable (∀ line ∈ _, _))

/-- All lines of a text but the first are empty or comments, so that the text may stand behind the
beginning of a comment. -/
def Tame (text : List Char) : Prop := ∀ line ∈ (Text.cut '\n' text).tail, IsComment line

instance (text : List Char) : Decidable (Tame text) :=
  inferInstanceAs (Decidable (∀ line ∈ _, _))

section

variable {c : Char} {s t : List Char}

/-- A character that is not the separator stands at the front of the first part. -/
theorem Text.cut_cons {sep : Char} (hc : c ≠ sep) (s : List Char) :
    ∃ part parts, cut sep s = part :: parts ∧ cut sep (c :: s) = (c :: part) :: parts := by
  obtain ⟨part, parts, h⟩ := List.exists_cons_of_ne_nil (cut_ne_nil sep s)
  refine ⟨part, parts, h, ?_⟩
  rw [cut, if_neg hc, h]

theorem inert_nil : Inert [] := by decide

theorem inert_append_newline (s t : List Char) : Inert (s ++ '\n' :: t) ↔ Inert s ∧ Inert t := by
  rw [Inert, Text.cut_append_sep, List.forall_mem_append]
  rfl

/-- A text of lines that each end with a newline. -/
theorem inert_join {lines : List String} (h : ∀ line ∈ lines, Inert line.toList) :
    Inert (String.join (lines.map (· ++ "\n"))).toList := by
  induction lines with
  | nil => exact inert_nil
  | cons line lines ih =>
    obtain ⟨hline, hlines⟩ := List.forall_mem_cons.1 h
    have hend : "\n".toList = ['\n'] := by decide
    rw [List.map_cons, String.join_cons, String.toList_append, String.toList_append, hend,
      List.append_assoc, List.singleton_append, inert_append_newline]
    exact ⟨hline, ih hlines⟩

theorem inert_cons_iff (hc : c ≠ '\n') : Inert (c :: s) ↔ c = '#' ∧ Tame s := by
  obtain ⟨line, lines, hs, hcs⟩ := Text.cut_cons hc s
  rw [Inert, Tame, hcs, hs, List.forall_mem_cons, List.tail_cons]
  simp only [IsComment, reduceCtorEq, List.head?_cons, Option.some.injEq, false_or]

theorem tame_cons_iff (hc : c ≠ '\n') : Tame (c :: s) ↔ Tame s := by
  obtain ⟨line, lines, hs, hcs⟩ := Text.cut_cons hc s
  rw [Tame, Tame, hcs, hs, List.tail_cons, List.tail_cons]

/-- What stands in front on the first line does not count. -/
theorem tame_append_iff (h : '\n' ∉ s) (t : List Char) : Tame (s ++ t) ↔ Tame t := by
  induction s with
  | nil => rfl
  | cons c s ih =>
    rw [List.mem_cons, not_or] at h
    rw [List.cons_append, tame_cons_iff (Ne.symm h.1), ih h.2]

theorem tame_of_not_mem (h : '\n' ∉ s) : Tame s := by
  rw [Tame, Text.cut_of_not_mem h]
  exact List.forall_mem_nil _

/-- A line that a comment begins. -/
theorem inert_comment_iff (h : '\n' ∉ s) (t : List Char) :
    Inert ('#' :: s ++ t ++ ['\n']) ↔ Tame t := by
  rw [inert_append_newline, and_iff_left inert_nil, List.cons_append, inert_cons_iff (by decide),
    and_iff_right rfl, tame_append_iff h]

end

namespace Session

/-! ## Reports -/

/-- What is written when there are no words, or the first one is a command. -/
inductive Report
  | usage
  | added (p : Registered)
  | removed (name : String)
  | listed (ps : List Registered)

/-- The text of a report. -/
def Report.text : Report → String
  | usage => Session.usage
  | added p => "# pm: added project " ++ p.name ++ " (" ++ p.root ++ ")\n"
  | removed name => "# pm: removed project " ++ name ++ "\n"
  | listed ps => listings ps

/-- The report about what words ask for, and the world after this, before the report is written. -/
inductive Reported (host : Host) (s : Session) (w : World) : List String → Report → World → Prop
  | usage : Reported host s w [] .usage w
  | added {words : List String} {file : String} {p : Registered} {w' : World} :
    CommandLine.operand words = .ok file → (Registry.add host s.home file).outcome w = (.ok p, w') →
      Reported host s w ("add" :: words) (.added p) w'
  | removed {word : String} {words : List String} {name : String} {w' : World} :
    word = "rm" ∨ word = "remove" → CommandLine.operand words = .ok name →
      (Registry.remove host s.home name).outcome w = (.ok (), w') →
        Reported host s w (word :: words) (.removed name) w'
  | listed {word : String} {words : List String} {ps : List Registered} {w' : World} :
    word = "ls" ∨ word = "list" → (Registry.list host s.home).outcome w = (.ok ps, w') →
      Reported host s w (word :: words) (.listed ps) w'

section

variable {host : Host} {s : Session} {words : List String} {w w' : World}

theorem outcome_add_iff :
    (s.add host words).outcome w = (.ok (), w') ↔
      ∃ file, CommandLine.operand words = .ok file ∧
        ∃ p w₁, (Registry.add host s.home file).outcome w = (.ok p, w₁) ∧
          w' = { w₁ with output := w₁.output ++ (Report.added p).text } := by
  simp only [add, outcome_bind_eq_ok_iff, outcome_mapError_eq_ok_iff, outcome_ofExcept_eq_ok_iff,
    outcome_emit_eq_ok_iff, mapError_eq_ok_iff, and_assoc, exists_and_left, exists_eq_left]
  rfl

theorem outcome_remove_iff :
    (s.remove host words).outcome w = (.ok (), w') ↔
      ∃ name, CommandLine.operand words = .ok name ∧
        ∃ w₁, (Registry.remove host s.home name).outcome w = (.ok (), w₁) ∧
          w' = { w₁ with output := w₁.output ++ (Report.removed name).text } := by
  simp only [remove, outcome_bind_eq_ok_iff, outcome_mapError_eq_ok_iff,
    outcome_ofExcept_eq_ok_iff, outcome_emit_eq_ok_iff, mapError_eq_ok_iff, and_assoc,
    exists_and_left, exists_eq_left]
  constructor
  · rintro ⟨name, hn, _, w₁, h⟩
    exact ⟨name, hn, w₁, h⟩
  · rintro ⟨name, hn, w₁, h⟩
    exact ⟨name, hn, (), w₁, h⟩

theorem outcome_list_iff :
    (s.list host).outcome w = (.ok (), w') ↔
      ∃ ps w₁, (Registry.list host s.home).outcome w = (.ok ps, w₁) ∧
        w' = { w₁ with output := w₁.output ++ (Report.listed ps).text } := by
  simp only [list, outcome_bind_eq_ok_iff, outcome_mapError_eq_ok_iff, outcome_emit_eq_ok_iff]
  rfl

theorem dispatch_remove {word : String} (h : word = "rm" ∨ word = "remove") :
    s.dispatch host (word :: words) = s.remove host words := by
  rcases h with rfl | rfl <;> rfl

theorem dispatch_list {word : String} (h : word = "ls" ∨ word = "list") :
    s.dispatch host (word :: words) = s.list host := by
  rcases h with rfl | rfl <;> rfl

/-- A session that names no project succeeds exactly if there is a report, and then it writes the
report and nothing else. -/
theorem outcome_dispatch_iff (h : ∀ word ∈ words.head?, word ∈ commands) :
    (s.dispatch host words).outcome w = (.ok (), w') ↔
      ∃ r w₁, Reported host s w words r w₁ ∧ w' = { w₁ with output := w₁.output ++ r.text } := by
  constructor
  · intro ho
    cases words with
    | nil =>
      cases ho
      exact ⟨.usage, w, .usage, rfl⟩
    | cons word words =>
      have hword : word = "add" ∨ (word = "rm" ∨ word = "remove") ∨ word = "ls" ∨ word = "list" := by
        simpa [commands, or_assoc] using h word rfl
      rcases hword with rfl | hword | hword
      · obtain ⟨file, hf, p, w₁, ha, rfl⟩ := outcome_add_iff.1 ho
        exact ⟨.added p, w₁, .added hf ha, rfl⟩
      · rw [dispatch_remove hword] at ho
        obtain ⟨name, hn, w₁, hr, rfl⟩ := outcome_remove_iff.1 ho
        exact ⟨.removed name, w₁, .removed hword hn hr, rfl⟩
      · rw [dispatch_list hword] at ho
        obtain ⟨ps, w₁, hl, rfl⟩ := outcome_list_iff.1 ho
        exact ⟨.listed ps, w₁, .listed hword hl, rfl⟩
  · rintro ⟨r, w₁, hr, rfl⟩
    cases hr with
    | usage => exact outcome_emit _ w
    | added hf ha => exact outcome_add_iff.2 ⟨_, hf, _, w₁, ha, rfl⟩
    | removed hword hn hr =>
      rw [dispatch_remove hword]
      exact outcome_remove_iff.2 ⟨_, hn, w₁, hr, rfl⟩
    | listed hword hl =>
      rw [dispatch_list hword]
      exact outcome_list_iff.2 ⟨_, w₁, hl, rfl⟩

/-! ## Which reports are inert -/

/-- What is in a report puts no line of its own into it that a shell would run. -/
def Report.Harmless : Report → Prop
  | usage => True
  | added p => Tame (p.name ++ " (" ++ p.root ++ ")").toList
  | removed name => Tame name.toList
  | listed ps => ps = []

theorem inert_listings_iff (ps : List Registered) : Inert (listings ps).toList ↔ ps = [] := by
  cases ps with
  | nil => exact iff_of_true (by decide +kernel) rfl
  | cons p ps =>
    refine iff_of_false (fun h => ?_) (List.cons_ne_nil p ps)
    obtain ⟨rest, hrest⟩ : ∃ rest, (listings (p :: ps)).toList =
        "# pm: projects\n".toList ++ '\n' :: '-' :: rest := by
      have hlead : "# pm: projects\n\n".toList = "# pm: projects\n".toList ++ ['\n'] := by
        decide +kernel
      have hdash : "- ".toList = ['-', ' '] := by decide +kernel
      simp only [listings, listing, List.isEmpty_cons, Bool.false_eq_true, if_false,
        List.map_cons, String.join_cons, String.toList_append, hlead, hdash, List.append_assoc,
        List.cons_append]
      exact ⟨_, rfl⟩
    rw [hrest, inert_append_newline, inert_cons_iff (by decide +kernel)] at h
    exact absurd h.2.1 (by decide)

theorem inert_text_iff (r : Report) : Inert r.text.toList ↔ r.Harmless := by
  cases r with
  | usage =>
    have hlines : ∀ line ∈ usageLines, Inert line.toList := by decide +kernel
    exact iff_of_true (inert_join hlines) trivial
  | added p =>
    have htext : (Report.added p).text.toList = '#' :: " pm: added project ".toList ++
        (p.name ++ " (" ++ p.root ++ ")").toList ++ ['\n'] := by
      have hlead : "# pm: added project ".toList = '#' :: " pm: added project ".toList := by
        decide +kernel
      have hend : ")\n".toList = ")".toList ++ ['\n'] := by decide +kernel
      change ("# pm: added project " ++ p.name ++ " (" ++ p.root ++ ")\n").toList = _
      simp only [String.toList_append, hlead, hend, List.append_assoc, List.cons_append]
    rw [htext, inert_comment_iff (by decide +kernel)]
    rfl
  | removed name =>
    have htext : (Report.removed name).text.toList =
        '#' :: " pm: removed project ".toList ++ name.toList ++ ['\n'] := by
      have hlead : "# pm: removed project ".toList = '#' :: " pm: removed project ".toList := by
        decide +kernel
      have hend : "\n".toList = ['\n'] := by decide +kernel
      change ("# pm: removed project " ++ name ++ "\n").toList = _
      simp only [String.toList_append, hlead, hend]
    rw [htext, inert_comment_iff (by decide +kernel)]
    rfl
  | listed ps => exact inert_listings_iff ps

/-- **Reports run nothing unless what they name does.** A session that names no project writes
nothing if it fails, and otherwise one report, whose lines are all empty or comments exactly if it
lists no project and what it names puts no line of its own into it that is neither. -/
theorem reports_inert_iff_harmless (host : Host) (s : Session) (words : List String) (w : World)
    (h : ∀ word ∈ words.head?, word ∈ commands) :
    (∀ e w', (s.dispatch host words).outcome w = (.error e, w') → w'.output = w.output) ∧
      (∀ w', (s.dispatch host words).outcome w = (.ok (), w') ↔
        ∃ r w₁, Reported host s w words r w₁ ∧
          w' = { w₁ with output := w₁.output ++ r.text }) ∧
        ∀ r : Report, Inert r.text.toList ↔ r.Harmless :=
  ⟨fun e w' => writesLast_dispatch host s words w w' e, fun _ => outcome_dispatch_iff h,
    inert_text_iff⟩

end

namespace Sample

open Registry.Sample

def keeper : Session := ⟨Registry.Sample.home, "bash", "/pm/plugins"⟩

/-- The world after a command. -/
def afterCommand (w : World) (words : List String) : World :=
  ((keeper.dispatch host words).outcome w).2

/-- Adding a project is reported by a comment, and a command without its operand writes nothing. -/
theorem report_of_sample :
    (∀ word ∈ ["add", "a.yml"].head?, word ∈ commands) ∧
      (keeper.dispatch host ["add", "a.yml"]).outcome start =
        (.ok (), { added with output := added.output ++ (Report.added project).text }) ∧
      (Report.added project).text = "# pm: added project a (/src)\n" ∧
      Inert (Report.added project).text.toList ∧
      (∀ word ∈ ["add"].head?, word ∈ commands) ∧
      (keeper.dispatch host ["add"]).outcome start =
        (.error (.commandLine .missingOperand), afterCommand start ["add"]) ∧
      (afterCommand start ["add"]).output = "" := by
  have hwords : ∀ word ∈ ["add", "a.yml"].head?, word ∈ commands := by decide
  obtain ⟨-, hiff, hinert⟩ := reports_inert_iff_harmless host keeper ["add", "a.yml"] start hwords
  have hadd : (Registry.add host keeper.home "a.yml").outcome start = (.ok project, added) :=
    Prod.ext (eq_ok (by decide +kernel)) rfl
  have hreport : Reported host keeper start ["add", "a.yml"] (.added project) added :=
    .added (eq_ok (by decide +kernel)) hadd
  have hharmless : (Report.added project).Harmless := tame_of_not_mem (by decide +kernel)
  have hnone : (keeper.dispatch host ["add"]).outcome start =
      (.error (.commandLine .missingOperand), afterCommand start ["add"]) :=
    Prod.ext (eq_error (by decide +kernel)) rfl
  have hword : ∀ word ∈ ["add"].head?, word ∈ commands := by decide
  have hsilent := (reports_inert_iff_harmless host keeper ["add"] start hword).1 _ _ hnone
  exact ⟨hwords, (hiff _).2 ⟨_, _, hreport, rfl⟩, by decide +kernel,
    (hinert _).2 hharmless, hword, hnone, hsilent⟩

/-- A registry with one project, and a project file whose name goes over two lines. -/
def occupied : World where
  files := ((FileSystem.empty.set ["pm".toList] (some .directory)).set
    ["pm".toList, "registry.yml".toList]
    (some (.file (.text "projects:\n- name: x\n  meta: /m.yml\n  root: /r\n") false))).set
    ["b.yml".toList] (some (.file (.text "info:\n  name: \"b\\nls\"\n  root: src\n") false))
  notices := []
  output := ""

/-- The list of the projects has lines for a shell to run, and so has the report about a project
with such a name. -/
theorem reports_not_inert :
    ((keeper.dispatch host ["ls"]).outcome occupied).1 = .ok () ∧
      (afterCommand occupied ["ls"]).output = "# pm: projects\n\n- x\n  meta: /m.yml\n  root: /r\n" ∧
      ¬Inert (afterCommand occupied ["ls"]).output.toList ∧
      ((keeper.dispatch host ["add", "/b.yml"]).outcome occupied).1 = .ok () ∧
      (afterCommand occupied ["add", "/b.yml"]).output = "# pm: added project b\nls (/src)\n" ∧
      ¬Inert (afterCommand occupied ["add", "/b.yml"]).output.toList := by
  have hlist : (afterCommand occupied ["ls"]).output =
      "# pm: projects\n\n- x\n  meta: /m.yml\n  root: /r\n" := by
    decide +kernel
  have hadd : (afterCommand occupied ["add", "/b.yml"]).output =
      "# pm: added project b\nls (/src)\n" := by
    decide +kernel
  refine ⟨eq_ok (by decide +kernel), hlist, ?_, eq_ok (by decide +kernel), hadd, ?_⟩
  · rw [hlist]
    decide +kernel
  · rw [hadd]
    decide +kernel

end Sample

end Session

end ProjectScript
