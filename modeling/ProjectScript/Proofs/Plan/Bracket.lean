import ProjectScript.Plan.Document
import ProjectScript.Proofs.Dialect.Reading
import ProjectScript.Proofs.Plan.Sequence

/-!
# Plans enter their root and leave it

A plan that is built for an invocation enters the root, prints texts and runs lines, and leaves the
root (`Plan.isInner_body`): no command of a project, and no text that is put into one, makes a step
that enters or leaves a directory, or one that runs a blank line.

A script adds a statement of its own that enters the root, and one that leaves it. Among the lines
that it does not take over from a project, as many enter a directory as leave one, and at no line
have more left than entered (`Dialect.Balanced`): this is so of lines that do neither
(`balanced_of_still`), of balanced lines behind one another (`Balanced.append`), and of balanced
lines between one that enters a directory and one that leaves it (`Balanced.wrap`).
-/

namespace ProjectScript

namespace Plan

/-- A step that prints a text, or runs a line that is not blank. -/
inductive IsInner : Step → Prop
  | say (text : String) : IsInner (.say text)
  | run {line : String} : Text.trim line ≠ "" → IsInner (.run line)

/-- The contribution has no other steps than those that print texts and run lines. -/
def Contribution.IsInner (c : Contribution) : Prop := ∀ step ∈ c.steps, Plan.IsInner step

theorem Contribution.isInner_concat {cs : List Contribution} (h : ∀ c ∈ cs, c.IsInner) :
    (concat cs).IsInner := by
  induction cs with
  | nil => exact List.forall_mem_nil _
  | cons c cs ih =>
    obtain ⟨hc, hcs⟩ := List.forall_mem_cons.1 h
    change (c ++ concat cs).IsInner
    intro step hstep
    rw [steps_append, List.mem_append] at hstep
    rcases hstep with hstep | hstep
    · exact hc step hstep
    · exact ih hcs step hstep

theorem isInner_of_mem_runUnlessBlank {line : String} :
    ∀ step ∈ runUnlessBlank line, IsInner step := by
  unfold runUnlessBlank
  split
  · exact List.forall_mem_nil _
  · rename_i hblank
    intro step hstep
    rw [List.mem_singleton.1 hstep]
    exact .run fun h => hblank ((Text.trim_eq_empty_iff line).1 h)

theorem isInner_of_mem_help (p : Project) : ∀ step ∈ help p, IsInner step := by
  intro step hstep
  simp only [help, List.cons_append, List.mem_cons, List.mem_append, List.mem_map,
    List.not_mem_nil, or_false] at hstep
  rcases hstep with rfl | ⟨entry, -, rfl⟩ | rfl
  · exact .say _
  · exact .say _
  · exact .say _

/-- The line that starts services names a program. -/
theorem trim_line_ne_empty (s : Services) (args : List String) :
    Text.trim (Compose.line s args) ≠ "" := by
  obtain ⟨rest, hline⟩ : ∃ rest, Compose.line s args = Quote.posix "docker" ++ rest := by
    refine ⟨" " ++ " ".intercalate ((Compose.words s args).tail.map Quote.posix), ?_⟩
    rw [← String.append_assoc]
    exact String.intercalate_cons_cons
  intro h
  have hblank := (Text.trim_eq_empty_iff _).1 h
  have hdocker : ¬(Quote.posix "docker").toList.all Text.isSpace = true := by decide +kernel
  rw [Text.isBlank, hline, String.toList_append, List.all_append, Bool.and_eq_true] at hblank
  exact hdocker hblank.1

theorem isInner_ofChunk (s : Template.Scope) (c : Chunk) : (ofChunk s c).IsInner := by
  unfold ofChunk
  split
  · exact isInner_of_mem_help s.project
  split
  · intro step hstep
    rw [List.mem_singleton.1 hstep]
    exact .run (trim_line_ne_empty _ _)
  split
  · intro step hstep
    rw [List.mem_singleton.1 hstep]
    exact .say _
  · apply Contribution.isInner_concat
    intro contribution hmem
    obtain ⟨line, -, rfl⟩ := List.mem_map.1 hmem
    exact isInner_of_mem_runUnlessBlank

/-- What is asked of a project neither enters nor leaves a directory. -/
theorem isInner_body (s : Template.Scope) (i : Invocation) : (body s i).IsInner := by
  cases i with
  | raw words => exact isInner_of_mem_runUnlessBlank
  | commands chunks =>
    apply Contribution.isInner_concat
    intro contribution hmem
    obtain ⟨chunk, -, rfl⟩ := List.mem_map.1 hmem
    exact isInner_ofChunk s chunk

end Plan

/-! ## The lines of a script -/

/-- A line of a script, which is the dialect's own or taken over from a step that runs it. -/
inductive ScriptLine
  | own (text : String)
  | taken (text : String)
  deriving DecidableEq, Repr

namespace ScriptLine

/-- The text of a line. -/
def text : ScriptLine → String
  | own text => text
  | taken text => text

end ScriptLine

namespace Dialect

variable (d : Dialect)

/-- The line of a step, with where it comes from. -/
def scriptLine : Step → ScriptLine
  | .run l => .taken l
  | step => .own (d.line step)

/-- The lines of a plan's script, with where they come from. -/
def scriptLines (p : Plan) : List ScriptLine :=
  (d.prologue p.root).map .own ++ p.steps.map d.scriptLine ++ d.epilogue.map .own

theorem text_scriptLine (step : Step) : (d.scriptLine step).text = d.line step := by
  cases step <;> rfl

theorem map_text_scriptLines (p : Plan) : (d.scriptLines p).map ScriptLine.text = d.lines p := by
  have hown : ∀ ls : List String, (ls.map ScriptLine.own).map ScriptLine.text = ls := by
    intro ls
    rw [List.map_map]
    exact List.map_id _
  have hsteps : (p.steps.map d.scriptLine).map ScriptLine.text = p.steps.map d.line := by
    rw [List.map_map]
    exact List.map_congr_left fun step _ => d.text_scriptLine step
  rw [scriptLines, List.map_append, List.map_append, hown, hown, hsteps, lines]

/-- The statement of a line of the dialect's own. -/
def ownStatement? : ScriptLine → Option Statement
  | .own text => d.statement? text
  | .taken _ => none

/-- The line is a statement of the dialect's own with the name of a command. -/
def calls (command : String) (l : ScriptLine) : Bool :=
  (d.ownStatement? l).any fun st => st.command = command

/-- The line enters a directory. -/
def isPush (l : ScriptLine) : Bool := d.calls (d.entering "").command l

/-- The line leaves a directory. -/
def isPop (l : ScriptLine) : Bool := d.calls d.leaving.command l

/-- At no line have more left a directory than entered one, and in the end as many have. -/
structure Balanced (ls : List ScriptLine) : Prop where
  prefixes (n : Nat) : (ls.take n).countP d.isPop ≤ (ls.take n).countP d.isPush
  total : ls.countP d.isPop = ls.countP d.isPush

variable {d} {ls ks : List ScriptLine}

theorem countP_of_still (h : ∀ l ∈ ls, d.isPush l = false ∧ d.isPop l = false) :
    ls.countP d.isPop = 0 ∧ ls.countP d.isPush = 0 := by
  refine ⟨List.countP_eq_zero.2 fun l hl => ?_, List.countP_eq_zero.2 fun l hl => ?_⟩
  · exact Bool.eq_false_iff.1 (h l hl).2
  · exact Bool.eq_false_iff.1 (h l hl).1

theorem balanced_of_still (h : ∀ l ∈ ls, d.isPush l = false ∧ d.isPop l = false) :
    d.Balanced ls where
  prefixes n := by
    rw [(countP_of_still fun l hl => h l (List.mem_of_mem_take hl)).1]
    exact Nat.zero_le _
  total := by
    obtain ⟨hpop, hpush⟩ := countP_of_still h
    rw [hpop, hpush]

theorem Balanced.append (h : d.Balanced ls) (h' : d.Balanced ks) : d.Balanced (ls ++ ks) where
  prefixes n := by
    rw [List.take_append, List.countP_append, List.countP_append]
    exact Nat.add_le_add (h.prefixes n) (h'.prefixes _)
  total := by
    rw [List.countP_append, List.countP_append, h.total, h'.total]

/-- A line has one name of a command. -/
theorem eq_of_calls {command command' : String} {l : ScriptLine} (h : d.calls command l = true)
    (h' : d.calls command' l = true) : command = command' := by
  unfold calls at h h'
  cases hst : d.ownStatement? l with
  | none =>
    rw [hst] at h
    cases h
  | some st =>
    rw [hst] at h h'
    exact (of_decide_eq_true h).symm.trans (of_decide_eq_true h')

/-- No line enters a directory and leaves one. -/
theorem not_isPush_and_isPop {l : ScriptLine} : ¬(d.isPush l = true ∧ d.isPop l = true) := by
  have hne : (d.entering "").command ≠ d.leaving.command := by cases d <;> decide
  exact fun h => hne (eq_of_calls h.1 h.2)

/-- Balanced lines between one that enters a directory and one that leaves it. -/
theorem Balanced.wrap {l l' : ScriptLine} (h : d.Balanced ls) (hl : d.isPush l = true)
    (hl' : d.isPop l' = true) : d.Balanced (l :: (ls ++ [l'])) where
  prefixes n := by
    cases n with
    | zero => exact Nat.le_refl 0
    | succ n =>
      have hnot : ¬d.isPop l = true := fun h => not_isPush_and_isPop ⟨hl, h⟩
      have hend : ([l'].take (n - ls.length)).countP d.isPop ≤ 1 :=
        Nat.le_trans List.countP_le_length (List.length_take_le' _ _)
      have hinner := h.prefixes n
      rw [List.take_succ_cons, List.take_append, List.countP_cons_of_pos hl,
        List.countP_cons_of_neg hnot, List.countP_append, List.countP_append]
      omega
  total := by
    have hnot : ¬d.isPop l = true := fun h => not_isPush_and_isPop ⟨hl, h⟩
    have hnot' : ¬d.isPush l' = true := fun h => not_isPush_and_isPop ⟨h, hl'⟩
    rw [List.countP_cons_of_pos hl, List.countP_cons_of_neg hnot, List.countP_append,
      List.countP_append, h.total, List.countP_singleton, List.countP_singleton, if_pos hl',
      if_neg hnot']

/-! ### What the lines do -/

variable (d)

theorem calls_of_statement {text command : String} {st : Statement}
    (h : d.statement? text = some st) :
    d.calls command (.own text) = decide (st.command = command) := by
  rw [calls, ownStatement?, h]
  rfl

theorem isPush_enter (dir : String) : d.isPush (.own (d.enter dir)) = true := by
  rw [isPush, d.calls_of_statement (d.statement?_enter dir)]
  apply decide_eq_true
  cases d <;> rfl

theorem isPop_leave : d.isPop (.own d.leave) = true := by
  rw [isPop, d.calls_of_statement d.statement?_leave]
  cases d <;> decide

theorem still_say (text : String) :
    d.isPush (.own (d.say text)) = false ∧ d.isPop (.own (d.say text)) = false := by
  have hcommand : (d.saying text).command = (d.saying "").command := by cases d <;> rfl
  rw [isPush, isPop, d.calls_of_statement (d.statement?_say text),
    d.calls_of_statement (d.statement?_say text), hcommand]
  cases d <;> decide

theorem still_begin :
    d.isPush (.own "# pm begin") = false ∧ d.isPop (.own "# pm begin") = false := by
  cases d <;> decide +kernel

theorem still_end : d.isPush (.own "# pm end") = false ∧ d.isPop (.own "# pm end") = false := by
  cases d <;> decide +kernel

/-- A step between entering and leaving the root does neither in a script. -/
theorem still_scriptLine {step : Step} (h : Plan.IsInner step) :
    d.isPush (d.scriptLine step) = false ∧ d.isPop (d.scriptLine step) = false := by
  cases h with
  | say text => exact d.still_say text
  | run => exact ⟨rfl, rfl⟩

theorem still_inner {inner : List Step} (h : ∀ step ∈ inner, Plan.IsInner step) :
    ∀ l ∈ inner.map d.scriptLine, d.isPush l = false ∧ d.isPop l = false := by
  intro l hl
  obtain ⟨step, hstep, rfl⟩ := List.mem_map.1 hl
  exact d.still_scriptLine (h step hstep)

section

variable {p : Plan} {root : String} {inner : List Step}
  (hp : p.steps = .enter root :: (inner ++ [.leave])) (h : ∀ step ∈ inner, Plan.IsInner step)

include hp

/-- The script of a plan that enters a directory first and leaves it last. -/
theorem scriptLines_eq :
    d.scriptLines p = [.own "# pm begin"] ++
      (.own (d.enter p.root) :: (.own (d.enter root) ::
        (inner.map d.scriptLine ++ [.own d.leave]) ++ [.own d.leave])) ++ [.own "# pm end"] := by
  rw [scriptLines, hp, List.map_cons, List.map_append]
  simp only [prologue, epilogue, List.map_cons, List.map_nil, List.cons_append, List.nil_append,
    List.append_assoc]
  rfl

include h

theorem balanced_scriptLines : d.Balanced (d.scriptLines p) := by
  have hinner := balanced_of_still (d.still_inner h)
  have hsteps := hinner.wrap (d.isPush_enter root) d.isPop_leave
  have hscript := hsteps.wrap (d.isPush_enter p.root) d.isPop_leave
  have hbegin : d.Balanced [.own "# pm begin"] :=
    balanced_of_still (List.forall_mem_singleton.2 d.still_begin)
  have hend : d.Balanced [.own "# pm end"] :=
    balanced_of_still (List.forall_mem_singleton.2 d.still_end)
  rw [d.scriptLines_eq hp]
  exact (hbegin.append hscript).append hend

/-- The script enters the root once for itself and once for the plan. -/
theorem countP_isPush_scriptLines : (d.scriptLines p).countP d.isPush = 2 := by
  have hleave : d.isPush (.own d.leave) = false :=
    Bool.eq_false_iff.2 fun hpush => not_isPush_and_isPop ⟨hpush, d.isPop_leave⟩
  have hinner := (countP_of_still (d.still_inner h)).2
  rw [d.scriptLines_eq hp]
  simp only [List.countP_append, List.countP_cons, List.countP_nil, hinner, d.isPush_enter, hleave,
    d.still_begin.1, d.still_end.1, List.cons_append]
  decide

end

end Dialect

namespace Plan

/-- **Plans are bracketed.** The plan of an invocation enters the root first and leaves it last; in
between it prints texts and runs lines that are not blank. So this is its root, also in its
document, and among the lines that a script does not take over from the project two enter a
directory and two leave one, and at no line have more left than entered. -/
theorem build_bracketed (s : Template.Scope) (root : String) (i : Invocation) :
    (∃ inner, (build s root i).plan.steps = .enter root :: (inner ++ [.leave]) ∧
        ∀ step ∈ inner, IsInner step) ∧
      (build s root i).plan.root = root ∧
      (Document.ofPlan (build s root i).plan).root = root ∧
      ∀ d : Dialect,
        (d.scriptLines (build s root i).plan).map ScriptLine.text =
            d.lines (build s root i).plan ∧
          d.Balanced (d.scriptLines (build s root i).plan) ∧
          (d.scriptLines (build s root i).plan).countP d.isPush = 2 := by
  have hsteps := steps_build s root i
  have hinner := isInner_body s i
  refine ⟨⟨_, hsteps, hinner⟩, root_build s root i, root_build s root i, fun d => ?_⟩
  exact ⟨d.map_text_scriptLines _, d.balanced_scriptLines hsteps hinner,
    d.countP_isPush_scriptLines hsteps hinner⟩

theorem build_bracketed_workshop :
    ∃ inner, (ofWords workshop "/proj" [":build", "-q", ":help"]).plan.steps =
        .enter "/proj" :: (inner ++ [.leave]) ∧
      Step.run "mvn package -q" ∈ inner ∧ Text.trim "mvn package -q" ≠ "" ∧
      Dialect.posix.Balanced
        (Dialect.posix.scriptLines (ofWords workshop "/proj" [":build", "-q", ":help"]).plan) := by
  obtain ⟨⟨inner, hsteps, hinner⟩, -, -, hscript⟩ :=
    build_bracketed workshop "/proj" (.ofWords [":build", "-q", ":help"])
  have hmem : Step.run "mvn package -q" ∈ inner := by
    have hplan : Step.run "mvn package -q" ∈
        (build workshop "/proj" (.ofWords [":build", "-q", ":help"])).plan.steps := by
      decide +kernel
    rw [hsteps] at hplan
    simpa using hplan
  refine ⟨inner, hsteps, hmem, ?_, (hscript .posix).2.1⟩
  cases hinner _ hmem with
  | run hline => exact hline

end Plan

end ProjectScript
