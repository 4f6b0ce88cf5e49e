import ProjectScript.Dialect
import ProjectScript.Plan.Build

/-!
# Sequences of commands

Commands that stand one after the other are read (`Invocation.ofWords_append`), planned
(`Plan.body_commands_append`) and written (`Dialect.innerLines_build`) each on its own: nothing is
carried over from one command to the next one. What is asked of the words that are put together is
that they open with a command, so that no word of the second part becomes an argument of the first
one.
-/

namespace ProjectScript

namespace Invocation

/-- The words open with a command. -/
def OpensCommand (words : List String) : Prop :=
  ∃ word, words.head? = some word ∧ word.toList.head? = some ':'

/-- A word names a command exactly when it starts with a colon. -/
theorem commandName?_isSome_iff {word : String} :
    (commandName? word).isSome ↔ word.toList.head? = some ':' := by
  rw [commandName?]
  split
  · rename_i h
    simp [h]
  · rename_i h
    simp only [Option.isSome_none, Bool.false_eq_true, false_iff]
    intro hc
    obtain ⟨name, hn⟩ := List.head?_eq_some_iff.1 hc
    exact h name hn

theorem OpensCommand.exists_eq_cons {words : List String} (h : OpensCommand words) :
    ∃ word name rest, words = word :: rest ∧ commandName? word = some name := by
  obtain ⟨word, hw, hc⟩ := h
  obtain ⟨rest, rfl⟩ := List.head?_eq_some_iff.1 hw
  obtain ⟨name, hn⟩ := Option.isSome_iff_exists.1 (commandName?_isSome_iff.2 hc)
  exact ⟨word, name, rest, rfl, hn⟩

/-- Nothing stands before the first command. -/
theorem OpensCommand.group_fst {words : List String} (h : OpensCommand words) :
    (group words).1 = [] := by
  obtain ⟨word, name, rest, rfl, hn⟩ := h.exists_eq_cons
  rw [group, hn]

theorem OpensCommand.ofWords {words : List String} (h : OpensCommand words) :
    ofWords words = commands (group words).2 := by
  obtain ⟨word, name, rest, rfl, hn⟩ := h.exists_eq_cons
  rw [Invocation.ofWords, hn]

theorem OpensCommand.append {a : List String} (h : OpensCommand a) (b : List String) :
    OpensCommand (a ++ b) := by
  obtain ⟨word, hw, hc⟩ := h
  exact ⟨word, by rw [List.head?_append, hw]; rfl, hc⟩

theorem group_append {b : List String} (hb : OpensCommand b) (a : List String) :
    group (a ++ b) = ((group a).1, (group a).2 ++ (group b).2) := by
  induction a with
  | nil =>
    rw [List.nil_append, group, ← hb.group_fst]
    rfl
  | cons word a ih =>
    rw [List.cons_append, group, group, ih]
    cases commandName? word <;> rfl

/-- The words are those of a sequence of commands. -/
theorem ofWords_of_opens {words : List String} (h : words = [] ∨ OpensCommand words) :
    ofWords words = commands (group words).2 := by
  rcases h with rfl | h
  · rfl
  · exact h.ofWords

/-- The commands of words put together are those of the first part and those of the second one. -/
theorem ofWords_append {a b : List String} (ha : a = [] ∨ OpensCommand a) (hb : OpensCommand b) :
    ofWords (a ++ b) = commands ((group a).2 ++ (group b).2) := by
  have hab : OpensCommand (a ++ b) := by
    rcases ha with rfl | ha
    · exact hb
    · exact ha.append b
  rw [hab.ofWords, group_append hb]

end Invocation

namespace Plan

namespace Contribution

variable (a b c : Contribution)

@[simp] theorem steps_append : (a ++ b).steps = a.steps ++ b.steps := rfl

@[simp] theorem misses_append : (a ++ b).misses = a.misses ++ b.misses := rfl

@[simp] theorem notices_append : (a ++ b).notices = a.notices ++ b.notices := rfl

theorem append_assoc : a ++ b ++ c = a ++ (b ++ c) := by
  change Contribution.mk _ _ _ = Contribution.mk _ _ _
  simp only [steps_append, misses_append, notices_append, List.append_assoc]

theorem nothing_append : nothing ++ a = a := rfl

theorem concat_append (xs ys : List Contribution) :
    concat (xs ++ ys) = concat xs ++ concat ys := by
  induction xs with
  | nil => exact (nothing_append _).symm
  | cons x xs ih =>
    calc concat (x :: xs ++ ys) = x ++ concat (xs ++ ys) := rfl
      _ = x ++ (concat xs ++ concat ys) := by rw [ih]
      _ = concat (x :: xs) ++ concat ys := (append_assoc _ _ _).symm

end Contribution

/-- The steps of a plan without the first and the last one. -/
def inner (p : Plan) : List Step := p.steps.tail.dropLast

variable (s : Template.Scope) (root : String)

/-- What commands contribute one after the other. -/
theorem body_commands_append (xs ys : List Chunk) :
    body s (.commands (xs ++ ys)) = body s (.commands xs) ++ body s (.commands ys) := by
  rw [body, List.map_append, Contribution.concat_append]
  rfl

variable (i : Invocation)

theorem steps_build : (build s root i).steps = .enter root :: ((body s i).steps ++ [.leave]) := rfl

theorem misses_build : (build s root i).misses = (body s i).misses :=
  (List.append_nil _).trans (List.nil_append _)

theorem notices_build : (build s root i).notices = (body s i).notices :=
  (List.append_nil _).trans (List.nil_append _)

/-- The steps between entering and leaving the root are those of the body. -/
theorem inner_build : (build s root i).plan.inner = (body s i).steps := by
  rw [inner, Contribution.plan, steps_build, List.tail_cons, List.dropLast_concat]

theorem root_build : (build s root i).plan.root = root := rfl

end Plan

namespace Dialect

variable (d : Dialect)

/-- The lines that open a script and enter its root. -/
def opening (root : String) : List String := d.prologue root ++ [d.enter root]

/-- The lines that leave the root and close the script. -/
def closing : List String := d.leave :: d.epilogue

/-- The lines of a script between those of its opening and those of its closing. -/
def innerLines (p : Plan) : List String :=
  ((d.lines p).take ((d.lines p).length - d.closing.length)).drop (d.opening p.root).length

/-- Lines as a text, each with a line feed behind it. -/
def text (ls : List String) : String := String.join (ls.map (· ++ "\n"))

theorem text_cons (l : String) (ls : List String) : text (l :: ls) = l ++ "\n" ++ text ls := by
  rw [text, List.map_cons, String.join_cons]
  rfl

theorem text_append (xs ys : List String) : text (xs ++ ys) = text xs ++ text ys := by
  rw [text, List.map_append, String.join_append]
  rfl

/-- Lines with a line feed between each two and one at the end. -/
theorem intercalate_append_lineFeed (l : String) (ls : List String) :
    "\n".intercalate (l :: ls) ++ "\n" = text (l :: ls) := by
  induction ls generalizing l with
  | nil => simp [text]
  | cons l' ls ih =>
    rw [text_cons, ← ih, String.intercalate_cons_cons]
    simp only [String.append_assoc]

variable (s : Template.Scope) (root : String) (i : Invocation)

theorem lines_build :
    d.lines (Plan.build s root i).plan =
      d.opening root ++ (Plan.body s i).steps.map d.line ++ d.closing := by
  rw [lines, Plan.root_build, Plan.Contribution.plan, Plan.steps_build, opening, closing,
    List.map_cons, List.map_append]
  simp only [List.append_assoc, List.cons_append, List.nil_append, List.map_cons, List.map_nil]
  rfl

/-- The lines between the opening and the closing are those of the steps of the body. -/
theorem innerLines_build :
    d.innerLines (Plan.build s root i).plan = (Plan.body s i).steps.map d.line := by
  rw [innerLines, lines_build, Plan.root_build, List.length_append, Nat.add_sub_cancel,
    List.take_left, List.drop_left]

theorem script_build :
    d.script (Plan.build s root i).plan =
      text (d.opening root) ++ text (d.innerLines (Plan.build s root i).plan) ++
        text d.closing := by
  rw [innerLines_build, ← text_append, ← text_append, ← lines_build, script]
  exact intercalate_append_lineFeed _ _

end Dialect

namespace Plan

variable {s : Template.Scope} {root : String} {a b : List String}

/-- What words contribute, with entering and leaving the root. -/
def ofWords (s : Template.Scope) (root : String) (words : List String) : Contribution :=
  build s root (.ofWords words)

/-- **Command sequences compose.** The words of two sequences put together are read as the commands
of the first one and those of the second one; between entering and leaving the root the plan has
the steps of both, and the script the lines of both; misses and notices follow one another. -/
theorem commands_compose (ha : a = [] ∨ Invocation.OpensCommand a)
    (hb : Invocation.OpensCommand b) :
    (∃ xs ys, Invocation.ofWords a = .commands xs ∧ Invocation.ofWords b = .commands ys ∧
        Invocation.ofWords (a ++ b) = .commands (xs ++ ys)) ∧
      (ofWords s root (a ++ b)).steps =
        [.enter root] ++ (ofWords s root a).plan.inner ++ (ofWords s root b).plan.inner ++
          [.leave] ∧
      (ofWords s root (a ++ b)).misses = (ofWords s root a).misses ++ (ofWords s root b).misses ∧
      (ofWords s root (a ++ b)).notices =
        (ofWords s root a).notices ++ (ofWords s root b).notices ∧
      ∀ d : Dialect,
        d.innerLines (ofWords s root (a ++ b)).plan =
            d.innerLines (ofWords s root a).plan ++ d.innerLines (ofWords s root b).plan ∧
          ∀ words, d.script (ofWords s root words).plan =
            Dialect.text (d.opening root) ++
              Dialect.text (d.innerLines (ofWords s root words).plan) ++
              Dialect.text d.closing := by
  have hbody : body s (.ofWords (a ++ b)) = body s (.ofWords a) ++ body s (.ofWords b) := by
    rw [Invocation.ofWords_append ha hb, body_commands_append,
      Invocation.ofWords_of_opens ha, hb.ofWords]
  refine ⟨?_, ?_, ?_, ?_, fun d => ⟨?_, fun words => ?_⟩⟩
  · exact ⟨_, _, Invocation.ofWords_of_opens ha, hb.ofWords, Invocation.ofWords_append ha hb⟩
  · simp only [ofWords, steps_build, inner_build, hbody, Contribution.steps_append,
      List.cons_append, List.nil_append, List.append_assoc]
  · simp only [ofWords, misses_build, hbody, Contribution.misses_append]
  · simp only [ofWords, notices_build, hbody, Contribution.notices_append]
  · simp only [ofWords, Dialect.innerLines_build, hbody, Contribution.steps_append,
      List.map_append]
  · exact d.script_build s root (.ofWords words)

/-- A project with a command of two lines, one of which calls a function. -/
def workshop : Template.Scope where
  env _ := none
  project :=
    { functions := .ofList
        [("use", { params := .ofList [("version", { required := true })],
                   script := ["sdk use java @\x7bversion\x7d"] })],
      commands := .ofList
        [("build", { script := ["_\x7buse(version=21)\x7d", "mvn package @\x7bargs\x7d"] }),
         ("run", { script := ["java @\x7bmain\x7d"] })] }
  globals := {}

theorem commands_compose_workshop :
    Invocation.OpensCommand [":build", "-q"] ∧ Invocation.OpensCommand [":what", ":run"] ∧
      (ofWords workshop "/proj" [":build", "-q", ":what", ":run"]).steps =
        [.enter "/proj", .run "sdk use java 21", .run "mvn package -q",
          .say "# pm: unknown command :what", .run "java ", .leave] ∧
      (ofWords workshop "/proj" [":build", "-q", ":what", ":run"]).misses =
        [.absentParameter "main"] := by
  have ha : Invocation.OpensCommand [":build", "-q"] := ⟨":build", rfl, by decide⟩
  have hb : Invocation.OpensCommand [":what", ":run"] := ⟨":what", rfl, by decide⟩
  obtain ⟨-, hsteps, hmisses, -, -⟩ :=
    @commands_compose workshop "/proj" _ _ (.inr ha) hb
  exact ⟨ha, hb, hsteps.trans (by decide +kernel), hmisses.trans (by decide +kernel)⟩

end Plan

end ProjectScript
