import ProjectScript.Proofs.Plan.BlankLines
import ProjectScript.Proofs.Plan.Words

/-!
# Commands that are listed and commands that run

The listing of a project's commands walks through the table of commands, and a command that is
asked for is looked up in it. The listing has one line for each command, in the order of the names
(`listing_eq`), so a name has its line in it exactly if it is bound (`lists_iff`). A name that is
bound runs the lines of its command, with the arguments put in (`steps_ofCommand_of_get?`), and any
other one gives a notice (`steps_ofCommand_of_unknown`).

The look-up stands behind the names that are built in, the listing does not: a command of the
project with the name `help` or `up` has its line too, and what runs is the one that is built in
(`shadowed_not_run`). For all other names the two agree (`listed_iff_runs`).
-/

namespace ProjectScript.Plan

open Template

section

variable (s : Scope) (root name : String) (args : List String)

/-- The plan of a command that is asked for by its name, with arguments. -/
def ofCommand : Contribution := ofWords s root ((":" ++ name) :: args)

/-- The lines of the listing, between its heading and its last line. -/
def listing : List Step := (ofCommand s root "help" []).plan.inner.tail.dropLast

/-- The listing has the line of a command of this name, at the place of the name in the order of
the names. -/
def Lists : Prop :=
  ∃ (i : Nat) (command : Command), s.project.commands.entries[i]? = some (name, command) ∧
    (listing s root)[i]? = some (.say (helpLine name command))

/-- The plan runs the lines of the project's own command and nothing else: those that are not blank,
once they are expanded with the arguments as the parameter `args`. -/
def RunsOwn : Prop :=
  ∃ command, s.project.commands.get? name = some command ∧
    (ofCommand s root name args).steps =
      [.enter root] ++
        (((command.script.map fun line =>
            (render s [] (Table.empty.insert "args" (" ".intercalate args)) line).text).filter
          isNonblank).map fun text => .run (String.ofList text)) ++
        [.leave]

end

section

variable {s : Scope} {root name : String} {args : List String}

/-! ## What runs -/

/-- A command with its arguments adds nothing else to the plan. -/
theorem steps_ofCommand (h : ∀ arg ∈ args, Invocation.IsArgument arg) :
    (ofCommand s root name args).steps =
      [.enter root] ++ (ofChunk s ⟨name, args⟩).steps ++ [.leave] := by
  have hwords : Invocation.ofWords ((":" ++ name) :: args) = .commands [⟨name, args⟩] := by
    have hread : Invocation.ofWords ([⟨name, args⟩].flatMap Invocation.chunkWords) =
        .commands [⟨name, args⟩] := Invocation.ofWords_flatMap (List.forall_mem_singleton.2 h)
    rwa [List.flatMap_singleton] at hread
  have hbody : (body s (.commands [⟨name, args⟩])).steps = (ofChunk s ⟨name, args⟩).steps := by
    rw [body, steps_concat, List.map_singleton, List.flatMap_singleton]
  rw [ofCommand, ofWords, hwords, steps_build, hbody]
  rfl

theorem steps_ofCommand_help (h : ∀ arg ∈ args, Invocation.IsArgument arg) :
    (ofCommand s root "help" args).steps = [.enter root] ++ help s.project ++ [.leave] := by
  rw [steps_ofCommand h, ofChunk, if_pos rfl]
  rfl

theorem steps_ofCommand_up (h : ∀ arg ∈ args, Invocation.IsArgument arg) :
    (ofCommand s root "up" args).steps =
      [.enter root, .run (Compose.line s.project.services args), .leave] := by
  have hne : "up" ≠ "help" := by decide
  rw [steps_ofCommand h, ofChunk, if_neg hne, if_pos rfl]
  rfl

variable (hhelp : name ≠ "help") (hup : name ≠ "up")

include hhelp hup

theorem steps_ofCommand_of_unknown (h : ∀ arg ∈ args, Invocation.IsArgument arg)
    (hname : s.project.commands.get? name = none) :
    (ofCommand s root name args).steps =
      [.enter root, .say ("# pm: unknown command :" ++ name), .leave] := by
  rw [steps_ofCommand h, ofChunk, if_neg hhelp, if_neg hup, hname]
  rfl

theorem steps_ofCommand_of_get? (h : ∀ arg ∈ args, Invocation.IsArgument arg) {command : Command}
    (hname : s.project.commands.get? name = some command) : RunsOwn s root name args := by
  refine ⟨command, hname, ?_⟩
  rw [steps_ofCommand h, steps_ofChunk_of_command s hhelp hup hname]
  rfl

omit hhelp hup

/-! ## What is listed -/

theorem inner_help : (ofCommand s root "help" []).plan.inner = help s.project := by
  rw [inner, Contribution.plan, steps_ofCommand_help (List.forall_mem_nil _), List.append_assoc,
    List.singleton_append, List.tail_cons, List.dropLast_concat]

/-- The listing has one line for each command, in the order of the names. -/
theorem listing_eq :
    listing s root = s.project.commands.entries.map fun e => .say (helpLine e.1 e.2) := by
  rw [listing, inner_help, help, List.cons_append, List.tail_cons, List.dropLast_concat]

theorem steps_listing :
    (ofCommand s root "help" []).steps =
      [.enter root, .say "# pm: project commands:"] ++ listing s root ++
        [.say "# pm: built-ins: :up (docker compose up -d ...)", .leave] := by
  rw [steps_ofCommand_help (List.forall_mem_nil _), listing_eq, help]
  simp only [List.cons_append, List.nil_append, List.append_assoc]

theorem lists_iff : Lists s root name ↔ ∃ command, s.project.commands.get? name = some command := by
  constructor
  · rintro ⟨i, command, hentry, -⟩
    exact ⟨command, Table.get?_of_mem (List.mem_of_getElem? hentry)⟩
  · rintro ⟨command, hname⟩
    obtain ⟨i, hentry⟩ := List.mem_iff_getElem?.1 (Table.mem_of_get? hname)
    refine ⟨i, command, hentry, ?_⟩
    rw [listing_eq, List.getElem?_map, hentry, Option.map_some]

end

/-- **Listing and running agree**, but for the names that are built in. The listing has one line for
each command of the project, in the order of the names. A name other than `help` and `up` is listed
exactly if asking for it, with any arguments, runs the lines of the project's own command with these
arguments and nothing else. A name that is not listed gives the notice about an unknown command, or
is built in. The commands that are built in run under their names, whatever is listed. -/
theorem listed_iff_runs (s : Scope) (root : String) :
    ((ofCommand s root "help" []).steps =
        [.enter root, .say "# pm: project commands:"] ++ listing s root ++
          [.say "# pm: built-ins: :up (docker compose up -d ...)", .leave] ∧
      listing s root = s.project.commands.entries.map (fun e => .say (helpLine e.1 e.2)) ∧
      s.project.commands.keys.Pairwise (· < ·)) ∧
      ∀ name args, (∀ arg ∈ args, Invocation.IsArgument arg) →
        (name ≠ "help" → name ≠ "up" → (Lists s root name ↔ RunsOwn s root name args)) ∧
        (¬Lists s root name →
          (ofCommand s root name args).steps =
              [.enter root, .say ("# pm: unknown command :" ++ name), .leave] ∨
            name = "help" ∨ name = "up") ∧
        (name = "help" →
          (ofCommand s root name args).steps = (ofCommand s root "help" []).steps) ∧
        (name = "up" →
          (ofCommand s root name args).steps =
            [.enter root, .run (Compose.line s.project.services args), .leave]) := by
  refine ⟨⟨steps_listing, listing_eq, List.pairwise_map.2 s.project.commands.sorted⟩, ?_⟩
  intro name args hargs
  refine ⟨fun hhelp hup => ?_, fun hlists => ?_, ?_, ?_⟩
  · rw [lists_iff]
    constructor
    · rintro ⟨command, hname⟩
      exact steps_ofCommand_of_get? hhelp hup hargs hname
    · rintro ⟨command, hname, -⟩
      exact ⟨command, hname⟩
  · by_cases hhelp : name = "help"
    · exact .inr (.inl hhelp)
    by_cases hup : name = "up"
    · exact .inr (.inr hup)
    have hname : s.project.commands.get? name = none :=
      Option.eq_none_iff_forall_ne_some.2 fun command h => hlists (lists_iff.2 ⟨command, h⟩)
    exact .inl (steps_ofCommand_of_unknown hhelp hup hargs hname)
  · rintro rfl
    rw [steps_ofCommand_help hargs, steps_ofCommand_help (List.forall_mem_nil _)]
  · rintro rfl
    exact steps_ofCommand_up hargs

theorem listed_iff_runs_workshop :
    (∀ arg ∈ ["-q", "a:b"], Invocation.IsArgument arg) ∧ "build" ≠ "help" ∧ "build" ≠ "up" ∧
      Lists workshop "/proj" "build" ∧ RunsOwn workshop "/proj" "build" ["-q", "a:b"] ∧
      (∀ arg ∈ [], Invocation.IsArgument arg) ∧ ¬Lists workshop "/proj" "what" ∧
      (ofCommand workshop "/proj" "what" []).steps =
        [.enter "/proj", .say "# pm: unknown command :what", .leave] := by
  have hargs : ∀ arg ∈ ["-q", "a:b"], Invocation.IsArgument arg := by decide +kernel
  have hbuild : Lists workshop "/proj" "build" :=
    lists_iff.2 (Option.isSome_iff_exists.1 (by decide +kernel))
  have hwhat : ¬Lists workshop "/proj" "what" := by
    rw [lists_iff, ← Option.isSome_iff_exists]
    decide +kernel
  obtain ⟨-, hagree⟩ := listed_iff_runs workshop "/proj"
  have hruns := ((hagree "build" _ hargs).1 (by decide) (by decide)).1 hbuild
  have hnotice := (hagree "what" [] (List.forall_mem_nil _)).2.1 hwhat
  exact ⟨hargs, by decide, by decide, hbuild, hruns, List.forall_mem_nil _, hwhat,
    hnotice.resolve_right (by decide)⟩

/-- A project with commands that have the names of those that are built in. -/
def shadowed : Scope where
  env _ := none
  project :=
    { commands := .ofList
        [("help", { script := ["man x"] }), ("up", { script := ["vagrant up"] })] }
  globals := {}

/-- The listing has the lines of both commands, and neither runs. -/
theorem shadowed_not_run :
    Lists shadowed "/p" "up" ∧ ¬RunsOwn shadowed "/p" "up" [] ∧
      Lists shadowed "/p" "help" ∧ ¬RunsOwn shadowed "/p" "help" [] ∧
      (ofWords shadowed "/p" [":help", ":up"]).steps =
        [.enter "/p", .say "# pm: project commands:", .say "  :help  - -", .say "  :up  - -",
          .say "# pm: built-ins: :up (docker compose up -d ...)",
          .run "docker compose -f docker-compose.yml up -d", .leave] := by
  have hup : shadowed.project.commands.get? "up" = some { script := ["vagrant up"] } := by
    decide +kernel
  have hhelp : shadowed.project.commands.get? "help" = some { script := ["man x"] } := by
    decide +kernel
  refine ⟨lists_iff.2 ⟨_, hup⟩, ?_, lists_iff.2 ⟨_, hhelp⟩, ?_, by decide +kernel⟩
  · rintro ⟨command, hcommand, hsteps⟩
    obtain rfl := Option.some.inj (hup.symm.trans hcommand)
    revert hsteps
    decide +kernel
  · rintro ⟨command, hcommand, hsteps⟩
    obtain rfl := Option.some.inj (hhelp.symm.trans hcommand)
    revert hsteps
    decide +kernel

end ProjectScript.Plan
