import ProjectScript.Plan.Build
import ProjectScript.Proofs.Template.WholeCall

/-!
# Lines that expand to nothing

A reference that resolves to nothing may leave a line without a character that is not blank. A
command leaves such lines out (`steps_ofChunk_of_command`). The lines of a function are chained by an
operator of the shell, and there a blank line stays as an operand that is missing
(`chain_lacks_operand`): the chain is that of the lines which are not blank exactly if no line is
blank, or the only one is empty (`chain_of_nonblank_iff`).

A chain that skips a line is shorter, since it lacks an operator at least
(`length_flatMap_filter_add_countP_le`).
-/

namespace ProjectScript.Plan

open Template

/-! ## Chains of texts -/

section

variable {α : Type} {sep : List α}

/-- With one more separator at the end, a chain has a separator behind each of its texts. -/
theorem intercalate_append (sep l : List α) (ls : List (List α)) :
    sep.intercalate (l :: ls) ++ sep = (l :: ls).flatMap (· ++ sep) := by
  induction ls generalizing l with
  | nil => simp [List.intercalate]
  | cons l' ls ih =>
    have hcons : sep.intercalate (l :: l' :: ls) = l ++ sep ++ sep.intercalate (l' :: ls) := by
      simp [List.intercalate]
    rw [hcons, List.append_assoc, ih l', List.flatMap_cons (x := l)]

/-- Where each part has a length, each part that is left out makes the whole shorter. -/
theorem length_flatMap_filter_add_countP_le {f : List α → List α} (hf : ∀ l, f l ≠ [])
    (p : List α → Bool) (ls : List (List α)) :
    ((ls.filter p).flatMap f).length + ls.countP (fun l => !p l) ≤ (ls.flatMap f).length := by
  induction ls with
  | nil => simp
  | cons l ls ih =>
    have hl := List.length_pos_iff.2 (hf l)
    cases hp : p l with
    | true =>
      rw [List.filter_cons_of_pos hp, List.countP_cons_of_neg (by simp [hp])]
      simp only [List.flatMap_cons, List.length_append]
      omega
    | false =>
      rw [List.filter_cons_of_neg (by simp [hp]), List.countP_cons_of_pos (by simp [hp])]
      simp only [List.flatMap_cons, List.length_append]
      omega

theorem intercalate_eq_nil_iff (hsep : sep ≠ []) {ls : List (List α)} :
    sep.intercalate ls = [] ↔ ls = [] ∨ ls = [[]] := by
  rcases ls with _ | ⟨l, _ | ⟨l', ls⟩⟩
  · simp [List.intercalate]
  · simp [List.intercalate]
  · simp [List.intercalate, hsep]

/-- Leaving texts out of a chain changes it, unless none is left out or the only one is empty. -/
theorem intercalate_filter_eq_iff (hsep : sep ≠ []) {p : List α → Bool} (hp : p [] = false)
    {ls : List (List α)} :
    sep.intercalate (ls.filter p) = sep.intercalate ls ↔ (∀ l ∈ ls, p l = true) ∨ ls = [[]] := by
  constructor
  · intro h
    cases hfilter : ls.filter p with
    | nil =>
      rw [hfilter] at h
      rcases (intercalate_eq_nil_iff hsep).1 h.symm with rfl | hls
      · exact .inl fun l hl => by cases hl
      · exact .inr hls
    | cons k ks =>
      cases ls with
      | nil => cases hfilter
      | cons l ls =>
        have hflat : (k :: ks).flatMap (· ++ sep) = (l :: ls).flatMap (· ++ sep) := by
          rw [← intercalate_append, ← intercalate_append, ← h, hfilter]
        have hle := length_flatMap_filter_add_countP_le (f := (· ++ sep))
          (fun l => List.append_ne_nil_of_right_ne_nil l hsep) p (l :: ls)
        rw [hfilter, hflat] at hle
        have hnone : (l :: ls).countP (fun l => !p l) = 0 := by omega
        rw [List.countP_eq_zero] at hnone
        exact .inl fun l hl => by simpa using hnone l hl
  · rintro (h | rfl)
    · rw [List.filter_eq_self.2 h]
    · simp [hp, List.intercalate]

end

/-! ## Commands and functions -/

/-- Whether a text has a character that is not blank. -/
def isNonblank (text : List Char) : Bool := !text.all Text.isSpace

theorem steps_concat (cs : List Contribution) :
    (Contribution.concat cs).steps = cs.flatMap Contribution.steps := by
  induction cs with
  | nil => rfl
  | cons c cs ih =>
    rw [List.flatMap_cons, ← ih]
    rfl

theorem runUnlessBlank_ofList (text : List Char) :
    runUnlessBlank (String.ofList text) =
      if isNonblank text then [.run (String.ofList text)] else [] := by
  rw [runUnlessBlank, Text.isBlank, String.toList_ofList, isNonblank]
  cases text.all Text.isSpace <;> rfl

/-- A command runs those of its rendered lines that are not blank. -/
theorem steps_ofChunk_of_command (s : Scope) {chunk : Chunk} {command : Command}
    (hhelp : chunk.name ≠ "help") (hup : chunk.name ≠ "up")
    (hcommand : s.project.commands.get? chunk.name = some command) :
    (ofChunk s chunk).steps =
      ((command.script.map fun line =>
          (render s [] (Table.empty.insert argsParam chunk.joinedArgs) line).text).filter
        isNonblank).map fun text => .run (String.ofList text) := by
  rw [ofChunk, if_neg hhelp, if_neg hup, hcommand]
  dsimp only
  rw [steps_concat, List.flatMap_map]
  induction command.script with
  | nil => rfl
  | cons line lines ih =>
    rw [List.flatMap_cons, ih, ofLine, runUnlessBlank_ofList, List.map_cons, List.filter_cons]
    split <;> rfl

/-- **A chain is that of the nonblank lines if no line is blank.** A call that is expanded leaves the
chain of all of its rendered lines. This is the chain of those lines that are not blank exactly if
no line is blank, or there is one line and it is empty. A command, in contrast, runs those of its
rendered lines that are not blank, whatever the others are. -/
theorem chain_of_nonblank_iff (s : Scope) {frames : List Value} (hframes : frames.length < callLimit)
    {c : Call} {f : Function} (hf : function? s c.name = some f)
    (hbound : ∀ p, ¬Missing f c.args p) :
    let lines := f.script.map fun line =>
      (render s (frames ++ [frame f]) (bind f c.args) line).text
    (tracedCall s frames c).result.text = lineSeparator.intercalate lines ∧
      ((tracedCall s frames c).result.text = lineSeparator.intercalate (lines.filter isNonblank) ↔
        (∀ l ∈ lines, isNonblank l = true) ∨ lines = [[]]) ∧
      ∀ (chunk : Chunk) (command : Command), chunk.name ≠ "help" → chunk.name ≠ "up" →
        s.project.commands.get? chunk.name = some command →
        (ofChunk s chunk).steps =
          ((command.script.map fun line =>
              (render s [] (Table.empty.insert argsParam chunk.joinedArgs) line).text).filter
            isNonblank).map fun text => .run (String.ofList text) := by
  intro lines
  have htext : (tracedCall s frames c).result.text = lineSeparator.intercalate lines := by
    rw [tracedCall_of_bound hframes hf (unbound?_bind_eq_none_iff.2 hbound), result_tracedBody,
      Expansion.text_join, List.map_map]
    rfl
  refine ⟨htext, ?_, fun _ _ => steps_ofChunk_of_command s⟩
  rw [htext, eq_comm]
  exact intercalate_filter_eq_iff (by decide) rfl

namespace Setup

/-- A function of two lines, the first of which is a variable. -/
def setup : Function where
  script := ["$\x7bUNSET\x7d", "make"]

/-- A function with an argument for each line. -/
def pair : Function where
  script := ["@\x7ba\x7d", "@\x7bb\x7d"]

/-- A project with the functions, and with a command of the lines of the first one. -/
def scope : Scope where
  env _ := none
  project :=
    { functions := .ofList [("setup", setup), ("pair", pair)]
      commands := .ofList [("setup", { script := setup.script })] }
  globals := {}

/-- A call with something for each line. -/
def call : Call := ⟨"pair", "a=cd x, b=ls"⟩

/-- The chain of two lines that are not blank, and a command that leaves a blank line out. -/
theorem chain_of_nonblank_setup :
    ([] : List Value).length < callLimit ∧ function? scope "pair" = some pair ∧
      (∀ p, ¬Missing pair call.args p) ∧
      (tracedCall scope [] call).result.text =
        lineSeparator.intercalate ["cd x".toList, "ls".toList] ∧
      "setup" ≠ "help" ∧ "setup" ≠ "up" ∧
      scope.project.commands.get? "setup" = some { script := setup.script } ∧
      (ofChunk scope ⟨"setup", []⟩).steps = [.run "make"] := by
  have hlimit : ([] : List Value).length < callLimit := by decide
  have hf : function? scope "pair" = some pair := by decide +kernel
  have hbound : ∀ p, ¬Missing pair call.args p :=
    unbound?_bind_eq_none_iff.1 (by decide +kernel)
  have hcommand : scope.project.commands.get? "setup" = some { script := setup.script } := by
    decide +kernel
  obtain ⟨-, hchain, hcommands⟩ := chain_of_nonblank_iff scope hlimit (c := call) hf hbound
  have htext := hchain.2 (.inl (by decide +kernel))
  have hsteps := hcommands ⟨"setup", []⟩ _ (by decide) (by decide) hcommand
  refine ⟨hlimit, hf, hbound, htext.trans (by decide +kernel), by decide, by decide, hcommand, ?_⟩
  exact hsteps.trans (by decide +kernel)

/-- Where a variable that is not set leaves a line blank, the chain starts with an operator. -/
theorem chain_lacks_operand :
    (setup.script.map fun line => (render scope [frame setup] (bind setup "") line).text) =
        [[], "make".toList] ∧
      lineSeparator.intercalate ([[], "make".toList].filter isNonblank) = "make".toList ∧
      (tracedCall scope [] ⟨"setup", ""⟩).result.text = " && make".toList ∧
      render scope [] .empty "_\x7bsetup()\x7d" =
        ⟨" && make".toList, [.unsetVariable "UNSET"]⟩ := by
  decide +kernel

end Setup

end ProjectScript.Plan
