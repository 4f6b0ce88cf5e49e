import ProjectScript.Plan.Build
import ProjectScript.Proofs.Dialect.Reading

/-!
# The command line that starts services

A POSIX shell reads quoted texts with a blank between each two as words, one for each text
(`Quote.tokens_intercalate`), whatever the texts hold. So of the command line that starts services
it reads the program, its options, the compose file, and the services that the arguments request.
An argument that names a group of the project means the services of the group as they are listed,
and any other one means itself; one that names a group and finds none gives a notice
(`Compose.Means`). The arguments request what they mean one after the other, and nothing else
(`Compose.requests_iff`).
-/

namespace ProjectScript

namespace Quote

/-- Quoted texts with a blank between each two are read as words. -/
theorem tokens_intercalate (w : String) (ws : List String) :
    tokens (" ".intercalate ((w :: ws).map posix)) = some ((w :: ws).map .word) := by
  induction ws generalizing w with
  | nil => exact tokens_posix w
  | cons w' ws ih =>
    have hline : (" ".intercalate ((w :: w' :: ws).map posix)).toList =
        (posix w).toList ++ ' ' :: (" ".intercalate ((w' :: ws).map posix)).toList := by
      rw [List.map_cons, List.map_cons, String.intercalate_cons_cons, String.toList_append,
        String.toList_append, List.append_assoc]
      rfl
    have hrest := ih w'
    rw [tokens] at hrest ⊢
    rw [hline, read_posix_blank, hrest]
    rfl

end Quote

namespace Compose

/-- What an argument means: services to start, and notices. -/
inductive Means (s : Services) : String → List String → List String → Prop
  /-- The services of a group as they are listed, also those with a name like that of a group. -/
  | group {name : String} {members : List String} :
    s.groups.get? name = some members → Means s ("@" ++ name) members []
  /-- A group that the project does not have. -/
  | unknown {name : String} :
    s.groups.get? name = none → Means s ("@" ++ name) ["@" ++ name] [unknownGroup ("@" ++ name)]
  /-- A service. -/
  | service {arg : String} : arg.toList.head? ≠ some '@' → Means s arg [arg] []

/-- What arguments request: the services and the notices that they mean, in their order. -/
inductive Requests (s : Services) : List String → List String → List String → Prop
  | nil : Requests s [] [] []
  | cons {arg : String} {args ws words ns notes : List String} :
    Means s arg ws ns → Requests s args words notes →
      Requests s (arg :: args) (ws ++ words) (ns ++ notes)

section

variable {s : Services} {arg name : String} {members args words notes : List String}

/-! ## One argument -/

theorem groupName?_at (name : String) : groupName? ("@" ++ name) = some name := by
  have hword : ("@" ++ name).toList = '@' :: name.toList := String.toList_append
  rw [groupName?, hword]
  exact congrArg some String.ofList_toList

theorem groupName?_eq_none (h : arg.toList.head? ≠ some '@') : groupName? arg = none := by
  unfold groupName?
  split
  · rename_i hword
    rw [hword] at h
    exact (h rfl).elim
  · rfl

/-- An argument names a group or is a service. -/
theorem argument_cases (arg : String) :
    (∃ name, arg = "@" ++ name) ∨ arg.toList.head? ≠ some '@' := by
  by_cases h : arg.toList.head? = some '@'
  · obtain ⟨cs, hcs⟩ := List.head?_eq_some_iff.1 h
    have hword : String.ofList arg.toList = "@" ++ String.ofList cs :=
      (congrArg String.ofList hcs).trans String.ofList_cons
    exact .inl ⟨String.ofList cs, String.ofList_toList.symm.trans hword⟩
  · exact .inr h

theorem notices_singleton (s : Services) (arg : String) :
    notices s [arg] = if isUnknownGroup s arg then [unknownGroup arg] else [] := by
  rw [notices, List.filter_cons, List.filter_nil]
  split <;> rfl

theorem services_of_group (h : s.groups.get? name = some members) :
    services s ("@" ++ name) = members ∧ notices s ["@" ++ name] = [] := by
  have hknown : (!s.groups.contains name) = false := by rw [Table.contains, h]; rfl
  rw [notices_singleton, services, isUnknownGroup, groupName?_at, Option.bind_some, h]
  exact ⟨rfl, if_neg (Bool.eq_false_iff.1 hknown)⟩

theorem services_of_unknown (h : s.groups.get? name = none) :
    services s ("@" ++ name) = ["@" ++ name] ∧
      notices s ["@" ++ name] = [unknownGroup ("@" ++ name)] := by
  have hunknown : (!s.groups.contains name) = true := by rw [Table.contains, h]; rfl
  rw [notices_singleton, services, isUnknownGroup, groupName?_at, Option.bind_some, h]
  exact ⟨rfl, if_pos hunknown⟩

theorem services_of_service (h : arg.toList.head? ≠ some '@') :
    services s arg = [arg] ∧ notices s [arg] = [] := by
  rw [notices_singleton, services, isUnknownGroup, groupName?_eq_none h]
  exact ⟨rfl, rfl⟩

/-- An argument means the services that it stands for and the notice about it, and nothing else. -/
theorem means_iff : Means s arg words notes ↔ words = services s arg ∧ notes = notices s [arg] := by
  constructor
  · intro h
    cases h with
    | group hgroup => exact (services_of_group hgroup).imp Eq.symm Eq.symm
    | unknown hgroup => exact (services_of_unknown hgroup).imp Eq.symm Eq.symm
    | service hservice => exact (services_of_service hservice).imp Eq.symm Eq.symm
  · rintro ⟨rfl, rfl⟩
    obtain ⟨name, rfl⟩ | hservice := argument_cases arg
    · cases hgroup : s.groups.get? name with
      | some members =>
        rw [(services_of_group hgroup).1, (services_of_group hgroup).2]
        exact .group hgroup
      | none =>
        rw [(services_of_unknown hgroup).1, (services_of_unknown hgroup).2]
        exact .unknown hgroup
    · rw [(services_of_service hservice).1, (services_of_service hservice).2]
      exact .service hservice

/-! ## The arguments -/

theorem notices_cons (s : Services) (arg : String) (args : List String) :
    notices s (arg :: args) = notices s [arg] ++ notices s args := by
  rw [notices, ← List.singleton_append, List.filter_append, List.map_append]
  rfl

theorem requests_iff :
    Requests s args words notes ↔ words = args.flatMap (services s) ∧ notes = notices s args := by
  constructor
  · intro h
    induction h with
    | nil => exact ⟨rfl, rfl⟩
    | cons hmeans _ ih =>
      obtain ⟨rfl, rfl⟩ := means_iff.1 hmeans
      obtain ⟨rfl, rfl⟩ := ih
      exact ⟨List.flatMap_cons.symm, (notices_cons s _ _).symm⟩
  · rintro ⟨rfl, rfl⟩
    induction args with
    | nil => exact .nil
    | cons arg args ih =>
      rw [List.flatMap_cons, notices_cons]
      exact .cons (means_iff.2 ⟨rfl, rfl⟩) ih

end

/-- The compose file is the one that the project names, without the blanks around the name. -/
theorem file_eq (s : Services) :
    file s = if Text.isBlank s.file then "docker-compose.yml" else Text.trim s.file := by
  have hempty : (Text.trim s.file).isEmpty = Text.isBlank s.file := by
    rw [Bool.eq_iff_iff, String.isEmpty_iff, Text.trim_eq_empty_iff]
  rw [file, hempty]
  rfl

/-- **The line carries the requested services.** A POSIX shell reads the command line as the program,
its options, the compose file and the services that the arguments request, each of which is one
word. What the arguments request is determined, and the notices are those about the groups among
them that the project does not have. -/
theorem line_carries_requested (s : Services) (args : List String) :
    ∃ words,
      (∀ words' notes, Requests s args words' notes ↔ words' = words ∧ notes = notices s args) ∧
      Quote.tokens (line s args) =
        some ((["docker", "compose", "-f",
          if Text.isBlank s.file then "docker-compose.yml" else Text.trim s.file, "up", "-d"] ++
            words).map .word) := by
  refine ⟨args.flatMap (services s), fun _ _ => requests_iff, ?_⟩
  rw [← file_eq]
  exact Quote.tokens_intercalate "docker" _

/-- Groups that name each other, an empty service, and one with a line feed. -/
def circular : Services :=
  ⟨" my file.yml\n", .ofList [("a", ["@b", ""]), ("b", ["@a", "x\ny"]), ("none", [])]⟩

example : Quote.tokens (line circular ["@a", "it's", "@none", "@c", "@b"]) =
    some (["docker", "compose", "-f", "my file.yml", "up", "-d", "@b", "", "it's", "@c", "@a",
      "x\ny"].map .word) := by
  decide +kernel

end Compose

end ProjectScript
