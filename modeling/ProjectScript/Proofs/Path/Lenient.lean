import ProjectScript.Path.Expand

/-!
# Lenient expansion beside strict expansion

The two expansions of a path read the same pieces and treat the home directory in the same way.
They differ in what they put for a variable that is not set (`Piece.strict`, `Piece.lenient`): the
lenient one puts nothing. It is the strict expansion in an environment that has the empty value for
each such variable (`substitute_filled`), so it never fails, and a variable at which the strict one
fails counts for nothing (`exists_of_substitute_error`).

It also puts nothing where the strict one puts a default. What it makes of a path is a part of what
the strict one makes of it (`sublist_of_substitute`), and the two are the same exactly when no
reference falls back on a default that is not empty (`substituteLenient_eq_iff`,
`lenient_agrees_unless_falls_back`).
-/

namespace ProjectScript

/-- The environment with the empty value for each variable that is not set. -/
def Environment.filled (env : Environment) : Environment := fun n => some ((env n).getD "")

namespace Path

/-- A reference stands for its default, and that is not empty. -/
def Variable.FallsBack (env : Environment) (v : Variable) : Prop :=
  env (String.ofList v.name) = none ∧ v.default.getD [] ≠ []

instance (env : Environment) (v : Variable) : Decidable (v.FallsBack env) :=
  inferInstanceAs (Decidable (_ ∧ _))

/-- The reference of a piece. -/
def Piece.reference? : Piece → Option Variable
  | char _ => none
  | «variable» v => some v

/-- The references of a path, in their order. -/
def references (raw : String) : List Variable := (pieces raw.toList).filterMap Piece.reference?

/-! ## One piece -/

namespace Piece

variable {env : Environment} {q : Piece} {t : List Char} {n : String}

/-- What the strict expansion puts for a piece, or the variable at which it fails. -/
def strict (env : Environment) : Piece → Except String (List Char)
  | char c => .ok [c]
  | «variable» v =>
    match (env (String.ofList v.name)).map String.toList |>.or v.default with
    | some value => .ok value
    | none => .error (String.ofList v.name)

/-- What the lenient expansion puts for a piece. -/
def lenient (env : Environment) : Piece → List Char
  | char c => [c]
  | «variable» v => ((env (String.ofList v.name)).getD "").toList

theorem strict_filled (q : Piece) : q.strict env.filled = .ok (q.lenient env) := by
  rcases q with c | v <;> rfl

theorem of_strict_error (h : q.strict env = .error n) :
    (∃ v, q = «variable» v ∧ String.ofList v.name = n ∧ env n = none ∧ v.default = none) ∧
      q.lenient env = [] := by
  rcases q with c | v
  · cases h
  · rw [strict] at h
    split at h
    · cases h
    · rename_i hvalue
      obtain rfl := Except.error.inj h
      obtain ⟨hname, hdefault⟩ := Option.or_eq_none_iff.1 hvalue
      have hunset := Option.map_eq_none_iff.1 hname
      refine ⟨⟨v, rfl, rfl, hunset, hdefault⟩, ?_⟩
      rw [lenient, hunset]
      rfl

/-- A reference has its value in both expansions, or its default in the strict one and nothing in the
lenient one. -/
theorem of_strict_ok (h : q.strict env = .ok t) :
    q.lenient env = t ∧ (∀ v, q = «variable» v → ¬v.FallsBack env) ∨
      q.lenient env = [] ∧ t ≠ [] ∧ ∃ v, q = «variable» v ∧ v.FallsBack env := by
  rcases q with c | v
  · obtain rfl := Except.ok.inj h
    exact .inl ⟨rfl, nofun⟩
  · rw [strict] at h
    cases hvar : env (String.ofList v.name) with
    | some value =>
      rw [hvar] at h
      obtain rfl := Except.ok.inj h
      refine .inl ⟨by rw [lenient, hvar]; rfl, fun w hw hf => ?_⟩
      obtain rfl := Piece.variable.inj hw
      rw [hf.1] at hvar
      cases hvar
    | none =>
      have hlenient : lenient env («variable» v) = [] := by
        rw [lenient, hvar]
        rfl
      rw [hvar, Option.map_none, Option.none_or] at h
      cases hdefault : v.default with
      | none =>
        rw [hdefault] at h
        cases h
      | some d =>
        rw [hdefault] at h
        obtain rfl := Except.ok.inj h
        by_cases hd : d = []
        · subst hd
          refine .inl ⟨hlenient, fun w hw hf => hf.2 ?_⟩
          obtain rfl := Piece.variable.inj hw
          rw [hdefault]
          rfl
        · exact .inr ⟨hlenient, hd, v, rfl, hvar, by rw [hdefault]; exact hd⟩

end Piece

/-! ## The texts -/

section

variable {env : Environment} {ps : List Piece} {t : List Char} {n : String}

theorem substitute_cons (env : Environment) (q : Piece) (ps : List Piece) :
    substitute env (q :: ps) =
      (q.strict env).bind fun t => (substitute env ps).map (t ++ ·) := by
  rcases q with c | v
  · rfl
  · rw [substitute, Piece.strict]
    cases (env (String.ofList v.name)).map String.toList |>.or v.default <;> rfl

theorem substituteLenient_eq (env : Environment) (ps : List Piece) :
    substituteLenient env ps = ps.flatMap (Piece.lenient env) := by
  induction ps with
  | nil => rfl
  | cons q ps ih => rcases q with c | v <;> rw [substituteLenient, ih] <;> rfl

/-- The lenient expansion is the strict one where no variable is unset. -/
theorem substitute_filled (ps : List Piece) :
    substitute env.filled ps = .ok (substituteLenient env ps) := by
  rw [substituteLenient_eq]
  induction ps with
  | nil => rfl
  | cons q ps ih =>
    rw [substitute_cons, ih, Piece.strict_filled]
    rfl

theorem substitute_cons_ok {q : Piece} (h : substitute env (q :: ps) = .ok t) :
    ∃ a b, q.strict env = .ok a ∧ substitute env ps = .ok b ∧ t = a ++ b := by
  rw [substitute_cons] at h
  cases hq : q.strict env with
  | error m =>
    rw [hq] at h
    cases h
  | ok a =>
    rw [hq] at h
    cases hps : substitute env ps with
    | error m =>
      rw [hps] at h
      cases h
    | ok b =>
      rw [hps] at h
      exact ⟨a, b, rfl, rfl, (Except.ok.inj h).symm⟩

/-- The strict expansion fails at the first variable that is not set and has no default. The lenient
one puts nothing for it. -/
theorem exists_of_substitute_error (h : substitute env ps = .error n) :
    ∃ before v after, ps = before ++ .variable v :: after ∧ String.ofList v.name = n ∧
      env n = none ∧ v.default = none ∧ (∃ t, substitute env before = .ok t) ∧
      substituteLenient env ps = substituteLenient env (before ++ after) := by
  induction ps with
  | nil => cases h
  | cons q ps ih =>
    rw [substitute_cons] at h
    cases hq : q.strict env with
    | error m =>
      rw [hq] at h
      obtain rfl := Except.error.inj h
      obtain ⟨⟨v, rfl, hname, hunset, hdefault⟩, hnothing⟩ := Piece.of_strict_error hq
      refine ⟨[], v, ps, rfl, hname, hunset, hdefault, ⟨[], rfl⟩, ?_⟩
      rw [substituteLenient_eq, List.flatMap_cons, hnothing, substituteLenient_eq]
      rfl
    | ok a =>
      rw [hq] at h
      cases hps : substitute env ps with
      | ok b =>
        rw [hps] at h
        cases h
      | error m =>
        rw [hps] at h
        obtain rfl := Except.error.inj h
        obtain ⟨before, v, after, rfl, hname, hunset, hdefault, ⟨b, hb⟩, hlenient⟩ := ih hps
        refine ⟨q :: before, v, after, rfl, hname, hunset, hdefault, ⟨a ++ b, ?_⟩, ?_⟩
        · rw [substitute_cons, hq, hb]
          rfl
        · simp only [substituteLenient_eq] at hlenient ⊢
          rw [List.flatMap_cons, hlenient]
          rfl

/-- The lenient expansion leaves out the defaults of the strict one. -/
theorem sublist_of_substitute (h : substitute env ps = .ok t) :
    (substituteLenient env ps).Sublist t := by
  rw [substituteLenient_eq]
  induction ps generalizing t with
  | nil => exact List.nil_sublist t
  | cons q ps ih =>
    obtain ⟨a, b, hq, hps, rfl⟩ := substitute_cons_ok h
    rw [List.flatMap_cons]
    rcases Piece.of_strict_ok hq with ⟨hsame, -⟩ | ⟨hnothing, -⟩
    · rw [hsame]
      exact (ih hps).append_left a
    · rw [hnothing]
      exact (ih hps).trans (List.sublist_append_right a b)

/-- The two expansions put the same where no reference falls back on a default, and only there: a
default makes the text of the strict one longer. -/
theorem substituteLenient_eq_iff (h : substitute env ps = .ok t) :
    substituteLenient env ps = t ↔ ∀ v ∈ ps.filterMap Piece.reference?, ¬v.FallsBack env := by
  rw [substituteLenient_eq]
  induction ps generalizing t with
  | nil =>
    obtain rfl := Except.ok.inj h
    simp
  | cons q ps ih =>
    obtain ⟨a, b, hq, hps, rfl⟩ := substitute_cons_ok h
    rw [List.flatMap_cons]
    rcases Piece.of_strict_ok hq with ⟨hsame, hnot⟩ | ⟨hnothing, hne, v, rfl, hback⟩
    · rw [hsame, List.append_cancel_left_eq, ih hps]
      rcases q with c | v
      · exact Iff.rfl
      · have hcons := List.forall_mem_cons (p := fun w : Variable => ¬w.FallsBack env) (a := v)
          (l := ps.filterMap Piece.reference?)
        exact (hcons.trans (and_iff_right (hnot v rfl))).symm
    · refine iff_of_false (fun heq => ?_) fun hnot => hnot v List.mem_cons_self hback
      have hle := (sublist_of_substitute hps).length_le
      rw [substituteLenient_eq] at hle
      have hlength := congrArg List.length heq
      rw [hnothing, List.nil_append, List.length_append] at hlength
      have := List.length_pos_iff.2 hne
      omega

end

/-! ## The home directory -/

section

variable {env : Environment} {raw : String}

theorem finish_filled (expanded : List Char) :
    finish env.filled raw expanded = finish env raw expanded := by
  have hhome : env.filled.home? = env.home? := by
    unfold Environment.home? Environment.filled
    cases env "HOME" <;> rfl
  rw [finish, finish, hhome]

/-- Two texts that start with a tilde have the same path only if they are the same, where the home
directory does not start with a tilde itself. -/
theorem expandTilde_inj {home : Option String}
    (hh : ∀ h ∈ home, h.toList ≠ [] ∧ h.toList.head? ≠ some '~') {s t : List Char}
    (h : expandTilde home ('~' :: s) = expandTilde home ('~' :: t)) : s = t := by
  cases home with
  | none => exact (List.cons.inj h).2
  | some dir =>
    obtain ⟨hne, hhead⟩ := hh dir rfl
    have hmix : ∀ u v, dir.toList ++ u ≠ '~' :: v := by
      intro u v heq
      obtain ⟨c, cs, hcs⟩ := List.exists_cons_of_ne_nil hne
      rw [hcs, List.cons_append] at heq
      exact hhead (by rw [hcs, (List.cons.inj heq).1]; rfl)
    simp only [expandTilde] at h
    split at h <;> split at h
    · exact List.append_cancel_left h
    · exact (hmix _ _ h).elim
    · exact (hmix _ _ h.symm).elim
    · exact (List.cons.inj h).2

theorem pieces_tilde (cs : List Char) : pieces ('~' :: cs) = .char '~' :: pieces cs := by
  rw [pieces]
  all_goals simp

theorem head?_of_substitute {cs t : List Char} (h : substitute env (pieces ('~' :: cs)) = .ok t) :
    ∃ rest, t = '~' :: rest := by
  rw [pieces_tilde] at h
  obtain ⟨a, b, ha, -, rfl⟩ := substitute_cons_ok h
  obtain rfl := Except.ok.inj ha
  exact ⟨b, rfl⟩

/-- Texts that were put for the same path make the same path only if they are the same. -/
theorem finish_inj (hh : ∀ h ∈ env.home?, h.toList.head? ≠ some '~') {t : List Char}
    (ht : substitute env (pieces raw.toList) = .ok t)
    (h : finish env raw (substituteLenient env (pieces raw.toList)) = finish env raw t) :
    substituteLenient env (pieces raw.toList) = t := by
  have h := String.ofList_injective h
  split at h
  · rename_i htilde
    obtain ⟨cs, hcs⟩ := List.head?_eq_some_iff.1 htilde
    rw [hcs] at ht h ⊢
    obtain ⟨rest, rfl⟩ := head?_of_substitute ht
    have hlenient : substituteLenient env (pieces ('~' :: cs)) =
        '~' :: substituteLenient env (pieces cs) := by
      rw [pieces_tilde]
      rfl
    rw [hlenient] at h ⊢
    refine congrArg ('~' :: ·) (expandTilde_inj (fun dir hdir => ⟨?_, hh dir hdir⟩) h)
    obtain ⟨-, hne⟩ := Option.filter_eq_some_iff.1 hdir
    intro hnil
    rw [String.isEmpty_iff.2 (String.toList_eq_nil_iff.1 hnil)] at hne
    cases hne
  · exact h

end

/-! ## Where the two agree -/

/-- **Lenient expansion agrees with strict expansion unless a default counts.** It always gives a
path, the one that the strict expansion gives in the environment that has the empty value for each
variable that is not set. A variable at which the strict expansion fails, the first one that is not
set and has no default, is expanded to nothing. Where the strict expansion gives a path, the lenient
one gives the same if no reference falls back on a default that is not empty; and if one does it
gives another one, unless the home directory itself starts with a tilde. -/
theorem lenient_agrees_unless_falls_back (env : Environment) (raw : String) :
    expand env.filled raw = .ok (expandLenient env raw) ∧
      (∀ n, expand env raw = .error n →
        ∃ before v after, pieces raw.toList = before ++ .variable v :: after ∧
          String.ofList v.name = n ∧ env n = none ∧ v.default = none ∧
          (∃ t, substitute env before = .ok t) ∧
          expandLenient env raw = finish env raw (substituteLenient env (before ++ after))) ∧
      ∀ p, expand env raw = .ok p →
        ((∀ v ∈ references raw, ¬v.FallsBack env) → expandLenient env raw = p) ∧
          ((∀ h ∈ env.home?, h.toList.head? ≠ some '~') → expandLenient env raw = p →
            ∀ v ∈ references raw, ¬v.FallsBack env) := by
  refine ⟨?_, fun n h => ?_, fun p h => ?_⟩
  · rw [expand, substitute_filled]
    exact congrArg Except.ok (finish_filled _)
  · rw [expand] at h
    cases hs : substitute env (pieces raw.toList) with
    | ok t =>
      rw [hs] at h
      cases h
    | error m =>
      rw [hs] at h
      obtain rfl := Except.error.inj h
      obtain ⟨before, v, after, hpieces, hname, hunset, hdefault, hbefore, hlenient⟩ :=
        exists_of_substitute_error hs
      exact ⟨before, v, after, hpieces, hname, hunset, hdefault, hbefore,
        congrArg (finish env raw) hlenient⟩
  · rw [expand] at h
    cases hs : substitute env (pieces raw.toList) with
    | error m =>
      rw [hs] at h
      cases h
    | ok t =>
      rw [hs] at h
      obtain rfl := Except.ok.inj h
      have hiff := substituteLenient_eq_iff hs
      exact ⟨fun hnot => congrArg (finish env raw) (hiff.2 hnot),
        fun hh heq => hiff.1 (finish_inj hh hs heq)⟩

namespace Sample

/-- An environment with a home directory and two more variables, one of them empty. -/
def environment : Environment
  | "HOME" => some "/home/me"
  | "A" => some "a"
  | "E" => some ""
  | _ => none

/-- A path below the home directory, with a reference of each kind, none of which falls back. -/
def below : String := "~/$A/$\x7bE:-e\x7d$\x7bU:-\x7d$$"

/-- A path with a variable that is not set. -/
def unset : String := "$A/$U/x"

/-- The two expansions agree, also on the path at which the strict one fails, where its variable is
left out. -/
theorem lenient_agrees_below :
    (expand environment below = .ok "/home/me/a/$" ∧
      (∀ v ∈ references below, ¬v.FallsBack environment) ∧
      (∀ h ∈ environment.home?, h.toList.head? ≠ some '~') ∧
      expandLenient environment below = "/home/me/a/$") ∧
    expand environment unset = .error "U" ∧
      ∃ before v after, pieces unset.toList = before ++ .variable v :: after ∧
        String.ofList v.name = "U" ∧ environment "U" = none ∧ v.default = none ∧
        (∃ t, substitute environment before = .ok t) ∧
        expandLenient environment unset =
          finish environment unset (substituteLenient environment (before ++ after)) := by
  have hbelow : pieces below.toList = [.char '~', .char '/', .variable ⟨['A'], none⟩, .char '/',
      .variable ⟨['E'], some ['e']⟩, .variable ⟨['U'], some []⟩, .char '$'] := by decide +kernel
  have hok : expand environment below = .ok "/home/me/a/$" := by
    rw [expand, hbelow]
    rfl
  have hnot : ∀ v ∈ references below, ¬v.FallsBack environment := by decide +kernel
  have hhome : ∀ h ∈ environment.home?, h.toList.head? ≠ some '~' := by decide +kernel
  have hunset : pieces unset.toList = [.variable ⟨['A'], none⟩, .char '/',
      .variable ⟨['U'], none⟩, .char '/', .char 'x'] := by decide +kernel
  have herror : expand environment unset = .error "U" := by
    rw [expand, hunset]
    rfl
  obtain ⟨-, -, hagree⟩ := lenient_agrees_unless_falls_back environment below
  obtain ⟨-, hfail, -⟩ := lenient_agrees_unless_falls_back environment unset
  exact ⟨⟨hok, hnot, hhome, (hagree _ hok).1 hnot⟩, herror, hfail _ herror⟩

/-- Where a default counts, the strict expansion gives a path and the lenient one another. -/
theorem lenient_drops_default :
    expand environment "$\x7bU:-u\x7d" = .ok "u" ∧
      expandLenient environment "$\x7bU:-u\x7d" ≠ "u" := by
  have hpieces : pieces "$\x7bU:-u\x7d".toList = [.variable ⟨['U'], some ['u']⟩] := by
    decide +kernel
  constructor
  · rw [expand, hpieces]
    rfl
  · decide +kernel

end Sample

end Path

end ProjectScript
