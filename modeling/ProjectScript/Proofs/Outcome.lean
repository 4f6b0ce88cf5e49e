import ProjectScript.World

/-!
# Outcomes of actions

What an action gives when it starts in a world, and the world that it leaves (`outcome`). An action
that goes on with the result of another one does so in the world that this one leaves, and not at
all if it fails (`outcome_bind`, and its inversion `outcome_bind_cases`). When an action succeeds is
told by one `iff` for each way to make it (`outcome_bind_eq_ok_iff` and those behind it).

Some actions leave the files as they are and give a function of them (`Reads`); so does an action
that is made of such ones (`Reads.bind`).
-/

namespace ProjectScript

variable {ε δ α β : Type}

/-- What a chain of results comes to when it comes to one: so does each part. -/
theorem exists_of_bind_eq_ok {x : Except ε α} {f : α → Except ε β} {b : β}
    (h : (x >>= f) = .ok b) : ∃ a, x = .ok a ∧ f a = .ok b := by
  cases x with
  | error e => cases h
  | ok a => exact ⟨a, rfl, h⟩

/-- A result that can be computed is what it comes to. -/
theorem eq_ok {x : Except ε α} {a : α} (h : x.toOption = some a) : x = .ok a := by
  cases x with
  | error e => cases h
  | ok b => exact congrArg Except.ok (Option.some.inj h)

theorem eq_error {x : Except ε α} {e : ε}
    (h : (match x with | .error e => some e | .ok _ => none) = some e) : x = .error e := by
  cases x with
  | error e' => exact congrArg Except.error (Option.some.inj h)
  | ok a => cases h

theorem mapError_eq_ok_iff {f : δ → ε} {x : Except δ α} {a : α} :
    x.mapError f = .ok a ↔ x = .ok a := by
  cases x with
  | error e => exact ⟨nofun, nofun⟩
  | ok b => exact ⟨fun h => congrArg _ (Except.ok.inj h), fun h => congrArg _ (Except.ok.inj h)⟩

namespace Act

/-- What an action gives when it starts in a world, and the world that it leaves. -/
def outcome (a : Act ε α) (w : World) : Except ε α × World := a.run.run w

theorem outcome_files (w : World) : (files : Act ε FileSystem).outcome w = (.ok w.files, w) :=
  rfl

theorem outcome_setFiles (fs : FileSystem) (w : World) :
    (setFiles fs : Act ε Unit).outcome w = (.ok (), { w with files := fs }) := rfl

theorem outcome_notify (ns : List String) (w : World) :
    (notify ns : Act ε Unit).outcome w = (.ok (), { w with notices := w.notices ++ ns }) := rfl

theorem outcome_emit (s : String) (w : World) :
    (emit s : Act ε Unit).outcome w = (.ok (), { w with output := w.output ++ s }) := rfl

theorem outcome_bind (a : Act ε α) (f : α → Act ε β) (w : World) :
    (a >>= f).outcome w =
      match a.outcome w with
      | (.ok x, w₁) => (f x).outcome w₁
      | (.error e, w₁) => (.error e, w₁) := by
  change (ExceptT.bindCont f (a.outcome w).1).run (a.outcome w).2 = _
  rcases a.outcome w with ⟨_ | _, _⟩ <;> rfl

theorem outcome_files_bind (f : FileSystem → Act ε β) (w : World) :
    (files >>= f).outcome w = (f w.files).outcome w := by
  rw [outcome_bind, outcome_files]

theorem outcome_mapError (f : δ → ε) (a : Act δ α) (w : World) :
    (mapError f a).outcome w = ((a.outcome w).1.mapError f, (a.outcome w).2) := rfl

/-- Where an action goes on with the result of another one, either this one succeeds and the
action goes on, or this one fails and so does the whole. -/
theorem outcome_bind_cases {a : Act ε α} {f : α → Act ε β} {w w' : World} {answer : Except ε β}
    (h : (a >>= f).outcome w = (answer, w')) :
    (∃ x w₁, a.outcome w = (.ok x, w₁) ∧ (f x).outcome w₁ = (answer, w')) ∨
      ∃ e, a.outcome w = (.error e, w') ∧ answer = .error e := by
  rw [outcome_bind] at h
  split at h
  · rename_i x w₁ ha
    exact Or.inl ⟨x, w₁, ha, h⟩
  · rename_i e w₁ ha
    obtain ⟨rfl, rfl⟩ := Prod.mk.inj h
    exact Or.inr ⟨e, ha, rfl⟩

theorem outcome_bind_eq_ok_iff {a : Act ε α} {f : α → Act ε β} {w w' : World} {y : β} :
    (a >>= f).outcome w = (.ok y, w') ↔
      ∃ x w₁, a.outcome w = (.ok x, w₁) ∧ (f x).outcome w₁ = (.ok y, w') := by
  constructor
  · intro h
    rcases outcome_bind_cases h with h | ⟨e, -, he⟩
    · exact h
    · cases he
  · rintro ⟨x, w₁, hx, h⟩
    rw [outcome_bind, hx]
    exact h

theorem outcome_mapError_eq_ok_iff {f : δ → ε} {a : Act δ α} {w w' : World} {x : α} :
    (mapError f a).outcome w = (.ok x, w') ↔ a.outcome w = (.ok x, w') := by
  rw [outcome_mapError, Prod.mk.injEq, mapError_eq_ok_iff, ← Prod.mk.injEq]

theorem outcome_ofExcept_eq_ok_iff {o : Except ε α} {w w' : World} {x : α} :
    (ofExcept o).outcome w = (.ok x, w') ↔ o = .ok x ∧ w' = w := by
  rw [show (ofExcept o).outcome w = (o, w) from rfl, Prod.mk.injEq, eq_comm (a := w)]

theorem outcome_files_eq_ok_iff {fs : FileSystem} {w w' : World} :
    (files : Act ε FileSystem).outcome w = (.ok fs, w') ↔ fs = w.files ∧ w' = w := by
  rw [outcome_files, Prod.mk.injEq, Except.ok.injEq, eq_comm (a := w), eq_comm (a := w.files)]

theorem outcome_notify_eq_ok_iff {ns : List String} {x : Unit} {w w' : World} :
    (notify ns : Act ε Unit).outcome w = (.ok x, w') ↔
      w' = { w with notices := w.notices ++ ns } := by
  rw [outcome_notify, Prod.mk.injEq, and_iff_right rfl, eq_comm]

theorem outcome_emit_eq_ok_iff {s : String} {x : Unit} {w w' : World} :
    (emit s : Act ε Unit).outcome w = (.ok x, w') ↔ w' = { w with output := w.output ++ s } := by
  rw [outcome_emit, Prod.mk.injEq, and_iff_right rfl, eq_comm]

/-! ## Actions that only read -/

/-- The action leaves the files as they are, and what it gives is a function of them. -/
def Reads (a : Act ε α) (f : FileSystem → Except ε α) : Prop :=
  ∀ w, (a.outcome w).1 = f w.files ∧ (a.outcome w).2.files = w.files

theorem reads_pure (x : α) : (pure x : Act ε α).Reads fun _ => .ok x := fun _ => ⟨rfl, rfl⟩

theorem reads_files : (files : Act ε FileSystem).Reads .ok := fun _ => ⟨rfl, rfl⟩

theorem reads_ofExcept (x : Except ε α) : (ofExcept x).Reads fun _ => x := fun _ => ⟨rfl, rfl⟩

theorem Reads.mapError {f : δ → ε} {a : Act δ α} {g : FileSystem → Except δ α} (h : a.Reads g) :
    (mapError f a).Reads fun fs => (g fs).mapError f :=
  fun w => ⟨congrArg (·.mapError f) (h w).1, (h w).2⟩

theorem Reads.outcome {a : Act ε α} {f : FileSystem → Except ε α} (h : a.Reads f) {w w' : World}
    {answer : Except ε α} (ho : a.outcome w = (answer, w')) :
    answer = f w.files ∧ w'.files = w.files := by
  have hw := h w
  rw [ho] at hw
  exact hw

/-- Where an action goes on with what another one reads, either this one fails and so does the
whole, or the action goes on with the same files. -/
theorem Reads.bind_cases {a : Act ε α} {f : FileSystem → Except ε α} (ha : a.Reads f)
    {g : α → Act ε β} {w w' : World} {answer : Except ε β}
    (h : (a >>= g).outcome w = (answer, w')) :
    (∃ e, f w.files = .error e ∧ answer = .error e ∧ w'.files = w.files) ∨
      ∃ x w₁, f w.files = .ok x ∧ w₁.files = w.files ∧ (g x).outcome w₁ = (answer, w') := by
  rcases outcome_bind_cases h with ⟨x, w₁, hx, h⟩ | ⟨e, he, rfl⟩
  · obtain ⟨hf, hw⟩ := ha.outcome hx
    exact .inr ⟨x, w₁, hf.symm, hw, h⟩
  · obtain ⟨hf, hw⟩ := ha.outcome he
    exact .inl ⟨e, hf.symm, rfl, hw⟩

/-- An action that goes on with what another one reads, and reads itself. -/
theorem Reads.bind {a : Act ε α} {f : FileSystem → Except ε α} (ha : a.Reads f) {g : α → Act ε β}
    {k : α → FileSystem → Except ε β} (hg : ∀ x, (g x).Reads (k x)) :
    (a >>= g).Reads fun fs => f fs >>= fun x => k x fs := by
  intro w
  rcases ho : (a >>= g).outcome w with ⟨answer, w'⟩
  rcases ha.bind_cases ho with ⟨e, hf, rfl, hw⟩ | ⟨x, w₁, hf, hw₁, ho⟩
  · dsimp only
    rw [hf]
    exact ⟨rfl, hw⟩
  · obtain ⟨rfl, hw⟩ := (hg x).outcome ho
    dsimp only
    rw [hf, ← hw₁]
    exact ⟨rfl, hw⟩

end Act

end ProjectScript
