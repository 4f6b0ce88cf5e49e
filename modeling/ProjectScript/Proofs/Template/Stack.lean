import ProjectScript.Proofs.Template.Trace

/-!
# The stack of frames

What a reference with leading dots stands for depends on the stack of frames in force where it is
met. In an expansion that starts on a stack `C` this stack is always `C` with one frame for each
enclosing call, outermost first (`Entry.Disciplined`): nothing of a call is left on the stack when
its neighbours are expanded, and the stack never outgrows the limit on nested calls.

A step of the expansion that goes into a call keeps the discipline (`Entry.Disciplined.within`), and
so a whole expansion has it (`disciplined_of_mem_log`).
-/

namespace ProjectScript.Template

/-! ## Relative references -/

/-- The node that `k` leading dots and a rest name on a stack: they look into the `k`-th frame from
the innermost one. -/
def relative? (frames : List Value) (k : Nat) (rest : String) : Option Value :=
  if h : 0 < k ∧ k ≤ frames.length then frames[frames.length - k].dig rest else none

/-- A path with `k` leading dots. -/
def dotted (k : Nat) (rest : List Char) : String := String.ofList (List.replicate k '.' ++ rest)

theorem globalName?_dotted {k : Nat} (hk : 0 < k) (rest : List Char) :
    globalName? (dotted k rest) = none := by
  obtain ⟨k, rfl⟩ : ∃ n, k = n + 1 := ⟨k - 1, by omega⟩
  have h : globalPrefix.isPrefixOf (dotted (k + 1) rest).toList = false := by
    rw [dotted, String.toList_ofList, List.replicate_succ]
    rfl
  rw [globalName?, h]
  rfl

theorem takeWhile_dots {rest : List Char} (hr : rest.head? ≠ some '.') (k : Nat) :
    (List.replicate k '.' ++ rest).takeWhile (· == '.') = List.replicate k '.' := by
  induction k with
  | zero =>
    cases rest with
    | nil => rfl
    | cons c rest =>
      have hc : c ≠ '.' := fun h => hr (by rw [h]; rfl)
      simp [hc]
  | succ k ih => simp [List.replicate_succ, ih]

theorem lookup_dotted (s : Scope) (frames : List Value) {k : Nat} (hk : 0 < k) {rest : List Char}
    (hr : rest.head? ≠ some '.') :
    lookup s frames (dotted k rest) = relative? frames k (String.ofList rest) := by
  have hdots : ((dotted k rest).toList.takeWhile (· == '.')).length = k := by
    rw [dotted, String.toList_ofList, takeWhile_dots hr, List.length_replicate]
  have hrest : (dotted k rest).toList.drop k = rest := by
    rw [dotted, String.toList_ofList, List.drop_left' List.length_replicate]
  rw [lookup, globalName?_dotted hk, relative?]
  dsimp only
  rw [hdots, hrest, if_neg (by omega)]
  by_cases h : k ≤ frames.length
  · rw [if_pos h, dif_pos ⟨hk, h⟩, List.getElem?_eq_getElem (by omega)]
    rfl
  · rw [if_neg h, dif_neg (by omega)]

/-! ## The discipline -/

/-- The discipline of the stack, for an entry met in an expansion that starts on the stack `C` and
within which `depth` calls may be nested. -/
structure Entry.Disciplined (s : Scope) (C : List Value) (depth : Nat) (e : Entry) : Prop where
  /-- The stack in force is `C` and a frame for each enclosing call. -/
  frames_eq : e.frames = C ++ e.calls.map fun a => frame a.function
  /-- The enclosing calls call the functions that their names stand for. -/
  called : ∀ a ∈ e.calls, function? s a.call.name = some a.function
  depth_le : e.calls.length ≤ depth
  /-- A line belongs to the innermost function. -/
  line : ∀ text, e.event = .line text →
    ∃ a, e.calls.getLast? = some a ∧ text ∈ a.function.script
  /-- A reference is looked up on the stack in force. -/
  config : ∀ path value, e.event = .config path value → value = configValue s e.frames path

namespace Entry.Disciplined

variable {s : Scope} {C : List Value} {depth : Nat} {e : Entry}

/-- **A call keeps the discipline**: what is met while a line is expanded on the stack inside of a
call is met within this call. -/
theorem within {c : Call} {f : Function} (hf : function? s c.name = some f)
    (h : Disciplined s (C ++ [frame f]) depth e) :
    Disciplined s C (depth + 1) (e.within ⟨c, f⟩) where
  frames_eq := by
    rw [Entry.within, h.frames_eq, List.map_cons, List.append_assoc]
    rfl
  called a ha := by
    rcases List.mem_cons.1 ha with rfl | ha
    · exact hf
    · exact h.called a ha
  depth_le := Nat.succ_le_succ h.depth_le
  line text ht := by
    obtain ⟨a, ha, hl⟩ := h.line text ht
    refine ⟨a, ?_, hl⟩
    rw [Entry.within, List.getLast?_cons, ha]
    rfl
  config := h.config

/-- The entry of a line that is expanded. -/
theorem ofLine {c : Call} {f : Function} (hf : function? s c.name = some f) {text : String}
    (ht : text ∈ f.script) :
    Disciplined s C (depth + 1) (Entry.within ⟨c, f⟩ ⟨[], C ++ [frame f], .line text⟩) where
  frames_eq := rfl
  called a ha := by
    rw [List.mem_singleton.1 ha]
    exact hf
  depth_le := Nat.succ_le_succ (Nat.zero_le _)
  line text' h := by
    cases h
    exact ⟨⟨c, f⟩, rfl, ht⟩
  config _ _ h := by cases h

/-- The entry of a reference to the configuration. -/
theorem ofConfig (path : String) :
    Disciplined s C depth ⟨[], C, .config path (configValue s C path)⟩ where
  frames_eq := (List.append_nil C).symm
  called a ha := by cases ha
  depth_le := Nat.zero_le _
  line _ h := by cases h
  config _ _ h := by
    cases h
    rfl

end Entry.Disciplined

/-! ## The stack of a whole expansion -/

variable {s : Scope} {C : List Value} {params : Table String} {text : String} {e : Entry}

theorem disciplined_of_mem_log (he : e ∈ (trace s C params text).log) :
    e.Disciplined s C (callLimit - C.length) :=
  Traced.forall_mem_log (P := fun C depth e => e.Disciplined s C depth)
    (fun _ _ path => .ofConfig path) (fun _ _ _ _ _ hf _ ht => .ofLine hf ht)
    (fun _ _ _ _ _ hf _ h => .within hf h) _ C params text.toList e he

/-- Where a line is expanded, the stack has outgrown the one at the start and is within the
limit. -/
theorem length_frames_of_line (he : e ∈ (trace s C params text).log) {line : String}
    (hl : e.event = .line line) : C.length < e.frames.length ∧ e.frames.length ≤ callLimit := by
  have hd := disciplined_of_mem_log he
  obtain ⟨a, ha, -⟩ := hd.line line hl
  have hne : e.calls ≠ [] := fun h => by
    rw [h] at ha
    cases ha
  have hpos := List.length_pos_iff.2 hne
  have hle := hd.depth_le
  rw [hd.frames_eq, List.length_append, List.length_map]
  omega

/-- **The discipline of the stack.** In the trace of an expansion that starts on a stack `C`, the
stack in force is `C` and one frame for each enclosing call, outermost first. Where the line of a
function is expanded it is longer than `C` and within the limit, so that no line is expanded if `C`
reaches the limit. A reference with `k` leading dots stands for what the rest names in the `k`-th
frame from the innermost one; if that is nothing, it is left empty with one miss, and all misses of
this kind come from such references. -/
theorem stack_discipline (s : Scope) (C : List Value) (params : Table String) (text : String) :
    (trace s C params text).result = render s C params text ∧
      (trace s C params text).log.flatMap (·.event.misses) =
        (render s C params text).misses.filter Miss.isPath ∧
      (callLimit ≤ C.length →
        ∀ e ∈ (trace s C params text).log, ∀ line, e.event ≠ .line line) ∧
      ∀ e ∈ (trace s C params text).log,
        (e.frames = C ++ e.calls.map fun a => frame a.function) ∧
        (∀ a ∈ e.calls, function? s a.call.name = some a.function) ∧
        (∀ line, e.event = .line line →
          (∃ a, e.calls.getLast? = some a ∧ line ∈ a.function.script) ∧
            C.length < e.frames.length ∧ e.frames.length ≤ callLimit) ∧
        ∀ k rest value, 0 < k → rest.head? ≠ some '.' →
          e.event = .config (dotted k rest) value →
          (∀ v, relative? e.frames k (String.ofList rest) = some v → value = .ofText v.inline) ∧
            (relative? e.frames k (String.ofList rest) = none →
              value = .miss (.noSuchPath (dotted k rest))) := by
  have hresult := result_trace s C params text
  refine ⟨hresult, ?_, ?_, ?_⟩
  · rw [← hresult]
    exact reported_trace s C params text
  · intro hC e he line hl
    have := length_frames_of_line he hl
    omega
  · intro e he
    have hd := disciplined_of_mem_log he
    refine ⟨hd.frames_eq, hd.called, fun line hl => ⟨hd.line line hl, ?_⟩, ?_⟩
    · exact length_frames_of_line he hl
    · intro k rest value hk hr hv
      rw [hd.config _ _ hv, configValue, lookup_dotted s e.frames hk hr]
      constructor
      · intro v h
        rw [h]
        rfl
      · intro h
        rw [h]
        rfl

namespace Nested

/-- A function with a parameter, which calls the function below. -/
def outer : Function where
  params := .ofList [("x", { default := some "a" })]
  script := ["_\x7binner()\x7d", "_\x7binner()\x7d"]

/-- A function that looks at the parameter of its caller. -/
def inner : Function where
  script := ["#\x7b..func.params.x.default\x7d"]

/-- The scope of the two functions. -/
def scope : Scope where
  env _ := none
  project := { functions := .ofList [("outer", outer), ("inner", inner)] }
  globals := {}

/-- The look at the caller's parameter, from within two calls. -/
def look : Entry where
  calls := [⟨⟨"outer", ""⟩, outer⟩, ⟨⟨"inner", ""⟩, inner⟩]
  frames := [frame outer, frame inner]
  event := .config (dotted 2 "func.params.x.default".toList) (.ofText "a")

/-- The caller's frame is the one before the last. -/
theorem stack_discipline_nested :
    look ∈ (trace scope [] .empty "_\x7bouter()\x7d").log ∧
      look.frames = [] ++ look.calls.map (fun a => frame a.function) ∧
      relative? look.frames 2 "func.params.x.default" = some (.str "a") ∧
      Expansion.ofText "a" = .ofText (Value.str "a").inline := by
  have hm : look ∈ (trace scope [] .empty "_\x7bouter()\x7d").log := by decide +kernel
  have hr : relative? look.frames 2 "func.params.x.default" = some (.str "a") := by decide +kernel
  obtain ⟨-, -, -, h⟩ := stack_discipline scope [] .empty "_\x7bouter()\x7d"
  obtain ⟨hframes, -, -, hvalue⟩ := h look hm
  exact ⟨hm, hframes, hr, (hvalue 2 _ _ (by decide) (by decide) rfl).1 _ hr⟩

end Nested

end ProjectScript.Template
