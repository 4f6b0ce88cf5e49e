import ProjectScript.Proofs.Yaml.Quoted
import ProjectScript.Yaml.Scan

/-!
# Texts and their styles

What is known of a text from the style that was chosen for it (`styled`). In every style it is
written with characters that may stand in a text (`isPrintable_scalar`): those that may not are
escaped in double quotes, and no other style holds them.
-/

namespace ProjectScript.Yaml

/-- What holds of a text when a style is chosen for it. -/
inductive Styled (v : String) : Style → Prop
  | literal (hb : '\n' ∈ v.toList) (hf : fitsLiteral v.toList = true) : Styled v .literal
  | plain (hv : standsForItself v = true) (hf : fitsPlain v.toList = true) : Styled v .plain
  | single (hb : '\n' ∉ v.toList) (hf : fitsSingle v.toList = true) : Styled v .single
  | double : Styled v .double

theorem styled (v : String) : Styled v (styleOf v) := by
  rw [styleOf]
  by_cases hb : '\n' ∈ v.toList
  · rw [if_pos (List.contains_iff_mem.2 hb)]
    by_cases hf : fitsLiteral v.toList = true
    · rw [if_pos hf]
      exact .literal hb hf
    · rw [if_neg hf]
      exact .double
  · rw [if_neg (mt List.contains_iff_mem.1 hb)]
    by_cases hp : (standsForItself v && fitsPlain v.toList) = true
    · rw [if_pos hp]
      rw [Bool.and_eq_true] at hp
      exact .plain hp.1 hp.2
    · rw [if_neg hp]
      by_cases hf : fitsSingle v.toList = true
      · rw [if_pos hf]
        exact .single hb hf
      · rw [if_neg hf]
        exact .double

/-- The empty text is no text in plain style, but a null. -/
theorem ne_nil_of_standsForItself {v : String} (h : standsForItself v = true) : v.toList ≠ [] := by
  intro hv
  have hempty : v = "" := String.toList_inj.1 hv
  rw [hempty] at h
  exact absurd h (by decide)

theorem isWritable_of_not_isSpecial {cs : List Char} (h : isSpecial cs = false) :
    ∀ c ∈ cs, isWritable c = true := by
  rw [isSpecial, Bool.or_eq_false_iff, Bool.not_eq_false', List.all_eq_true] at h
  exact h.1

theorem isWritable_of_fitsLiteral {cs : List Char} (h : fitsLiteral cs = true) :
    ∀ c ∈ cs, isWritable c = true := by
  rw [fitsLiteral, Bool.and_eq_true, Bool.not_eq_true'] at h
  exact isWritable_of_not_isSpecial h.1

theorem isWritable_of_fitsSingle {cs : List Char} (h : fitsSingle cs = true) :
    ∀ c ∈ cs, isWritable c = true := by
  rw [fitsSingle, Bool.and_eq_true, Bool.not_eq_true'] at h
  exact isWritable_of_not_isSpecial h.1

theorem isWritable_of_fitsPlain {cs : List Char} (h : fitsPlain cs = true) :
    ∀ c ∈ cs, isWritable c = true := by
  simp only [fitsPlain, Bool.and_eq_true] at h
  exact isWritable_of_fitsSingle h.1.1.1.1

/-! ## Characters -/

theorem isPrintable_of_isWritable {c : Char} (h : isWritable c = true) : isPrintable c = true := by
  simp only [isWritable, Bool.or_eq_true, Bool.and_eq_true, beq_iff_eq, bne_iff_ne,
    decide_eq_true_eq] at h
  have hvalid : c.toNat < 0xD800 ∨ 0xDFFF < c.toNat ∧ c.toNat < 0x110000 := c.valid
  rcases h with (hbreak | hascii) | hbeyond
  · have hc : c = '\n' := Char.toNat_inj.1 hbreak
    rw [hc]
    rfl
  all_goals
    simp only [isPrintable, Bool.or_eq_true, Bool.and_eq_true, decide_eq_true_eq]
    omega

theorem isPrintable_indented {n : Nat} {char : Char → List Char} {cs : List Char} (broken : Bool)
    (hchar : ∀ c ∈ cs, ∀ d ∈ char c, isPrintable d = true)
    (hcs : ∀ c ∈ cs, isPrintable c = true) :
    ∀ d ∈ indented n char broken cs, isPrintable d = true := by
  induction cs generalizing broken with
  | nil => simp [indented]
  | cons c cs ih =>
    have hrest (b : Bool) := ih b (fun d hd => hchar d (List.mem_cons_of_mem c hd))
      fun d hd => hcs d (List.mem_cons_of_mem c hd)
    intro d hd
    rw [indented] at hd
    split at hd
    · rcases List.mem_cons.1 hd with rfl | hd
      · exact hcs d (List.mem_cons_self ..)
      · exact hrest true d hd
    · simp only [List.mem_append] at hd
      rcases hd with (hd | hd) | hd
      · split at hd
        · rw [List.eq_of_mem_replicate hd]
          rfl
        · cases hd
      · exact hchar c (List.mem_cons_self ..) d hd
      · exact hrest false d hd

theorem isPrintable_singleChar {cs : List Char} (hcs : ∀ c ∈ cs, isPrintable c = true) :
    ∀ c ∈ cs, ∀ d ∈ singleChar c, isPrintable d = true := by
  intro c hc d hd
  rw [singleChar] at hd
  split at hd
  · simp only [List.mem_cons, List.not_mem_nil, or_false, or_self] at hd
    rw [hd]
    rfl
  · rw [List.mem_singleton.1 hd]
    exact hcs c hc

theorem isPrintable_chomping (cs : List Char) : ∀ d ∈ chomping cs, isPrintable d = true := by
  have hcases : chomping cs = [] ∨ chomping cs = ['-'] ∨ chomping cs = ['+'] := by
    rw [chomping]
    repeat' split
    all_goals simp
  rw [← List.all_eq_true]
  rcases hcases with h | h | h <;> rw [h] <;> rfl

theorem isPrintable_hexDigits (k n : Nat) : ∀ d ∈ hexDigits k n, isPrintable d = true := by
  have hdigit : ∀ m < 16, isPrintable (Nat.digitChar m).toUpper = true := by decide
  induction k generalizing n with
  | zero => simp [hexDigits]
  | succ k ih =>
    intro d hd
    rw [hexDigits, List.mem_append, List.mem_singleton] at hd
    rcases hd with hd | rfl
    · exact ih _ d hd
    · exact hdigit _ (Nat.mod_lt n (by decide))

theorem isPrintable_escapeLetter {c letter : Char} (h : escapeLetter? c = some letter) :
    isPrintable letter = true := by
  rw [escapeLetter?] at h
  split at h <;> cases h <;> rfl

theorem isPrintable_escapeWidth {letter : Char} {w : Nat} (h : escapeWidth? letter = some w) :
    isPrintable letter = true := by
  rw [escapeWidth?.eq_def] at h
  split at h <;> first | rfl | cases h

theorem isPrintable_doubleChar (c : Char) : ∀ d ∈ doubleChar c, isPrintable d = true := by
  intro d hd
  rw [doubleChar] at hd
  split at hd
  next hc =>
    rw [List.mem_singleton.1 hd]
    exact isPrintable_of_isWritable hc.1
  next =>
    split at hd
    next letter hletter =>
      simp only [List.mem_cons, List.not_mem_nil, or_false] at hd
      rcases hd with rfl | rfl
      · rfl
      · exact isPrintable_escapeLetter hletter
    next =>
      rcases List.mem_cons.1 hd with rfl | hd
      · rfl
      · obtain ⟨letter, w, -, hwidth, -, -, heq⟩ := numericEscape_cases c
        rw [heq] at hd
        rcases List.mem_cons.1 hd with rfl | hd
        · exact isPrintable_escapeWidth hwidth
        · exact isPrintable_hexDigits w _ d hd

variable {cs : List Char} {d : Char}

theorem isPrintable_literal (n : Nat) (hf : fitsLiteral cs = true) (hd : d ∈ literal n cs) :
    isPrintable d = true := by
  have hw := fun c hc => isPrintable_of_isWritable (isWritable_of_fitsLiteral hf c hc)
  have hlines := isPrintable_indented (n := n) true
    (fun c hc d hd => List.mem_singleton.1 hd ▸ hw c hc) hw
  simp only [literal, List.mem_append, List.mem_cons] at hd
  rcases hd with rfl | (hd | hd) | rfl | hd
  · rfl
  · split at hd
    · rw [List.mem_singleton.1 hd]
      rfl
    · cases hd
  · exact isPrintable_chomping cs d hd
  · rfl
  · exact hlines d hd

theorem isPrintable_single (n : Nat) (hf : fitsSingle cs = true) (hd : d ∈ single n cs) :
    isPrintable d = true := by
  have hw := fun c hc => isPrintable_of_isWritable (isWritable_of_fitsSingle hf c hc)
  have hlines := isPrintable_indented (n := n) false (isPrintable_singleChar hw) hw
  simp only [single, List.mem_append, List.mem_cons, List.not_mem_nil, or_false] at hd
  rcases hd with rfl | (hd | hd) | rfl
  · rfl
  · exact hlines d hd
  · split at hd
    · rw [List.eq_of_mem_replicate hd]
      rfl
    · cases hd
  · rfl

theorem isPrintable_double (hd : d ∈ double cs) : isPrintable d = true := by
  simp only [double, List.mem_append, List.mem_cons, List.mem_flatMap, List.not_mem_nil,
    or_false] at hd
  rcases hd with rfl | ⟨c, -, hd⟩ | rfl
  · rfl
  · exact isPrintable_doubleChar c d hd
  · rfl

/-- A written scalar consists of characters that may stand in a text. -/
theorem isPrintable_scalar (n : Nat) (v : String) : ∀ d ∈ scalar n v, isPrintable d = true := by
  have hbreak : ∀ d ∈ ['\n'], isPrintable d = true := fun d hd => List.mem_singleton.1 hd ▸ rfl
  have hstyled := styled v
  intro d hd
  rw [scalar] at hd
  generalize styleOf v = style at hd hstyled
  cases hstyled with
  | literal hb hf =>
    rcases List.mem_append.1 hd with hd | hd
    · exact isPrintable_literal n hf hd
    · split at hd
      · cases hd
      · exact hbreak d hd
  | plain hv hf =>
    rcases List.mem_append.1 hd with hd | hd
    · exact isPrintable_of_isWritable (isWritable_of_fitsPlain hf d hd)
    · exact hbreak d hd
  | single hb hf =>
    rcases List.mem_append.1 hd with hd | hd
    · exact isPrintable_single n hf hd
    · exact hbreak d hd
  | double =>
    rcases List.mem_append.1 hd with hd | hd
    · exact isPrintable_double hd
    · exact hbreak d hd

end ProjectScript.Yaml
