import Mathlib.Data.List.Infix
import ProjectScript.Proofs.CallArguments.Quoted
import ProjectScript.Proofs.Template.Binding
import ProjectScript.Proofs.Template.Cutting
import ProjectScript.Proofs.Template.Scopes

/-!
# A quoted argument

On its way from a call into the body of a function an argument is read over and over: the stages
of the outer text look for references in it, the call looks for its end, the arguments are split and
the value is taken out of its quotes, and then come the stages of the body. A value that is one
line, does not end the arguments of a call and opens no reference (`IsLiteral`) comes through all of
this unchanged (`quoted_argument_arrives`), whatever quotes, commas, braces or backslashes are in it.

The words of each kind open with the same two characters, so a stage leaves a text without this
pair alone (`fill_of_not_opens`); and a text that is one word is replaced as a whole (`fill_word`).
Quotes put marks between the characters of a value, and so bring no pair together that was not
there (`not_infix_quote_append`). That settles each of the readings: what opens a reference and what
ends a call are such pairs.
-/

namespace ProjectScript.Template

open CallArguments (Style IsKey Item marks escape_eq mark_mem_marks mem_quote)

/-! ## Names -/

/-- The name of a parameter or a function. -/
structure IsName (name : String) : Prop where
  ne_empty : name ≠ ""
  isNamePart : ∀ c ∈ name.toList, IsNamePart c

instance (name : String) : Decidable (IsName name) :=
  decidable_of_iff (name ≠ "" ∧ name.toList.all isNameChar = true)
    ⟨fun ⟨hne, hall⟩ => ⟨hne, fun c hc => isNameChar_iff.1 (List.all_eq_true.1 hall c hc)⟩,
      fun ⟨hne, hall⟩ => ⟨hne, List.all_eq_true.2 fun c hc => isNameChar_iff.2 (hall c hc)⟩⟩

theorem not_isNamePart {c : Char} (h : isNameChar c = false) : ¬IsNamePart c := by
  rw [← isNameChar_iff, h]
  exact Bool.false_ne_true

theorem IsNamePart.isSpace_eq_false {c : Char} (h : IsNamePart c) : Text.isSpace c = false := by
  have hrange : 0x2D ≤ c.toNat ∧ c.toNat ≤ 0x7A := by
    rcases h with (⟨hl, hr⟩ | ⟨hl, hr⟩) | ⟨hl, hr⟩ | rfl | rfl | rfl
    any_goals decide
    all_goals
      rw [Char.le_def, UInt32.le_iff_toNat_le] at hl hr
      exact ⟨Nat.le_trans (by decide) hl, Nat.le_trans hr (by decide)⟩
  simp only [Text.isSpace, Bool.or_eq_false_iff, Bool.and_eq_false_iff, decide_eq_false_iff_not,
    beq_eq_false_iff_ne]
  omega

theorem IsName.not_mem {name : String} (h : IsName name) {c : Char} (hc : isNameChar c = false) :
    c ∉ name.toList := fun hmem => not_isNamePart hc (h.isNamePart c hmem)

theorem IsName.isKey {name : String} (h : IsName name) : IsKey name where
  ne_empty := h.ne_empty
  not_mark := by
    intro c hc hmark
    simp only [List.mem_cons, List.not_mem_nil, or_false] at hmark
    rcases hmark with rfl | rfl | rfl | rfl | rfl <;> exact h.not_mem (by decide) hc
  isTrimmed := by
    refine ⟨fun c hc => ?_, fun c hc => ?_⟩
    · exact (h.isNamePart c (List.mem_of_head? hc)).isSpace_eq_false
    · exact (h.isNamePart c (List.mem_of_getLast? hc)).isSpace_eq_false

/-! ## Stages that find no word, or one -/

section

variable {ρ : Type} {g : Grammar ρ} {Word : List Char → ρ → Prop}

/-- A stage fills the exact cutting of its text. -/
theorem fill_eq_of_exact (hg : g.Denotes Word) (value : ρ → Expansion) {c : Cutting ρ}
    (hc : c.Exact Word) : g.fill value c.text = c.fill value := by
  obtain ⟨c', -, -, hunique, hfill⟩ := rewrites_fill hg value c.text
  rw [hfill, hunique c rfl hc]

/-- A text in which no word can open stays as it is. -/
theorem fill_of_not_opens (hg : g.Denotes Word) {opening : List Char}
    (hopens : ∀ {w r}, Word w r → opening <+: w) (value : ρ → Expansion) {text : List Char}
    (h : ¬opening <:+: text) : g.fill value text = ⟨text, []⟩ := by
  have hexact : (⟨text, []⟩ : Cutting ρ).Exact Word := by
    intro before after (htext : text = before ++ after) _ w r rest hw hafter
    rw [List.append_nil] at hafter
    subst htext hafter
    have hword : w <:+: before ++ (w ++ rest) := ⟨before, rest, List.append_assoc ..⟩
    exact h ((hopens hw).isInfix.trans hword)
  have hfill := fill_eq_of_exact hg value hexact
  simpa [Cutting.text, Cutting.fill, Found.text] using hfill

/-- A text that is a word is replaced by the value of the word. -/
theorem fill_word (hg : g.Denotes Word) (value : ρ → Expansion) {w : List Char} {r : ρ}
    (hw : Word w r) : g.fill value w = value r := by
  have hexact : (⟨[], [⟨w, r, []⟩]⟩ : Cutting ρ).Exact Word :=
    ⟨Cutting.clear_nil _, hw, Cutting.clear_nil _⟩
  have hfill := fill_eq_of_exact hg value hexact
  simpa [Cutting.text, Cutting.fill, Found.text] using hfill

end

/-- A reference to a parameter opens no reference to a variable. -/
theorem ParamWord.not_infix_env {w : List Char} {n : String} (h : ParamWord w n) :
    ¬['$', '\x7b'] <:+: w := by
  obtain ⟨-, hname⟩ := h
  intro hinfix
  have hmem := hinfix.subset List.mem_cons_self
  simp only [List.cons_append, List.mem_cons, List.mem_append, List.not_mem_nil, or_false] at hmem
  rcases hmem with h | h | h | h
  · cases h
  · cases h
  · exact not_isNamePart (by decide) (hname _ h)
  · cases h

section

variable {s : Scope} {frames : List Value} {params : Table String} {w : List Char}

theorem Expansion.andThen_of_text (text : List Char) (f : List Char → Expansion) :
    (⟨text, []⟩ : Expansion).andThen f = f text := rfl

/-- A call alone in a text that opens no other reference is expanded in its place. -/
theorem expand_callWord {c : Call} (hw : CallWord w c)
    (h : ∀ a ∈ sigils, a ≠ '_' → ¬[a, '\x7b'] <:+: w) (depth : Nat) :
    expand s depth frames params w = expandCall s (lineExpander? s depth) frames c := by
  have henv := h '$' (by decide) (by decide)
  have hparam := h '@' (by decide) (by decide)
  have hconfig := h '#' (by decide) (by decide)
  rw [expand_eq, stages]
  rw [fill_of_not_opens env_denotes EnvWord.opens _ henv, Expansion.andThen_of_text]
  rw [fill_of_not_opens param_denotes ParamWord.opens _ hparam, Expansion.andThen_of_text]
  rw [fill_of_not_opens config_denotes ConfigWord.opens _ hconfig, Expansion.andThen_of_text]
  exact fill_word call_denotes _ hw

/-- A parameter alone in a text is replaced by its value, and in a value that opens no reference
nothing is replaced. -/
theorem expand_paramWord {p v : String} (hw : ParamWord w p) (hp : params.get? p = some v)
    (hv : ∀ a ∈ sigils, ¬[a, '\x7b'] <:+: v.toList) (depth : Nat) :
    expand s depth frames params w = ⟨v.toList, []⟩ := by
  have hconfig := hv '#' (by decide)
  have hcall := hv '_' (by decide)
  have hvalue : Expansion.ofOption (params.get? p) (.absentParameter p) = ⟨v.toList, []⟩ := by
    rw [hp]
    rfl
  rw [expand_eq, stages]
  rw [fill_of_not_opens env_denotes EnvWord.opens _ hw.not_infix_env,
    Expansion.andThen_of_text]
  rw [fill_word param_denotes _ hw, hvalue, Expansion.andThen_of_text]
  rw [fill_of_not_opens config_denotes ConfigWord.opens _ hconfig, Expansion.andThen_of_text]
  exact fill_of_not_opens call_denotes CallWord.opens _ hcall

end

/-! ## Pairs of characters -/

section

variable {a b : Char}

theorem pair_infix_cons {c : Char} {s : List Char} :
    [a, b] <:+: c :: s ↔ a = c ∧ s.head? = some b ∨ [a, b] <:+: s := by
  have hsingle : [b] <+: s ↔ s.head? = some b := by cases s <;> simp [eq_comm]
  rw [List.infix_cons_iff, List.cons_prefix_cons, hsingle]

/-- A pair does not start in a text without its first character. -/
theorem pair_infix_append_of_not_mem {s t : List Char} (h : a ∉ s) :
    [a, b] <:+: s ++ t ↔ [a, b] <:+: t := by
  induction s with
  | nil => rfl
  | cons c s ih =>
    rw [List.mem_cons, not_or] at h
    rw [List.cons_append, pair_infix_cons, ih h.2, or_iff_right fun hc => h.1 hc.1]

variable (ha : a ∉ marks) (hb : b ∉ marks)
include ha hb

omit ha in
/-- Between the marks the first character of a value is its own or a mark. -/
theorem head?_escape_append (style : Style) {v t : List Char} (hv : v.head? ≠ some b)
    (ht : t.head? ≠ some b) : (v.flatMap style.escape ++ t).head? ≠ some b := by
  cases v with
  | nil => exact ht
  | cons c v =>
    rcases escape_eq style c with he | ⟨m, hm, he⟩
    · rw [List.flatMap_cons, he]
      exact hv
    · rw [List.flatMap_cons, he]
      exact fun h => hb (Option.some.inj h ▸ hm)

/-- Between the marks a pair stands only where it stood in the value. -/
theorem not_infix_escape_append (style : Style) {v t : List Char} (hv : ¬[a, b] <:+: v)
    (hhead : t.head? ≠ some b) (ht : ¬[a, b] <:+: t) :
    ¬[a, b] <:+: v.flatMap style.escape ++ t := by
  induction v with
  | nil => exact ht
  | cons c v ih =>
    rw [pair_infix_cons, not_or, not_and] at hv
    obtain ⟨hc, hv⟩ := hv
    have hrest : ¬[a, b] <:+: c :: (v.flatMap style.escape ++ t) := by
      rw [pair_infix_cons, not_or, not_and]
      exact ⟨fun hac => head?_escape_append hb style (hc hac) hhead, ih hv⟩
    rcases escape_eq style c with he | ⟨m, hm, he⟩
    · rw [List.flatMap_cons, he]
      exact hrest
    · rw [List.flatMap_cons, he]
      change ¬[a, b] <:+: m :: (c :: (v.flatMap style.escape ++ t))
      rw [pair_infix_cons, not_or]
      exact ⟨fun h => ha (h.1 ▸ hm), hrest⟩

/-- A pair that stands neither in a value nor behind its quotes stands nowhere in both. -/
theorem not_infix_quote_append (style : Style) {v t : List Char} (hv : ¬[a, b] <:+: v)
    (ht : ¬[a, b] <:+: t) : ¬[a, b] <:+: style.quote v ++ t := by
  have hmark := mark_mem_marks style
  have hne : a ∉ [style.mark] := fun h => ha (List.mem_singleton.1 h ▸ hmark)
  have hclose : ¬[a, b] <:+: [style.mark] ++ t := by rwa [pair_infix_append_of_not_mem hne]
  have hhead : ([style.mark] ++ t).head? ≠ some b := fun h => hb (Option.some.inj h ▸ hmark)
  have hbody := not_infix_escape_append ha hb style hv hhead hclose
  rw [← pair_infix_append_of_not_mem hne] at hbody
  simpa [Style.quote] using hbody

end

/-! ## The text of a call -/

/-- The text between the parentheses of a call that binds one parameter to a quoted value. -/
def quotedArgument (param value : String) (style : Style) : String :=
  String.ofList (param.toList ++ '=' :: style.quote value.toList)

/-- A call of a function that binds one parameter to a quoted value. -/
def quotedCall (name param value : String) (style : Style) : String :=
  "_\x7b" ++ name ++ "(" ++ quotedArgument param value style ++ ")\x7d"

/-- A value that comes through as it is: it is one line, does not end the arguments of a call and
opens no reference. -/
structure IsLiteral (v : List Char) : Prop where
  oneLine : '\n' ∉ v
  noEnd : ¬[')', '\x7d'] <:+: v
  noOpening : ∀ a ∈ sigils, ¬[a, '\x7b'] <:+: v

instance (v : List Char) : Decidable (IsLiteral v) :=
  decidable_of_iff ('\n' ∉ v ∧ ¬[')', '\x7d'] <:+: v ∧
      (sigils.all fun a => !decide ([a, '\x7b'] <:+: v)) = true)
    ⟨fun ⟨hline, hend, hopening⟩ => ⟨hline, hend, by simpa using hopening⟩,
      fun ⟨hline, hend, hopening⟩ => ⟨hline, hend, by simpa using hopening⟩⟩

section

variable {name param value : String} {style : Style}

theorem toList_quotedCall : (quotedCall name param value style).toList =
    '_' :: '\x7b' :: name.toList ++ '(' :: (quotedArgument param value style).toList ++
      [')', '\x7d'] := by
  simp [quotedCall, String.toList_append]

/-- The arguments bind the parameter to the value. -/
theorem parse_quotedArgument (hp : IsName param) :
    CallArguments.parse (quotedArgument param value style) = Table.ofList [(param, value)] := by
  let item : Item :=
    { key := param, value, style, lead := .none, beforeSign := .none, behindSign := .none
      trail := .none, isKey := hp.isKey }
  have htext : quotedArgument param value style = CallArguments.argumentText [item] := by
    simp [quotedArgument, CallArguments.argumentText, Text.join, Item.text, Item.core, item,
      CallArguments.Blanks.none]
  rw [htext]
  exact CallArguments.parse_argumentText [item]

theorem callWord_quotedCall (hn : IsName name) (hp : IsName param) (hv : IsLiteral value.toList) :
    CallWord (quotedCall name param value style).toList
      ⟨name, quotedArgument param value style⟩ := by
  have hname : name.toList ≠ [] := mt String.toList_eq_nil_iff.1 hn.ne_empty
  have hline : '\n' ∉ (quotedArgument param value style).toList := by
    rw [quotedArgument, String.toList_ofList, List.mem_append, List.mem_cons, not_or, not_or]
    refine ⟨hp.not_mem (by decide), by decide, fun h => ?_⟩
    exact (mem_quote h).elim (by decide) hv.oneLine
  have hend : ¬[')', '\x7d'] <:+: (quotedArgument param value style).toList := by
    have hfront : ')' ∉ param.toList ++ ['='] := by
      rw [List.mem_append, not_or]
      exact ⟨hp.not_mem (by decide), by decide⟩
    have hquote := not_infix_quote_append (by decide) (by decide) style hv.noEnd (t := [])
      (by decide)
    rw [← pair_infix_append_of_not_mem hfront] at hquote
    simpa [quotedArgument] using hquote
  have hword := CallWord.intro hname hn.isNamePart hline hend
  rw [String.ofList_toList, String.ofList_toList] at hword
  rwa [toList_quotedCall]

/-- The text of the call opens no other reference than the call. -/
theorem not_infix_quotedCall (hn : IsName name) (hp : IsName param) (hv : IsLiteral value.toList)
    {a : Char} (ha : a ∈ sigils) (hne : a ≠ '_') :
    ¬[a, '\x7b'] <:+: (quotedCall name param value style).toList := by
  have hclass : isNameChar a = false ∧ a ∉ marks ∧ a ∉ ['_', '\x7b', '(', '=', ')', '\x7d'] := by
    simp only [sigils, List.mem_cons, List.not_mem_nil, or_false] at ha
    rcases ha with rfl | rfl | rfl | rfl
    any_goals decide
    exact (hne rfl).elim
  obtain ⟨hpart, hmark, hplain⟩ := hclass
  simp only [List.mem_cons, List.not_mem_nil, or_false, not_or] at hplain
  have hfront : a ∉ '_' :: '\x7b' :: name.toList ++ '(' :: param.toList ++ ['='] := by
    simp [hn.not_mem hpart, hp.not_mem hpart, hplain]
  have hback : ¬[a, '\x7b'] <:+: [')', '\x7d'] := fun h =>
    absurd (h.subset (List.mem_cons_of_mem _ List.mem_cons_self)) (by decide)
  have hquote := not_infix_quote_append hmark (by decide) style (hv.noOpening a ha) hback
  rw [← pair_infix_append_of_not_mem hfront] at hquote
  simpa [toList_quotedCall, quotedArgument] using hquote

end

/-! ## The called function -/

theorem function?_project (s : Scope) {name : String} (h : ¬globalPrefix <+: name.toList) :
    function? s name = s.project.functions.get? name := by
  rw [function?, globalName?_of_not_prefix h]

theorem function?_global (s : Scope) (name : String) :
    function? s ("global." ++ name) = s.globals.functions.get? name := by
  have hlist : ("global." ++ name).toList = globalPrefix ++ name.toList := String.toList_append
  have hprefix : globalPrefix <+: ("global." ++ name).toList := ⟨name.toList, hlist.symm⟩
  rw [function?, globalName?_of_prefix hprefix, hlist, List.drop_left, String.ofList_toList]

/-- The function is one line with a parameter alone in it, and each other parameter that it
requires has a default. -/
structure Echoes (f : Function) (param : String) : Prop where
  isName : IsName param
  script : f.script = ["@\x7b" ++ param ++ "\x7d"]
  hasDefault : ∀ name q, f.params.get? name = some q → q.required = true → name ≠ param →
    ∃ d, q.default = some d ∧ d ≠ ""

section

variable {s : Scope} {f : Function} {name param value : String} {style : Style}

theorem get?_bind_quotedArgument (hp : IsName param) (other : String) :
    (bind f (quotedArgument param value style)).get? other =
      if other = param then some value else (f.params.get? other).bind Parameter.seed := by
  rw [get?_bind, parse_quotedArgument hp, Table.get?_ofList]
  by_cases h : other = param <;> simp [Table.find?, h]

theorem unbound?_quotedArgument (hf : Echoes f param) :
    unbound? f (bind f (quotedArgument param value style)) = none := by
  refine unbound?_eq_none_iff.2 ?_
  rintro other ⟨q, hq, hrequired⟩
  rw [get?_bind_quotedArgument hf.isName]
  by_cases h : other = param
  · rw [if_pos h]
    exact Option.some_ne_none value
  · obtain ⟨d, hd, hne⟩ := hf.hasDefault other q hq hrequired h
    simp [h, hq, Parameter.seed, hd, hne]

theorem paramWord_reference (hp : IsName param) :
    ParamWord ("@\x7b" ++ param ++ "\x7d").toList param := by
  have hne : param.toList ≠ [] := mt String.toList_eq_nil_iff.1 hp.ne_empty
  have hword := ParamWord.intro hne hp.isNamePart
  rw [String.ofList_toList] at hword
  simpa [String.toList_append] using hword

/-- The body of the function is the value. -/
theorem expandCall_quotedArgument (hf : Echoes f param) (hfun : function? s name = some f)
    (hv : IsLiteral value.toList) (depth : Nat) (frames : List Value) :
    expandCall s (some (expand s depth)) frames ⟨name, quotedArgument param value style⟩ =
      ⟨value.toList, []⟩ := by
  have hget : (bind f (quotedArgument param value style)).get? param = some value := by
    rw [get?_bind_quotedArgument hf.isName, if_pos rfl]
  rw [expandCall, hfun]
  dsimp only
  rw [unbound?_quotedArgument hf, hf.script]
  exact expand_paramWord (paramWord_reference hf.isName) hget hv.noOpening depth

end

/-- **A quoted argument arrives unchanged.** A function shows a parameter, and whatever else it
requires has a default. As long as one more call may be made, calling it in either scope with a
literal value in quotes of either kind gives this value, and nothing is missed. -/
theorem quoted_argument_arrives (s : Scope) {frames : List Value}
    (hframes : frames.length < callLimit) (params : Table String) {f : Function} {param : String}
    (hf : Echoes f param) {value : String} (hv : IsLiteral value.toList) (style : Style)
    {name : String} (hname : ∀ c ∈ name.toList, IsNamePart c) :
    (name ≠ "" → ¬globalPrefix <+: name.toList → s.project.functions.get? name = some f →
        render s frames params (quotedCall name param value style) = ⟨value.toList, []⟩) ∧
      (s.globals.functions.get? name = some f →
        render s frames params (quotedCall ("global." ++ name) param value style) =
          ⟨value.toList, []⟩) := by
  have hcall : ∀ called, IsName called → function? s called = some f →
      render s frames params (quotedCall called param value style) = ⟨value.toList, []⟩ := by
    intro called hcalled hfun
    obtain ⟨depth, hdepth⟩ : ∃ depth, callLimit - frames.length = depth + 1 :=
      ⟨callLimit - frames.length - 1, by omega⟩
    have hword : CallWord (quotedCall called param value style).toList _ :=
      callWord_quotedCall hcalled hf.isName hv
    have hquiet : ∀ a ∈ sigils, a ≠ '_' →
        ¬[a, '\x7b'] <:+: (quotedCall called param value style).toList :=
      fun a ha hne => not_infix_quotedCall hcalled hf.isName hv ha hne
    rw [render, renderWithin, hdepth, expand_callWord hword hquiet]
    exact expandCall_quotedArgument hf hfun hv depth frames
  constructor
  · intro hne hprefix hproject
    exact hcall name ⟨hne, hname⟩ ((function?_project s hprefix).trans hproject)
  · intro hglobal
    have hcalled : IsName ("global." ++ name) := by
      have hprefix : "global.".toList.all isNameChar = true := by decide
      refine ⟨by simp, fun c hc => ?_⟩
      rw [String.toList_append, List.mem_append] at hc
      exact hc.elim (fun hc => isNameChar_iff.1 (List.all_eq_true.1 hprefix c hc)) (hname c)
    exact hcall _ hcalled ((function?_global s name).trans hglobal)

namespace Echo

/-- A function of one line, with a parameter that has a default next to the one that it shows. -/
def function : Function where
  params := .ofList [("p", { required := true }), ("tone", { required := true, default := "dry" })]
  script := ["@\x7bp\x7d"]

/-- The function in both scopes. -/
def scope : Scope where
  env _ := none
  project := { functions := .ofList [("echo", function)] }
  globals := { functions := .ofList [("echo", function)] }

/-- A value with both kinds of quotes, backslashes, the marks of all kinds of references and the
parts of the end of a call. -/
def value : String := "it's \"x=1\", \\ (\x7by\x7d)) \x7d$@#_"

/-- As many frames as may stand when one more call is made. -/
def frames : List Value := List.replicate 31 .null

theorem echoes_function : Echoes function "p" where
  isName := by decide
  script := by decide
  hasDefault := by
    intro name q hq _ hne
    have htone : function.params.get? name =
        if name = "tone" then some { required := true, default := "dry" } else none := by
      simp [function, Table.get?_ofList, Table.find?, hne]
    rw [htone, Option.ite_none_right_eq_some] at hq
    obtain rfl := Option.some.inj hq.2
    exact ⟨"dry", rfl, by decide⟩

/-- The value arrives in either kind of quotes, from either scope. -/
theorem quoted_argument_arrives_below_limit :
    frames.length < callLimit ∧ Echoes function "p" ∧ IsLiteral value.toList ∧
      (∀ c ∈ "echo".toList, IsNamePart c) ∧ ¬globalPrefix <+: "echo".toList ∧
      scope.project.functions.get? "echo" = some function ∧
      scope.globals.functions.get? "echo" = some function ∧
      quotedCall "echo" "p" value .single =
        "_\x7becho(p='it''s \"x=1\", \\ (\x7by\x7d)) \x7d$@#_')\x7d" ∧
      render scope frames .empty (quotedCall "echo" "p" value .single) = ⟨value.toList, []⟩ ∧
      render scope frames .empty (quotedCall "global.echo" "p" value .double) =
        ⟨value.toList, []⟩ := by
  have hframes : frames.length < callLimit := by decide
  have hvalue : IsLiteral value.toList := by decide +kernel
  have hname : ∀ c ∈ "echo".toList, IsNamePart c := (by decide : IsName "echo").isNamePart
  have hprefix : ¬globalPrefix <+: "echo".toList := by decide
  have hproject : scope.project.functions.get? "echo" = some function := by decide +kernel
  have hglobal : scope.globals.functions.get? "echo" = some function := by decide +kernel
  obtain ⟨hsingle, -⟩ :=
    quoted_argument_arrives scope hframes .empty echoes_function hvalue .single hname
  obtain ⟨-, hdouble⟩ :=
    quoted_argument_arrives scope hframes .empty echoes_function hvalue .double hname
  exact ⟨hframes, echoes_function, hvalue, hname, hprefix, hproject, hglobal, by decide +kernel,
    hsingle (by decide) hprefix hproject, hdouble hglobal⟩

end Echo

end ProjectScript.Template
