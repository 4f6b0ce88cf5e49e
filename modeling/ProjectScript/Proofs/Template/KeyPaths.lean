import ProjectScript.Proofs.Template.Cutting
import ProjectScript.Proofs.Template.Scopes

/-!
# Key paths

The keys of a dotted path are its parts between the dots; the empty path has none (`Value.route`).
A path names the node that its keys lead to, one key after the other and through objects only
(`Value.Reaches`, `Value.dig_eq_some_iff`). So a path can be followed in two steps
(`Value.dig_append`), it names nothing if another node than an object stands on its way
(`Value.dig_eq_none`), and keys without dots in them can be joined to a path
(`Value.dig_intercalate`).

A path of a template that has no global prefix and starts with no dot looks into the view of the
project (`lookup_of_plain`). The view has no other keys than `info` and `vars` (`view_key?`), so
this path leads somewhere only if one of them is its first key, and behind `vars` it leads through
the variables of the project (`lookup_vars`).
-/

namespace ProjectScript

namespace Value

/-- The nodes of a document by the keys on the way to them: the document itself, and in an object
what lies on along the keys from the value of a key. -/
inductive Reaches : Value → List String → Value → Prop
  | here (v : Value) : Reaches v [] v
  | field {fields : List (String × Value)} {k : String} {ks : List String} {w n : Value} :
      Table.find? k fields = some w → Reaches w ks n → Reaches (.obj fields) (k :: ks) n

/-- The keys of a path. -/
def route (path : String) : List String := if path.isEmpty then [] else keys path

variable {v w n : Value} {ks : List String} {p q path : String}

theorem key?_eq_some_iff {k : String} :
    v.key? k = some w ↔ ∃ fields, v = .obj fields ∧ Table.find? k fields = some w := by
  cases v with
  | obj fields => simp [key?]
  | _ => exact iff_of_false nofun nofun

theorem walk_eq_some_iff : v.walk ks = some n ↔ v.Reaches ks n := by
  induction ks generalizing v with
  | nil =>
    rw [walk, Option.some_inj]
    constructor
    · rintro rfl
      exact .here v
    · rintro ⟨⟩
      rfl
  | cons k ks ih =>
    rw [walk, Option.bind_eq_some_iff]
    constructor
    · rintro ⟨w, hkey, hwalk⟩
      obtain ⟨fields, rfl, hfind⟩ := key?_eq_some_iff.1 hkey
      exact .field hfind (ih.1 hwalk)
    · rintro (_ | ⟨hfind, hreaches⟩)
      exact ⟨_, hfind, ih.2 hreaches⟩

/-! ## The keys of a path -/

theorem route_of_ne_empty (hp : p ≠ "") : route p = keys p :=
  if_neg (mt String.isEmpty_iff.1 hp)

theorem route_ne_nil (hp : p ≠ "") : route p ≠ [] := by
  rw [route_of_ne_empty hp, keys, ne_eq, List.map_eq_nil_iff]
  exact Text.cut_ne_nil '.' p.toList

theorem dig_eq_walk (v : Value) (path : String) : v.dig path = v.walk (route path) := by
  rw [dig, route]
  split <;> rfl

/-- A path names the node that its keys lead to. -/
theorem dig_eq_some_iff : v.dig path = some n ↔ v.Reaches (route path) n := by
  rw [dig_eq_walk, walk_eq_some_iff]

theorem route_append (hp : p ≠ "") (hq : q ≠ "") : route (p ++ "." ++ q) = route p ++ route q := by
  have htext : (p ++ "." ++ q).toList = p.toList ++ '.' :: q.toList := by
    simp [String.toList_append]
  have hne : p ++ "." ++ q ≠ "" := by
    intro h
    rw [h] at htext
    simp at htext
  rw [route_of_ne_empty hne, route_of_ne_empty hp, route_of_ne_empty hq, keys, htext,
    Text.cut_append_sep, List.map_append, keys, keys]

/-- A path is followed in two steps. -/
theorem dig_append (v : Value) (hp : p ≠ "") (hq : q ≠ "") :
    v.dig (p ++ "." ++ q) = (v.dig p).bind fun n => n.dig q := by
  rw [dig_eq_walk, route_append hp hq, walk_append, dig_eq_walk]
  exact congrArg _ (funext fun n => (dig_eq_walk n q).symm)

/-- No key leads on from another node than an object. -/
theorem dig_eq_none {front back : List String} (hroute : route path = front ++ back)
    (hback : back ≠ []) (hn : v.Reaches front n) (hobj : ∀ fields, n ≠ .obj fields) :
    v.dig path = none := by
  obtain ⟨k, back, rfl⟩ := List.exists_cons_of_ne_nil hback
  have hkey : n.key? k = none := by
    rw [Option.eq_none_iff_forall_ne_some]
    intro w hw
    obtain ⟨fields, hfields, -⟩ := key?_eq_some_iff.1 hw
    exact hobj fields hfields
  rw [dig_eq_walk, hroute, walk_append, walk_eq_some_iff.2 hn, Option.bind_some, walk, hkey,
    Option.bind_none]

/-- Keys without dots are the keys of the path that they are joined to. The list of one empty key
is left out: what it is joined to is the empty path. -/
theorem route_intercalate (hne : ks ≠ [""]) (hdot : ∀ k ∈ ks, '.' ∉ k.toList) :
    route (".".intercalate ks) = ks := by
  rcases ks with _ | ⟨k, ks⟩
  · rfl
  have htext : (".".intercalate (k :: ks)).toList =
      Text.join '.' ((k :: ks).map String.toList) := by
    rw [String.toList_intercalate, Text.join_eq_intercalate]
    rfl
  have hjoined : ".".intercalate (k :: ks) ≠ "" := by
    intro h
    rw [h] at htext
    cases ks with
    | nil => exact hne (by rw [String.toList_eq_nil_iff.1 htext.symm])
    | cons l ks => simp [Text.join] at htext
  rw [route_of_ne_empty hjoined, keys, htext,
    Text.cut_join (by simp) (List.forall_mem_map.2 hdot), List.map_map]
  exact List.map_id'' (fun k => String.ofList_toList) _

theorem dig_intercalate (hne : ks ≠ [""]) (hdot : ∀ k ∈ ks, '.' ∉ k.toList) :
    v.dig (".".intercalate ks) = some n ↔ v.Reaches ks n := by
  rw [dig_eq_some_iff, route_intercalate hne hdot]

end Value

namespace Template

/-! ## The view of the project -/

theorem view_key? (p : Project) (k : String) :
    p.view.key? k = if k = "vars" then some (.ofTable p.vars)
      else if k = "info" then some p.info.toValue else none := by
  change (Table.ofList [("info", p.info.toValue), ("vars", .ofTable p.vars)]).get? k = _
  rw [Table.get?_ofList]
  rfl

/-- What the first key of a path into the view is, if the path has keys. -/
theorem head?_of_dig_view {p : Project} {path : String} {v : Value}
    (h : p.view.dig path = some v) : ∀ k ∈ (Value.route path).head?, k = "info" ∨ k = "vars" := by
  intro k hk
  obtain ⟨ks, hroute⟩ := List.head?_eq_some_iff.1 hk
  rw [Value.dig_eq_walk, hroute, Value.walk, Option.bind_eq_some_iff] at h
  obtain ⟨w, hkey, -⟩ := h
  rw [view_key?] at hkey
  by_contra hne
  rw [not_or] at hne
  rw [if_neg hne.2, if_neg hne.1] at hkey
  cases hkey

/-- A path without the global prefix that starts with no dot looks into the view. -/
theorem lookup_of_plain (s : Scope) (frames : List Value) {path : String}
    (hglobal : ¬globalPrefix <+: path.toList) (hdot : path.toList.head? ≠ some '.') :
    lookup s frames path = s.project.view.dig path := by
  have hdots : (path.toList.takeWhile (· == '.')).length = 0 := by
    cases h : path.toList with
    | nil => rfl
    | cons c cs =>
      have hc : c ≠ '.' := fun he => hdot (by rw [h, he]; rfl)
      simp [hc]
  rw [lookup, globalName?_of_not_prefix hglobal]
  dsimp only
  rw [if_pos hdots]

theorem lookup_vars (s : Scope) (frames : List Value) {p : String} (hp : p ≠ "") :
    lookup s frames ("vars." ++ p) = (Value.ofTable s.project.vars).dig p := by
  have htext : ("vars." ++ p).toList = ['v', 'a', 'r', 's', '.'] ++ p.toList := by
    rw [String.toList_append]
    rfl
  have hglobal : ¬globalPrefix <+: ("vars." ++ p).toList := by
    rw [htext]
    rintro ⟨rest, h⟩
    exact absurd (List.cons.inj h).1 (by decide)
  have hdot : ("vars." ++ p).toList.head? ≠ some '.' := by
    rw [htext]
    simp
  have hvars : s.project.view.dig "vars" = some (.ofTable s.project.vars) := by
    change (s.project.view.key? "vars").bind some = _
    rw [view_key?]
    rfl
  have hjoined : "vars." ++ p = "vars" ++ "." ++ p := rfl
  rw [lookup_of_plain s frames hglobal hdot, hjoined, Value.dig_append _ (by decide) hp, hvars,
    Option.bind_some]

/-! ## The paths of a template -/

/-- Each reference of a text is written by a word. -/
theorem exists_word_of_mem_references {ρ : Type} {g : Grammar ρ} {Word : List Char → ρ → Prop}
    (hg : g.Denotes Word) {text : List Char} {r : ρ} (h : r ∈ g.references text) :
    ∃ w, Word w r := by
  unfold Grammar.references at h
  fun_induction g.pieces text with
  | case1 => cases h
  | case2 a cs r' rest hr ih =>
    change r ∈ r' :: (g.pieces rest).filterMap Piece.ref? at h
    rcases List.mem_cons.1 h with rfl | h
    · obtain ⟨w, hw, -⟩ := hg.1 hr
      exact ⟨w, hw⟩
    · exact ih h
  | case3 a cs hr ih =>
    exact ih h

theorem route_ne_nil_of_mem_references {text : List Char} {path : String}
    (h : path ∈ config.references text) : Value.route path ≠ [] := by
  obtain ⟨w, hw⟩ := exists_word_of_mem_references config_denotes h
  obtain ⟨hne, -⟩ := hw
  exact Value.route_ne_nil fun hempty => hne (by simpa using congrArg String.toList hempty)

/-- **Key paths compose and lead to the nested keys.** The node of two paths with a dot between
them is the node that the second one names in that of the first. A path names nothing if one of its
keys is left at another node than an object. Keys without dots, other than a single empty one, name
with dots between them the node that one gets to along them. In the view of the project a path
leads somewhere only if its first key is `info` or `vars`, and each path of a template has a first
key (the path without keys, the empty one, is none of them). Behind `vars` a path leads exactly
where it leads in the variables of the project. -/
theorem paths_lead_to_nested :
    (∀ (r v : Value) (p q : String), p ≠ "" → q ≠ "" →
        (r.dig (p ++ "." ++ q) = some v ↔ ∃ n, r.dig p = some n ∧ n.dig q = some v)) ∧
      (∀ (r n : Value) (path : String) (front back : List String),
        Value.route path = front ++ back → back ≠ [] → r.Reaches front n →
          (∀ fields, n ≠ .obj fields) → r.dig path = none) ∧
      (∀ (r v : Value) (ks : List String), ks ≠ [""] → (∀ k ∈ ks, '.' ∉ k.toList) →
        (r.dig (".".intercalate ks) = some v ↔ r.Reaches ks v)) ∧
      (∀ (s : Scope) (frames : List Value) (path : String) (v : Value),
        ¬globalPrefix <+: path.toList → path.toList.head? ≠ some '.' →
          lookup s frames path = some v →
            ∀ k ∈ (Value.route path).head?, k = "info" ∨ k = "vars") ∧
      (∀ text, ∀ path ∈ config.references text, Value.route path ≠ []) ∧
      ∀ (s : Scope) (frames : List Value) (p : String), p ≠ "" →
        lookup s frames ("vars." ++ p) = (Value.ofTable s.project.vars).dig p := by
  refine ⟨fun r v p q hp hq => ?_, fun r n path front back hroute hback hn hobj => ?_,
    fun r v ks hne hdot => Value.dig_intercalate hne hdot,
    fun s frames path v hglobal hdot h => ?_, fun text path => route_ne_nil_of_mem_references,
    fun s frames p hp => lookup_vars s frames hp⟩
  · rw [Value.dig_append r hp hq, Option.bind_eq_some_iff]
  · exact Value.dig_eq_none hroute hback hn hobj
  · rw [lookup_of_plain s frames hglobal hdot] at h
    exact head?_of_dig_view h

namespace Depot

/-- What lies on a shelf, under an empty key. -/
def shelf : Value := .obj [("", .obj [("box", .num (.int 7))])]

/-- A project with a shelf, and a text with a dot in it. -/
def project : Project where
  info := { name := "depot" }
  vars := .ofList [("label", .str "a.b"), ("shelf", shelf)]

/-- The scope of the project. -/
def scope : Scope := ⟨fun _ => none, project, {}⟩

/-- The box is found in one step, in two and along its keys; the text has no key in it. -/
theorem paths_lead_through_depot :
    (∃ n, project.view.dig "vars.shelf" = some n ∧ n.dig ".box" = some (.num (.int 7))) ∧
      project.view.dig "vars.label.b" = none ∧
      project.view.Reaches ["vars", "shelf", "", "box"] (.num (.int 7)) ∧
      ("info" = "info" ∨ "info" = "vars") ∧
      (Value.ofTable project.vars).dig "shelf..box" = some (.num (.int 7)) := by
  obtain ⟨hcompose, hfail, hkeys, hfirst, -, hvars⟩ := paths_lead_to_nested
  have hbox : project.view.dig "vars.shelf..box" = some (.num (.int 7)) := by decide +kernel
  have hlabel : project.view.Reaches ["vars", "label"] (.str "a.b") :=
    Value.walk_eq_some_iff.1 (by decide +kernel)
  have hname : lookup scope [] "info.name" = some (.str "depot") := by decide +kernel
  refine ⟨?_, ?_, ?_, ?_, ?_⟩
  · exact (hcompose _ _ "vars.shelf" ".box" (by decide) (by decide)).1 hbox
  · exact hfail _ _ _ ["vars", "label"] ["b"] (by decide +kernel) (by decide) hlabel nofun
  · exact (hkeys _ _ ["vars", "shelf", "", "box"] (by decide) (by decide +kernel)).1 hbox
  · exact hfirst scope [] "info.name" _ (by decide +kernel) (by decide +kernel) hname _
      (by decide +kernel)
  · exact (hvars scope [] "shelf..box" (by decide)).symm.trans (by decide +kernel)

end Depot

end Template

end ProjectScript
