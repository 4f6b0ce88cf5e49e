import ProjectScript.Proofs.Registry.File
import ProjectScript.Proofs.Registry.Tokens
import ProjectScript.Proofs.Yaml.Tree

/-!
# The document of the registry's file

The tokens of a registry's text form one complete document (`parse_document`), from which the
registry is read again (`parse_text`). A field is read as its text, since a registry asks for texts
only; so the reading of an entry cannot fail (`entry_entryNode`), nor can that of the list.
-/

namespace ProjectScript.Registry

open Yaml Yaml.Node

/-- A field of an entry as a tree. -/
def fieldNode (name value : String) : Node × Node :=
  (plainly name .plain, plainly value (styleOf value))

/-- An entry as a tree. -/
def entryNode (p : Registered) : Node :=
  .map none none [fieldNode "name" p.name, fieldNode "meta" p.file, fieldNode "root" p.root]

/-- The registered projects as a tree. -/
def tree (ps : List Registered) : Node :=
  .map none none [(plainly "projects" .plain, .seq none none (ps.map entryNode))]

/-! ## From tokens to the tree -/

variable {handles : Handles} {fuel : Nat} {ts : List Token} {names : List (String × Nat)}

theorem blockEntries_entry (p : Registered) :
    blockEntries handles (fuel + 6)
        ⟨fieldTokens "name" p.name ++ fieldTokens "meta" p.file ++ fieldTokens "root" p.root ++
          (.blockEnd :: ts), names⟩ =
      ([fieldNode "name" p.name, fieldNode "meta" p.file, fieldNode "root" p.root],
        some ⟨ts, names⟩) :=
  blockEntries_key (blockEntries_key (blockEntries_key blockEntries_end))

theorem indentlessItems_entries (ps : List Registered) (hf : ps.length + 8 ≤ fuel) :
    indentlessItems handles fuel ⟨entriesTokens ps ++ .blockEnd :: ts, names⟩ =
      (ps.map entryNode, some ⟨.blockEnd :: ts, names⟩) := by
  induction ps generalizing fuel with
  | nil =>
    obtain ⟨fuel, rfl⟩ := Nat.exists_eq_succ_of_ne_zero (Nat.ne_zero_of_lt hf)
    exact indentlessItems_end
  | cons p ps ih =>
    rw [List.length_cons] at hf
    obtain ⟨fuel, rfl⟩ : ∃ n, fuel = n + 6 + 2 := ⟨fuel - 8, by omega⟩
    have htokens : entriesTokens (p :: ps) ++ .blockEnd :: ts =
        .blockEntry :: .blockMappingStart ::
          (fieldTokens "name" p.name ++ fieldTokens "meta" p.file ++ fieldTokens "root" p.root ++
            .blockEnd :: (entriesTokens ps ++ .blockEnd :: ts)) := by
      simp [entriesTokens, entryTokens]
    rw [htokens]
    exact indentlessItems_map (blockEntries_entry p) (ih (by omega))

theorem length_entriesTokens_le (ps : List Registered) : ps.length ≤ (entriesTokens ps).length := by
  induction ps with
  | nil => simp
  | cons p ps ih =>
    have hcons : entriesTokens (p :: ps) = entryTokens p ++ [.blockEnd] ++ entriesTokens ps := rfl
    rw [hcons, List.length_append, List.length_append, List.length_cons, List.length_singleton]
    omega

theorem ofTokens_entries {ps : List Registered} (hps : ps ≠ []) :
    ofTokens (.blockMappingStart :: .key :: .scalar "projects" .plain :: .value ::
      (entriesTokens ps ++ [.blockEnd, .streamEnd])) = (some (tree ps), true) := by
  have hlen := length_entriesTokens_le ps
  obtain ⟨p, ps', hcons⟩ := List.exists_cons_of_ne_nil hps
  obtain ⟨more, hmore⟩ : ∃ more,
      entriesTokens ps ++ [.blockEnd, .streamEnd] = .blockEntry :: more := by
    rw [hcons]
    exact ⟨_, rfl⟩
  rw [hmore]
  have hlength : (entriesTokens ps ++ [Token.blockEnd, .streamEnd]).length =
      (Token.blockEntry :: more).length := congrArg List.length hmore
  obtain ⟨fuel, hfuel, hle⟩ : ∃ fuel, 4 * (Token.blockMappingStart :: .key ::
      .scalar "projects" .plain :: .value :: .blockEntry :: more).length + 8 = fuel + 3 + 1 ∧
        ps.length + 8 ≤ fuel := by
    simp only [List.length_append, List.length_cons] at hlength ⊢
    exact ⟨4 * more.length + 24, by omega, by omega⟩
  have hitems : indentlessItems defaultHandles fuel ⟨.blockEntry :: more, []⟩ =
      (ps.map entryNode, some ⟨[.blockEnd, .streamEnd], []⟩) := by
    rw [← hmore]
    exact indentlessItems_entries ps hle
  have hnode : node defaultHandles true false (fuel + 3 + 1) ⟨.blockMappingStart :: .key ::
      .scalar "projects" .plain :: .value :: .blockEntry :: more, []⟩ =
        (tree ps, some ⟨[.streamEnd], []⟩) :=
    node_map (blockEntries_items hitems blockEntries_end)
  rw [← hfuel] at hnode
  exact ofTokens_map hnode

/-- The document of a registry that is not empty. -/
theorem parse_document {r : Registry} (h : r.projects ≠ []) :
    Document.parse r.text = ⟨some (tree r.projects), true⟩ := by
  rw [Document.parse, tokens_text h]
  simp only [ofTokens_entries h]

/-! ## From the tree to the registry -/

section Decoding

open Decode

variable {d : Document} {depth : Nat}

theorem scalarText_plainly (text : String) (style : Style) :
    scalarText d (plainly text style) = pure text := by
  simp [scalarText, Decode.scalar, follow, plainly]

theorem yamlEntries_map (entries : List (Node × Node)) :
    yamlEntries d ⟨.map none none entries, depth + 1⟩ =
      pure (entries.map fun e => (scalarText d e.1, ⟨e.2, depth⟩)) := by
  simp [yamlEntries, follow]

/-- An entry is read whatever its texts are. -/
theorem entry_entryNode (p : Registered) :
    entry (ofYaml d) ⟨entryNode p, depth + 1⟩ = pure p := by
  rw [entry, Source.record]
  simp [ofYaml, entryNode, yamlEntries_map, fieldNode, scalarText_plainly, Draft.complete, ofOption]

theorem mapM_entries (ps : List Registered) :
    ((ps.map entryNode).map fun n => (⟨n, depth + 1⟩ : YamlPlace)).mapM (entry (ofYaml d)) =
      pure ps := by
  induction ps with
  | nil => rfl
  | cons p ps ih =>
    rw [List.map_cons, List.map_cons, List.mapM_cons, entry_entryNode, pure_bind, ih, pure_bind]

theorem list_entries (ps : List Registered) :
    (ofYaml d).list (entry (ofYaml d)) ⟨.seq none none (ps.map entryNode), depth + 2⟩ =
      pure ps := by
  have hitems : (ofYaml d).items ⟨.seq none none (ps.map entryNode), depth + 2⟩ =
      pure ((ps.map entryNode).map fun n => ⟨n, depth + 1⟩) := by
    simp [ofYaml, follow]
  rw [Source.list, hitems, pure_bind, mapM_entries]

theorem decode_tree (ps : List Registered) :
    decode (ofYaml d) ⟨tree ps, depth + 3⟩ = pure ⟨ps⟩ := by
  have hoptional : (ofYaml d).optional ⟨tree ps, depth + 3⟩ = pure (some ⟨tree ps, depth + 3⟩) := by
    simp [ofYaml, follow, tree]
  have hfields (names : List String) : (ofYaml d).fields names ⟨tree ps, depth + 3⟩ =
      pure [(pure "projects", ⟨.seq none none (ps.map entryNode), depth + 2⟩)] := by
    change yamlEntries d ⟨tree ps, depth + 3⟩ = _
    rw [tree, yamlEntries_map, List.map_singleton, scalarText_plainly]
  rw [decode, hoptional, pure_bind]
  simp [Source.record, hfields, list_entries]

/-- A registry is read from the text that is written for it. -/
theorem parse_text (r : Registry) : parse r.text = some r := by
  by_cases h : r.projects = []
  · obtain ⟨projects⟩ := r
    obtain rfl : projects = [] := h
    exact parse_text_empty
  · let d : Document := ⟨some (tree r.projects), true⟩
    have hdecode : decode (ofYaml d) ⟨tree r.projects, yamlDepth⟩ = pure r :=
      decode_tree r.projects
    have hstart : (pure r : Decode Registry).start = (some r, []) := rfl
    rw [parse, Decode.yaml, parse_document h]
    simp only [Option.getD_some, d] at hdecode ⊢
    rw [hdecode, hstart, if_pos trivial]

end Decoding

end ProjectScript.Registry
