import ProjectScript.Yaml.Node

/-!
# Trees of block collections

How tokens without anchors and tags become nodes: a scalar (`node_scalar`), the entries of a block
mapping (`blockEntries_key`), and a sequence of mappings that is not deeper than the mapping around
it (`indentlessItems_map`).
-/

namespace ProjectScript.Yaml.Node

variable {handles : Handles} {inBlock indentless : Bool} {fuel : Nat} {ts : List Token}
  {names : List (String × Nat)} {text k v : String} {style ks vs : Style}

/-- A scalar without anchor and tag. -/
def plainly (text : String) (style : Style) : Node := scalar none ⟨text, style, none⟩

theorem node_scalar :
    node handles inBlock indentless (fuel + 1) ⟨.scalar text style :: ts, names⟩ =
      (plainly text style, some ⟨ts, names⟩) := by
  rw [node]
  simp [properties, fullTag?, Remaining.name, Remaining.at, plainly]

theorem blockPart_scalar :
    blockPart handles (fuel + 2) ⟨.scalar text style :: ts, names⟩ =
      (plainly text style, some ⟨ts, names⟩) := by
  rw [blockPart, node_scalar]

theorem blockEntries_end :
    blockEntries handles (fuel + 1) ⟨.blockEnd :: ts, names⟩ = ([], some ⟨ts, names⟩) := by
  rw [blockEntries]
  rfl

/-- An entry of a block mapping, and the entries behind it. -/
theorem blockEntries_key {es : List (Node × Node)} {r : Option Remaining}
    (h : blockEntries handles (fuel + 2) ⟨ts, names⟩ = (es, r)) :
    blockEntries handles (fuel + 3)
        ⟨.key :: .scalar k ks :: .value :: .scalar v vs :: ts, names⟩ =
      ((plainly k ks, plainly v vs) :: es, r) := by
  rw [blockEntries]
  simp only [Remaining.at, blockPart_scalar, h]

theorem node_map {es : List (Node × Node)} {r : Option Remaining}
    (h : blockEntries handles fuel ⟨ts, names⟩ = (es, r)) :
    node handles true indentless (fuel + 1) ⟨.blockMappingStart :: ts, names⟩ =
      (map none none es, r) := by
  rw [node]
  simp [properties, fullTag?, Remaining.name, Remaining.at, h]

theorem node_indentless {items : List Node} {r : Option Remaining}
    (h : indentlessItems handles fuel ⟨.blockEntry :: ts, names⟩ = (items, r)) :
    node handles inBlock true (fuel + 1) ⟨.blockEntry :: ts, names⟩ =
      (seq none none items, r) := by
  rw [node]
  simp [properties, fullTag?, Remaining.name, Remaining.at, h]

/-- An item that is a mapping, and the items behind it. -/
theorem indentlessItems_map {es : List (Node × Node)} {items : List Node} {ts' : List Token}
    {names' : List (String × Nat)} {r : Option Remaining}
    (h : blockEntries handles fuel ⟨ts, names⟩ = (es, some ⟨ts', names'⟩))
    (h' : indentlessItems handles (fuel + 1) ⟨ts', names'⟩ = (items, r)) :
    indentlessItems handles (fuel + 2) ⟨.blockEntry :: .blockMappingStart :: ts, names⟩ =
      (map none none es :: items, r) := by
  rw [indentlessItems]
  simp only [Remaining.at, node_map h, h']

theorem indentlessItems_end :
    indentlessItems handles (fuel + 1) ⟨.blockEnd :: ts, names⟩ =
      ([], some ⟨.blockEnd :: ts, names⟩) := by
  rw [indentlessItems]

/-- An entry whose value is a sequence, and the entries behind it. -/
theorem blockEntries_items {es : List (Node × Node)} {items : List Node} {ts' : List Token}
    {names' : List (String × Nat)} {r : Option Remaining}
    (h : indentlessItems handles fuel ⟨.blockEntry :: ts, names⟩ = (items, some ⟨ts', names'⟩))
    (h' : blockEntries handles (fuel + 2) ⟨ts', names'⟩ = (es, r)) :
    blockEntries handles (fuel + 3) ⟨.key :: .scalar k ks :: .value :: .blockEntry :: ts, names⟩ =
      ((plainly k ks, seq none none items) :: es, r) := by
  have hpart : blockPart handles (fuel + 2) ⟨.blockEntry :: ts, names⟩ =
      (seq none none items, some ⟨ts', names'⟩) := by
    rw [blockPart, node_indentless h]
  rw [blockEntries]
  simp only [Remaining.at, blockPart_scalar, hpart, h']

/-- A document that is a block mapping. -/
theorem ofTokens_map {n : Node} {r : Remaining}
    (h : node defaultHandles true false (4 * (Token.blockMappingStart :: ts).length + 8)
      ⟨.blockMappingStart :: ts, []⟩ = (n, some r)) :
    ofTokens (.blockMappingStart :: ts) = (some n, isOver r.tokens) := by
  rw [ofTokens.eq_def]
  simp only [h, Option.any_some]

end ProjectScript.Yaml.Node
