import ProjectScript.Yaml.Scan

/-!
# Nodes

The tree of a YAML document. An anchored node carries a number, an alias the number of the node it
stands for. Where the text stops making sense the tree ends with a `broken` node: what stands
before it can still be read.

* `Node.ofTokens`: the tree of the first document of a text, and whether the text holds nothing
  else and was read to its end;
* `Node.target?`: the node that an alias stands for.
-/

namespace ProjectScript.Yaml

/-- A scalar: its text, its style and its tag. -/
structure Scalar where
  text : String
  style : Style
  tag : Option String
  deriving DecidableEq, Repr

/-- A node of a document. -/
inductive Node
  | scalar (anchor : Option Nat) (s : Scalar)
  | seq (anchor : Option Nat) (tag : Option String) (items : List Node)
  | map (anchor : Option Nat) (tag : Option String) (entries : List (Node × Node))
  | reference (target : Nat)
  | broken
  deriving Repr

namespace Node

instance : Inhabited Node := ⟨broken⟩

/-- A scalar without text. -/
def empty : Node := scalar none ⟨"", .plain, none⟩

/-- What remains to be read: the tokens, and the numbers that names stand for. -/
structure Remaining where
  tokens : List Token
  names : List (String × Nat)

/-- A part of a tree, and what remains behind it; nothing remains where the text is broken. -/
abbrev Part (α : Type) := α × Option Remaining

/-- The text is broken here. -/
def stop : Part Node := (broken, none)

/-- The same names with other tokens. -/
def Remaining.at (r : Remaining) (tokens : List Token) : Remaining := { r with tokens := tokens }

/-- Gives a name a number: the count of names so far. A name may be given again. -/
def Remaining.name (r : Remaining) : Option String → Option Nat × Remaining
  | none => (none, r)
  | some n =>
    let id := r.names.length
    (some id, { r with names := (n, id) :: r.names.filter (·.1 ≠ n) })

/-- The anchor and the tag before a node, in either order. -/
structure Properties where
  anchor : Option String
  tag : Option (String × String)

/-- Reads the properties of a node. -/
def properties (ts : List Token) : Properties × List Token :=
  match ts with
  | .anchor n :: .tag h s :: ts => (⟨some n, some (h, s)⟩, ts)
  | .anchor n :: ts => (⟨some n, none⟩, ts)
  | .tag h s :: .anchor n :: ts => (⟨some n, some (h, s)⟩, ts)
  | .tag h s :: ts => (⟨none, some (h, s)⟩, ts)
  | ts => (⟨none, none⟩, ts)

/-- The handles of tags and what they stand for. -/
abbrev Handles := List (String × String)

/-- The handles that every document knows. -/
def defaultHandles : Handles := [("!", "!"), ("!!", "tag:yaml.org,2002:")]

/-- The full name of a tag; none when its handle is unknown. -/
def fullTag? (handles : Handles) : Option (String × String) → Option (Option String)
  | none => some none
  | some (h, s) =>
    if h.isEmpty then some (some s) else (handles.lookup h).map fun lead => some (lead ++ s)

/-- The tokens of an entry; a comma separates it from the one before. -/
def separated (first : Bool) : List Token → Option (List Token)
  | .flowEntry :: ts => some (if first then .flowEntry :: ts else ts)
  | ts => if first then some ts else none

mutual

/-- Reads a node. Outside flow collections a block collection may start here, and in a mapping a
sequence may start without being deeper. -/
def node (handles : Handles) (inBlock indentless : Bool) : (fuel : Nat) → Remaining → Part Node
  | 0, _ => stop
  | fuel + 1, r =>
    match r.tokens with
    | .reference n :: ts =>
      match r.names.lookup n with
      | some id => (reference id, some (r.at ts))
      | none => stop
    | ts =>
      let (ps, ts) := properties ts
      match fullTag? handles ps.tag with
      | none => stop
      | some tag =>
        let (anchor, named) := r.name ps.anchor
        match ts with
        | [] => stop
        | t :: rest =>
          if indentless ∧ t = .blockEntry then
            let (items, r) := indentlessItems handles fuel (named.at ts)
            (seq anchor tag items, r)
          else
            match t with
            | .scalar text style =>
              let tag := tag.filter (· ≠ "!")
              (scalar anchor ⟨text, style, tag⟩, some (named.at rest))
            | .flowSequenceStart =>
              let (items, r) := flowItems handles true fuel (named.at rest)
              (seq anchor tag items, r)
            | .flowMappingStart =>
              let (entries, r) := flowEntries handles true fuel (named.at rest)
              (map anchor tag entries, r)
            | .blockSequenceStart =>
              if inBlock then
                let (items, r) := blockItems handles fuel (named.at rest)
                (seq anchor tag items, r)
              else stop
            | .blockMappingStart =>
              if inBlock then
                let (entries, r) := blockEntries handles fuel (named.at rest)
                (map anchor tag entries, r)
              else stop
            | _ =>
              if ps.anchor.isSome ∨ ps.tag.isSome then
                (scalar anchor ⟨"", .plain, tag⟩, some (named.at ts))
              else stop

/-- Reads the items of a block sequence, each behind its dash. -/
def blockItems (handles : Handles) : (fuel : Nat) → Remaining → Part (List Node)
  | 0, _ => ([broken], none)
  | fuel + 1, r =>
    match r.tokens with
    | .blockEnd :: ts => ([], some (r.at ts))
    | .blockEntry :: ts =>
      let (v, r) :=
        match ts with
        | .blockEntry :: _ | .blockEnd :: _ => (empty, some (r.at ts))
        | _ => node handles true false fuel (r.at ts)
      match r with
      | none => ([v], none)
      | some r =>
        let (vs, r) := blockItems handles fuel r
        (v :: vs, r)
    | _ => ([broken], none)

/-- Reads the items of a sequence that is not deeper than the mapping around it. -/
def indentlessItems (handles : Handles) : (fuel : Nat) → Remaining → Part (List Node)
  | 0, _ => ([broken], none)
  | fuel + 1, r =>
    match r.tokens with
    | [] => ([broken], none)
    | .blockEntry :: ts =>
      let (v, r) :=
        match ts with
        | .blockEntry :: _ | .key :: _ | .value :: _ | .blockEnd :: _ => (empty, some (r.at ts))
        | _ => node handles true false fuel (r.at ts)
      match r with
      | none => ([v], none)
      | some r =>
        let (vs, r) := indentlessItems handles fuel r
        (v :: vs, r)
    | _ => ([], some r)

/-- Reads a key or a value of a block mapping. -/
def blockPart (handles : Handles) : (fuel : Nat) → Remaining → Part Node
  | 0, _ => stop
  | fuel + 1, r =>
    match r.tokens with
    | .key :: _ | .value :: _ | .blockEnd :: _ => (empty, some r)
    | _ => node handles true true fuel r

/-- Reads the entries of a block mapping. -/
def blockEntries (handles : Handles) : (fuel : Nat) → Remaining → Part (List (Node × Node))
  | 0, _ => ([(broken, broken)], none)
  | fuel + 1, r =>
    match r.tokens with
    | .blockEnd :: ts => ([], some (r.at ts))
    | .key :: ts =>
      let (k, r) := blockPart handles fuel (r.at ts)
      match r with
      | none => ([(k, broken)], none)
      | some r =>
        let (v, r) :=
          match r.tokens with
          | [] => stop
          | .value :: ts => blockPart handles fuel (r.at ts)
          | _ => (empty, some r)
        match r with
        | none => ([(k, v)], none)
        | some r =>
          let (es, r) := blockEntries handles fuel r
          ((k, v) :: es, r)
    | _ => ([(broken, broken)], none)

/-- Reads the items of a flow sequence, and the bracket that closes it. A single pair stands for a
mapping. -/
def flowItems (handles : Handles) (first : Bool) : (fuel : Nat) → Remaining → Part (List Node)
  | 0, _ => ([broken], none)
  | fuel + 1, r =>
    match r.tokens with
    | .flowSequenceEnd :: ts => ([], some (r.at ts))
    | ts =>
      match separated first ts with
      | none => ([broken], none)
      | some ts =>
        match ts with
        | .flowSequenceEnd :: ts => ([], some (r.at ts))
        | ts =>
          let (v, r) :=
            match ts with
            | .key :: ts =>
              let (e, r) := flowPair handles fuel (r.at ts)
              (map none none [e], r)
            | ts => node handles false false fuel (r.at ts)
          match r with
          | none => ([v], none)
          | some r =>
            let (vs, r) := flowItems handles false fuel r
            (v :: vs, r)

/-- Reads a pair that is an item of a flow sequence. Where the key is missing, the token that
stands in its place is lost. -/
def flowPair (handles : Handles) : (fuel : Nat) → Remaining → Part (Node × Node)
  | 0, _ => ((broken, broken), none)
  | fuel + 1, r =>
    let (k, r) :=
      match r.tokens with
      | .value :: ts | .flowEntry :: ts | .flowSequenceEnd :: ts => (empty, some (r.at ts))
      | _ => node handles false false fuel r
    match r with
    | none => ((k, broken), none)
    | some r =>
      let (v, r) :=
        match r.tokens with
        | [] => stop
        | .value :: ts =>
          match ts with
          | .flowEntry :: _ | .flowSequenceEnd :: _ => (empty, some (r.at ts))
          | _ => node handles false false fuel (r.at ts)
        | _ => (empty, some r)
      ((k, v), r)

/-- Reads the entries of a flow mapping, and the brace that closes it. -/
def flowEntries (handles : Handles) (first : Bool) :
    (fuel : Nat) → Remaining → Part (List (Node × Node))
  | 0, _ => ([(broken, broken)], none)
  | fuel + 1, r =>
    match r.tokens with
    | .flowMappingEnd :: ts => ([], some (r.at ts))
    | ts =>
      match separated first ts with
      | none => ([(broken, broken)], none)
      | some ts =>
        match ts with
        | .flowMappingEnd :: ts => ([], some (r.at ts))
        | .key :: ts =>
          let (k, r) :=
            match ts with
            | .value :: _ | .flowEntry :: _ | .flowMappingEnd :: _ => (empty, some (r.at ts))
            | _ => node handles false false fuel (r.at ts)
          match r with
          | none => ([(k, broken)], none)
          | some r =>
            let (v, r) :=
              match r.tokens with
              | [] => stop
              | .value :: ts =>
                match ts with
                | .flowEntry :: _ | .flowMappingEnd :: _ => (empty, some (r.at ts))
                | _ => node handles false false fuel (r.at ts)
              | _ => (empty, some r)
            match r with
            | none => ([(k, v)], none)
            | some r =>
              let (es, r) := flowEntries handles false fuel r
              ((k, v) :: es, r)
        | ts =>
          let (k, r) := node handles false false fuel (r.at ts)
          match r with
          | none => ([(k, broken)], none)
          | some r =>
            let (es, r) := flowEntries handles false fuel r
            ((k, empty) :: es, r)

end

/-- Reads the directives before a document: the handles they declare. A version other than 1.1 and
1.2, a second version and a handle declared twice are errors. -/
def directives : Bool → Handles → List Token → Option (Handles × List Token)
  | versioned, handles, .versionDirective major minor :: ts =>
    if versioned ∨ major ≠ 1 ∨ (minor ≠ 1 ∧ minor ≠ 2) then none
    else directives true handles ts
  | versioned, handles, .tagDirective h lead :: ts =>
    if (handles.lookup h).isSome then none else directives versioned ((h, lead) :: handles) ts
  | _, handles, ts => some (handles, ts)

/-- The content of a document behind its first mark. -/
def content (handles : Handles) (fuel : Nat) (ts : List Token) : Part Node :=
  match ts with
  | .versionDirective _ _ :: _ | .tagDirective _ _ :: _ | .documentStart :: _
  | .documentEnd :: _ | .streamEnd :: _ => (empty, some ⟨ts, []⟩)
  | _ => node handles true false fuel ⟨ts, []⟩

/-- Whether nothing but marks that end a document remains. -/
def isOver : List Token → Bool
  | [.streamEnd] => true
  | .documentEnd :: ts => isOver ts
  | _ => false

/-- The tree of the first document, and whether it is the only one and complete. A text without a
document has no tree. -/
def ofTokens (ts : List Token) : Option Node × Bool :=
  let fuel := 4 * ts.length + 8
  let finished (p : Part Node) : Option Node × Bool := (some p.1, p.2.any fun r => isOver r.tokens)
  match ts with
  | [.streamEnd] => (none, true)
  | .versionDirective _ _ :: _ | .tagDirective _ _ :: _ | .documentStart :: _ =>
    match directives false [] ts with
    | some (handles, .documentStart :: ts) =>
      finished (content (handles ++ defaultHandles) fuel ts)
    | _ => (some broken, false)
  | _ => finished (node defaultHandles true false fuel ⟨ts, []⟩)

mutual

/-- The anchored nodes of a tree with their numbers, in the order in which they start. -/
def anchored : Node → List (Nat × Node)
  | scalar a s => a.toList.map (·, scalar a s)
  | seq a t items => a.toList.map (·, seq a t items) ++ anchoredItems items
  | map a t entries => a.toList.map (·, map a t entries) ++ anchoredEntries entries
  | reference _ => []
  | broken => []

/-- The anchored nodes among items. -/
def anchoredItems : List Node → List (Nat × Node)
  | [] => []
  | n :: ns => anchored n ++ anchoredItems ns

/-- The anchored nodes among entries. -/
def anchoredEntries : List (Node × Node) → List (Nat × Node)
  | [] => []
  | (k, v) :: es => anchored k ++ anchored v ++ anchoredEntries es

end

mutual

/-- The count of marks in a tree: one for a scalar or an alias, two for a collection. -/
def weight : Node → Nat
  | scalar _ _ => 1
  | seq _ _ items => 2 + itemsWeight items
  | map _ _ entries => 2 + entriesWeight entries
  | reference _ => 1
  | broken => 0

/-- The count of marks in items. -/
def itemsWeight : List Node → Nat
  | [] => 0
  | n :: ns => weight n + itemsWeight ns

/-- The count of marks in entries. -/
def entriesWeight : List (Node × Node) → Nat
  | [] => 0
  | (k, v) :: es => weight k + weight v + entriesWeight es

end

mutual

/-- Whether a tree was read to its end. -/
def isWhole : Node → Bool
  | scalar _ _ => true
  | seq _ _ items => itemsWhole items
  | map _ _ entries => entriesWhole entries
  | reference _ => true
  | broken => false

/-- Whether items were read to their end. -/
def itemsWhole : List Node → Bool
  | [] => true
  | n :: ns => isWhole n && itemsWhole ns

/-- Whether entries were read to their end. -/
def entriesWhole : List (Node × Node) → Bool
  | [] => true
  | (k, v) :: es => isWhole k && isWhole v && entriesWhole es

end

end Node

/-- A document: its tree, none for a text without one, and whether it is alone and complete. -/
structure Document where
  root : Option Node
  complete : Bool

namespace Document

/-- The document of a text. -/
def parse (text : String) : Document :=
  let (ts, _) := tokens text.toList
  let (root, complete) := Node.ofTokens ts
  ⟨root, complete⟩

/-- The anchored nodes. -/
def anchored (d : Document) : List (Nat × Node) := (d.root.map Node.anchored).getD []

/-- The count of marks. -/
def weight (d : Document) : Nat := (d.root.map Node.weight).getD 0

/-- The node that an alias stands for: the last one with its number. -/
def target? (d : Document) (id : Nat) : Option Node := d.anchored.reverse.lookup id

end Document

end ProjectScript.Yaml
