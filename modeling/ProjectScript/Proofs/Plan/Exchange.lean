import ProjectScript.Plan.Document
import ProjectScript.Proofs.Json.Printed

/-!
# The exchange of plans

A plan that is handed over as a document comes back as the same plan, whatever texts its steps hold
(`parse_text`, `toPlan_ofPlan`). The other way round a document comes back as the plan's document,
but for its root: this is not kept, but found again among the operations (`ofPlan_toPlan_iff`).
`documents_round_trip` puts both together.
-/

namespace ProjectScript.Plan

namespace Operation

theorem ofStep_toStep (op : Operation) : ofStep op.toStep = op := by cases op <;> rfl

theorem toStep_ofStep (s : Step) : (ofStep s).toStep = s := by cases s <;> rfl

/-- The directory that an operation pushes. -/
def pushed? : Operation → Option String
  | pushd dir => some dir
  | _ => none

theorem entered?_toStep (op : Operation) : entered? op.toStep = op.pushed? := by cases op <;> rfl

/-- The fields of an operation. -/
def fields : Operation → List (String × String)
  | pushd dir => [("kind", "pushd"), ("dir", dir)]
  | popd => [("kind", "popd")]
  | echo msg => [("kind", "echo"), ("msg", msg)]
  | run line => [("kind", "run"), ("line", line)]

/-- The syntax of an operation. -/
def tree (op : Operation) : Json := .obj (op.fields.map fun f => (some f.1, .str (some f.2)))

end Operation

namespace Document

/-- The directory that is pushed first. -/
def pushed? (d : Document) : Option String := d.ops.findSome? Operation.pushed?

/-- The syntax of a document. -/
def tree (d : Document) : Json :=
  .obj [(some "root", .str (some d.root)), (some "ops", .arr (d.ops.map Operation.tree))]

/-! ## Reading what is written -/

theorem reads_opValue (op : Operation) : (opValue op).Reads op.tree := by
  have hfields : opValue op = .obj (op.fields.map fun f => (f.1, .str f.2)) := by
    cases op <;> rfl
  rw [hfields]
  exact Value.reads_obj .str (fun s => .str (some s)) fun f _ => Value.reads_str f.2

theorem reads_toValue (d : Document) : d.toValue.Reads d.tree := by
  have hops : (Value.arr (d.ops.map opValue)).Reads (.arr (d.ops.map Operation.tree)) :=
    Value.reads_arr opValue Operation.tree fun op _ => reads_opValue op
  -- the two fields hold values of different kinds, so each stands with its own syntax
  have hfields : ∀ f ∈ [("root", Value.str d.root, Json.str (some d.root)),
      ("ops", Value.arr (d.ops.map opValue), Json.arr (d.ops.map Operation.tree))],
      f.2.1.Reads f.2.2 := by
    intro f hf
    simp only [List.mem_cons, List.not_mem_nil, or_false] at hf
    rcases hf with rfl | rfl
    · exact Value.reads_str d.root
    · exact hops
  exact Value.reads_obj Prod.fst Prod.snd hfields

theorem readOp_tree (op : Operation) : readOp op.tree = some op := by cases op <;> rfl

theorem readOps_tree (ops : List Operation) :
    readOps (.arr (ops.map Operation.tree)) = some ops := by
  rw [readOps]
  induction ops with
  | nil => rfl
  | cons op ops ih => rw [List.map_cons, List.mapM_cons, readOp_tree, ih]; rfl

theorem ofJson_tree (d : Document) : ofJson d.tree = some d := by
  have hread : ofJson d.tree = (readOps (.arr (d.ops.map Operation.tree))).bind fun ops =>
      some ⟨d.root, ops⟩ := rfl
  rw [hread, readOps_tree]
  rfl

/-- A document that is written is read back. -/
theorem parse_text (d : Document) : parse d.text = some d := by
  rw [parse, text, (reads_toValue d).parse]
  exact ofJson_tree d

/-! ## Plans and documents -/

theorem toPlan_ofPlan (p : Plan) : (ofPlan p).toPlan = p := by
  have hsteps : (p.steps.map Operation.ofStep).map Operation.toStep = p.steps := by
    rw [List.map_map]
    exact List.map_id'' Operation.toStep_ofStep p.steps
  exact congrArg Plan.mk hsteps

theorem map_ofStep_toPlan (d : Document) : d.toPlan.steps.map Operation.ofStep = d.ops := by
  rw [toPlan, List.map_map]
  exact List.map_id'' Operation.ofStep_toStep d.ops

/-- The root of a document's plan is found among its operations. -/
theorem root_toPlan (d : Document) : d.toPlan.root = d.pushed?.getD "." := by
  rw [toPlan, Plan.root, List.findSome?_map, pushed?]
  exact congrArg (fun f => (d.ops.findSome? f).getD ".") (funext Operation.entered?_toStep)

/-- Only the root of a document may be lost. -/
theorem ofPlan_toPlan_iff (d : Document) :
    ofPlan d.toPlan = d ↔ d.root = d.pushed?.getD "." := by
  obtain ⟨r, ops⟩ := d
  rw [ofPlan, map_ofStep_toPlan, root_toPlan, mk.injEq]
  exact ⟨fun h => h.1.symm, fun h => ⟨h.symm, rfl⟩⟩

/-- **Documents carry plans both ways.** The document of a plan, written and read back, is the same
document and gives the same plan. A document, whatever text it was read from, gives a plan of its
own operations in their order; written, it is read back; and the document of its plan is this one
exactly if its root is the directory pushed first, or `.` when none is. -/
theorem documents_round_trip :
    (∀ p : Plan, parse (ofPlan p).text = some (ofPlan p) ∧ (ofPlan p).toPlan = p) ∧
      ∀ d : Document, d.toPlan.steps.map Operation.ofStep = d.ops ∧ parse d.text = some d ∧
        (ofPlan d.toPlan = d ↔ d.root = d.pushed?.getD ".") :=
  ⟨fun p => ⟨parse_text (ofPlan p), toPlan_ofPlan p⟩,
    fun d => ⟨map_ofStep_toPlan d, parse_text d, ofPlan_toPlan_iff d⟩⟩

end Document

end ProjectScript.Plan
