import QuantGraph.Proofs.Evaluation.Inference
import QuantGraph.Proofs.NDArray.Reading
import QuantGraph.Proofs.Revision.Primitives

/-! Revisions that do not give up. Elementwise operations can be added where the shapes of what they
read stretch to one shape, and what is added stretches to it as well, so that the next one can be
built on it. -/

namespace QuantGraph

namespace Revision

/-- A revision that never fails has a value. -/
theorem Ensures.exists_runOn {revision : Revision σ β} {before : σ} {done : β → σ → Prop}
    (ensures : revision.Ensures before (fun _ => False) done) :
    ∃ value after, revision.runOn before = (.ok value, after) ∧ done value after := by
  unfold Ensures at ensures
  split at ensures
  case h_1 value after ran => exact ⟨value, after, ran, ensures⟩
  case h_2 => exact ensures.elim

end Revision

/-- Shapes that broadcast are accepted by an elementwise operation. -/
theorem Op.exists_infer_elementwise (binary : BinaryOp) {left right : ValueType} {shape : Shape}
    (common : left.shape.broadcast right.shape = some shape) :
    ∃ type, (Op.elementwise binary : Op α).infer [left, right] = .ok type ∧ type.shape = shape := by
  refine ⟨{ left with shape := shape }, ?_, rfl⟩
  cases binary <;>
    simp only [Op.elementwise, Op.infer, List.getElem?_cons_zero, List.getElem?_cons_succ, bind,
      Except.bind, common] <;> rfl

namespace Graph

variable {graph before after : Graph α} {draft : Draft α} {outputs : List Output} {id : NodeId}
  {target : Shape} {nodes : List NodeId}

theorem draftedType_eq_ok (reads : draft.ReadsInOrder outputs) (undeclared : draft.declared = none)
    {type : ValueType} (inferred : draft.op.infer (graph.typesOf outputs) = .ok type) :
    graph.draftedType draft = .ok type := by
  rw [draftedType, undeclared]
  refine Outcome.mapError_eq_ok.mpr ?_
  rw [← sources_of_readsInOrder reads, typesOf, List.filterMap_map] at inferred
  exact inferred

theorem exists_add (reads : draft.ReadsInOrder outputs)
    (live : ∀ output ∈ outputs, graph.contains output.node = true) {type : ValueType}
    (drafted : graph.draftedType draft = .ok type) :
    ∃ id after, graph.add draft = .ok (id, after) := by
  have present : (orderedConnections draft).find?
      (fun connection => !graph.contains connection.source.node) = none := by
    refine List.find?_eq_none.mpr fun connection member => ?_
    have source : connection.source ∈ outputs := by
      rw [← sources_of_readsInOrder reads]
      exact List.mem_map_of_mem member
    rw [live _ source]
    exact Bool.false_ne_true
  exact ⟨_, _, by rw [add, present, drafted]; rfl⟩

theorem readsInOrder_constant (tensor : Tensor α) (name : String) :
    ((Op.constant tensor).draft name).ReadsInOrder [] := ⟨rfl, by simp⟩

theorem draftedType_constant (graph : Graph α) (tensor : Tensor α) (name : String) :
    graph.draftedType ((Op.constant tensor).draft name) =
      .ok ⟨tensor.elementType, tensor.shape⟩ :=
  draftedType_eq_ok (readsInOrder_constant tensor name) rfl rfl

/-- A constant can always be added. -/
theorem exists_add_constant (graph : Graph α) (tensor : Tensor α) (name : String) :
    ∃ id after, graph.add ((Op.constant tensor).draft name) = .ok (id, after) :=
  exists_add (readsInOrder_constant tensor name) (by simp) (graph.draftedType_constant tensor name)

/-- Shapes of nodes that broadcast are accepted by an elementwise operation that reads them. -/
theorem exists_infer_of_shape? (binary : BinaryOp) {left right : Output}
    {leftShape rightShape shape : Shape} (isLeft : graph.shape? left.node = some leftShape)
    (isRight : graph.shape? right.node = some rightShape)
    (common : leftShape.broadcast rightShape = some shape) :
    ∃ type, (Op.elementwise binary : Op α).infer (graph.typesOf [left, right]) = .ok type ∧
      type.shape = shape := by
  obtain ⟨leftNode, foundLeft, rfl⟩ := Option.map_eq_some_iff.mp isLeft
  obtain ⟨rightNode, foundRight, rfl⟩ := Option.map_eq_some_iff.mp isRight
  have types : graph.typesOf [left, right] = [leftNode.valueType, rightNode.valueType] := by
    simp [typesOf, foundLeft, foundRight]
  rw [types]
  exact @Op.exists_infer_elementwise α binary leftNode.valueType rightNode.valueType shape common

theorem exists_add_elementwise (binary : BinaryOp) {left right : Output}
    {leftShape rightShape shape : Shape} (reads : draft.ReadsInOrder [left, right])
    (isOp : draft.op = Op.elementwise binary) (undeclared : draft.declared = none)
    (isLeft : graph.shape? left.node = some leftShape)
    (isRight : graph.shape? right.node = some rightShape)
    (common : leftShape.broadcast rightShape = some shape) :
    ∃ id after, graph.add draft = .ok (id, after) := by
  obtain ⟨type, inferred, _⟩ := exists_infer_of_shape? binary isLeft isRight common
  refine exists_add reads (fun output member => ?_)
    (draftedType_eq_ok reads undeclared (isOp ▸ inferred))
  rcases List.mem_pair.mp member with rfl | rfl
  · exact live_of_shape? isLeft
  · exact live_of_shape? isRight

theorem Gains.shape?_new (gains : before.Gains draft outputs id after) {type : ValueType}
    (drafted : before.draftedType draft = .ok type) : after.shape? id = some type.shape := by
  obtain ⟨type', drafted', found⟩ := gains.node_new
  cases Except.ok.inj (drafted.symm.trans drafted')
  rw [shape?, found]
  rfl

/-- The shapes of nodes of a well-formed graph stretch to one shape. -/
structure Aligns (graph : Graph α) (target : Shape) (nodes : List NodeId) : Prop where
  wellFormed : graph.WellFormed
  stretches : ∀ node ∈ nodes, ∃ shape, graph.shape? node = some shape ∧ shape.StretchesTo target

theorem Aligns.live (aligns : graph.Aligns target nodes) {node : NodeId} (member : node ∈ nodes) :
    graph.contains node = true := by
  obtain ⟨shape, isShape, _⟩ := aligns.stretches node member
  exact live_of_shape? isShape

theorem Aligns.of_adds (aligns : before.Aligns target nodes)
    (adds : before.Adds draft outputs id after) {shape : Shape}
    (isShape : after.shape? id = some shape) (stretches : shape.StretchesTo target) :
    after.Aligns target (id :: nodes) := by
  refine ⟨adds.wellFormed, fun node member => ?_⟩
  rcases List.mem_cons.mp member with rfl | member
  · exact ⟨shape, isShape, stretches⟩
  · rw [shape?_congr (adds.grows.node_eq node (aligns.live member))]
    exact aligns.stretches node member

end Graph

namespace GraphRevision

open QuantGraph.Graph Revision

variable {graph : Graph α} {target : Shape} {nodes : List NodeId} {done : NodeId → Graph α → Prop}

theorem ensures_of_add {after : Graph α} {draft : Draft α} {id : NodeId}
    {failed : Graph α → Prop} (added : graph.add draft = .ok (id, after)) (ok : done id after) :
    (GraphRevision.add draft).Ensures graph failed done := by
  refine ensures_extend.mpr ?_
  rw [added]
  exact ok

/-- What is read is there, and its types are accepted. -/
theorem ensures_addInferred {draft : Draft α} {outputs : List Output} {type : ValueType}
    (aligns : graph.Aligns target nodes) (reads : draft.ReadsInOrder outputs)
    (sources : ∀ output ∈ outputs, output.node ∈ nodes) (undeclared : draft.declared = none)
    (inferred : draft.op.infer (graph.typesOf outputs) = .ok type)
    (stretches : type.shape.StretchesTo target)
    (ok : ∀ id after, after.Aligns target (id :: nodes) → done id after) :
    (GraphRevision.add draft).Ensures graph (fun _ => False) done := by
  have drafted := draftedType_eq_ok reads undeclared inferred
  obtain ⟨id, after, added⟩ :=
    exists_add reads (fun output member => aligns.live (sources output member)) drafted
  have adds := adds_of_add aligns.wellFormed reads added
  exact ensures_of_add added (ok id after (aligns.of_adds adds (adds.gains.shape?_new drafted) stretches))

theorem ensures_addConstantAligned {tensor : Tensor α} {name : String}
    (aligns : graph.Aligns target nodes) (stretches : tensor.shape.StretchesTo target)
    (ok : ∀ id after, after.Aligns target (id :: nodes) → done id after) :
    (GraphRevision.addConstant tensor name).Ensures graph (fun _ => False) done := by
  have inferred : (Op.constant tensor).infer (graph.typesOf []) =
      .ok ⟨tensor.elementType, tensor.shape⟩ := rfl
  exact ensures_addInferred aligns (readsInOrder_constant tensor name) (by simp) rfl inferred
    stretches ok

theorem ensures_addAligned {draft : Draft α} {left right : Output} (binary : BinaryOp)
    (aligns : graph.Aligns target nodes) (reads : draft.ReadsInOrder [left, right])
    (isOp : draft.op = Op.elementwise binary) (undeclared : draft.declared = none)
    (sources : ∀ output ∈ [left, right], output.node ∈ nodes)
    (ok : ∀ id after, after.Aligns target (id :: nodes) → done id after) :
    (GraphRevision.add draft).Ensures graph (fun _ => False) done := by
  obtain ⟨leftShape, isLeft, leftStretches⟩ := aligns.stretches left.node (sources left (by simp))
  obtain ⟨rightShape, isRight, rightStretches⟩ :=
    aligns.stretches right.node (sources right (by simp))
  obtain ⟨shape, common⟩ := Shape.exists_broadcast leftStretches rightStretches
  obtain ⟨type, inferred, rfl⟩ := exists_infer_of_shape? binary isLeft isRight common
  refine ensures_addInferred aligns reads sources undeclared (isOp ▸ inferred) ?_ ok
  exact (Shape.broadcast_eq_some_iff.mp common).2.2 target leftStretches rightStretches

theorem ensures_replaceAligned {old new : NodeId} {done : PUnit → Graph α → Prop}
    (aligns : graph.Aligns target nodes) (isOld : old ∈ nodes) (isNew : new ∈ nodes)
    (ok : ∀ after, done PUnit.unit after) :
    (GraphRevision.replace old new).Ensures graph (fun _ => False) done := by
  refine ensures_change.mpr ?_
  unfold Graph.replace
  rw [aligns.live isOld, aligns.live isNew]
  split
  case h_1 => exact ok _
  case h_2 error refused => split at refused <;> cases refused

/-- Constants that stretch to a shape that can be addressed can be folded. -/
theorem ensures_foldedAligned [Scalar α] {binary : BinaryOp} {left right : Tensor α}
    {done : Tensor α → Graph α → Prop} (leftStretches : left.shape.StretchesTo target)
    (rightStretches : right.shape.StretchesTo target) (addressable : target.IsAddressable)
    (ok : ∀ folded : Tensor α, folded.shape.StretchesTo target → done folded graph) :
    (GraphRevision.folded (Tensor.combine binary left right)).Ensures graph (fun _ => False)
      done := by
  obtain ⟨values, combined, _, _, stretches, _⟩ :=
    NDArray.exists_read_combine binary leftStretches rightStretches addressable
  have folds : Tensor.combine binary left right = .ok ⟨left.elementType, values⟩ :=
    Outcome.map_eq_ok.mpr ⟨values, combined, rfl⟩
  rw [folds]
  exact ok _ stretches

end GraphRevision

end QuantGraph
