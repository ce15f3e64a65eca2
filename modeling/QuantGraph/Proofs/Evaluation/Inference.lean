import QuantGraph.Proofs.Evaluation.Shapes
import QuantGraph.Proofs.Graph.Evolution
import QuantGraph.Proofs.Shape.Stretching

/-! Inferred shapes while a graph changes. The shape that an operation infers depends on the
shapes of its inputs alone, so a change keeps inferred shapes inferred when every node goes on
reading outputs of the shapes that it read before. -/

namespace QuantGraph

namespace Op

/-- A type of the same shape, with one element type for all. -/
def plainType (shape : Shape) : ValueType := { elementType := .f32, shape := shape }

private theorem map_shape_bind (outcome : Except InferenceError Shape) (type : ValueType) :
    (outcome >>= fun shape => Except.ok { type with shape := shape }).map ValueType.shape =
      outcome := by
  cases outcome <;> rfl

private theorem infer_plain (op : Op α) (types : List ValueType) :
    (op.infer types).map ValueType.shape =
      (op.infer (types.map fun type => plainType type.shape)).map ValueType.shape := by
  have shapes : (types.map fun type => plainType type.shape).map ValueType.shape =
      types.map ValueType.shape := by
    rw [List.map_map]
    rfl
  unfold infer
  simp only [List.getElem?_map, List.length_map, List.map_drop, shapes]
  cases op with
  | parameter | constant => rfl
  | result | relu | convert => cases types[0]? <;> rfl
  | fakeQuantize =>
      dsimp only
      split
      case isTrue => rfl
      case isFalse => cases types[0]? <;> rfl
  | add | subtract | multiply | divide =>
      cases types[0]? with
      | none => rfl
      | some left =>
          cases types[1]? with
          | none => rfl
          | some right =>
              dsimp only [bind, Except.bind, plainType, Option.map_some]
              split <;> rfl
  | concat | maxPool | avgPool | interpolate | squeeze | unsqueeze | transpose =>
      cases types[0]? with
      | none => rfl
      | some data => exact (map_shape_bind _ _).trans (map_shape_bind _ _).symm
  | convolution | groupConvolution | matMul =>
      cases types[0]? with
      | none => rfl
      | some data =>
          cases types[1]? with
          | none => rfl
          | some weights => exact (map_shape_bind _ _).trans (map_shape_bind _ _).symm
  | reshape =>
      cases types[0]? with
      | none => rfl
      | some data =>
          dsimp only [bind, Except.bind, plainType, Option.map_some]
          split <;> rfl

/-- The shape that an operation infers from shapes. -/
def inferShape (op : Op α) (shapes : List Shape) : Except InferenceError Shape :=
  (op.infer (shapes.map plainType)).map ValueType.shape

theorem map_shape_infer (op : Op α) (types : List ValueType) :
    (op.infer types).map ValueType.shape = op.inferShape (types.map ValueType.shape) := by
  rw [infer_plain, inferShape, List.map_map]
  rfl

theorem inferShape_convert {destination : ElementType} {data : Shape} {rest : List Shape} :
    (convert destination : Op α).inferShape (data :: rest) = .ok data := rfl

/-- An operation on two arrays, element by element. -/
def IsElementwise (op : Op α) : Prop := op = subtract ∨ op = multiply

theorem inferShape_eq_ok {op : Op α} {left right shape : Shape} {rest : List Shape}
    (elementwise : op.IsElementwise) :
    op.inferShape (left :: right :: rest) = .ok shape ↔ left.broadcast right = some shape := by
  unfold inferShape infer plainType
  rcases elementwise with rfl | rfl <;>
    cases common : left.broadcast right <;>
      simp [bind, Except.bind, Except.map, pure, Except.pure, throw, throwThe,
        MonadExceptOf.throw, common]

end Op

namespace Graph

variable {graph before after : Graph α} {id old new other : NodeId} {outputs : List Output}
  {shape : Shape} {op : Op α}

/-- The shapes of the outputs that exist. -/
def shapesOf (graph : Graph α) (outputs : List Output) : List Shape :=
  outputs.filterMap fun output => graph.shape? output.node

theorem shapesOf_cons {output : Output} (isShape : graph.shape? output.node = some shape)
    (outputs : List Output) :
    graph.shapesOf (output :: outputs) = shape :: graph.shapesOf outputs :=
  List.filterMap_cons_some isShape

theorem map_shape_typesOf (graph : Graph α) (outputs : List Output) :
    (graph.typesOf outputs).map ValueType.shape = graph.shapesOf outputs := by
  rw [typesOf, shapesOf, List.map_filterMap]
  refine List.filterMap_congr fun output _ => ?_
  rw [shape?, Option.map_map]
  rfl

theorem isInferred_iff : graph.IsInferred ↔ ∀ id node, graph.node? id = some node →
    node.op.kind ≠ .parameter →
      node.op.inferShape (graph.shapesOf (graph.inputs id)) = .ok node.shape := by
  unfold IsInferred
  simp only [Op.map_shape_infer, map_shape_typesOf]

theorem shape?_congr {left right : Graph α} (equal : left.node? id = right.node? id) :
    left.shape? id = right.shape? id := by
  rw [shape?, shape?, equal]

/-- A node that declares nothing gets the shape that is inferred from what it reads. -/
theorem Gains.exists_shape {draft : Draft α} (gains : before.Gains draft outputs id after)
    (reads : draft.ReadsInOrder outputs) (undeclared : draft.declared = none) :
    ∃ shape, after.shape? id = some shape ∧
      draft.op.inferShape (before.shapesOf outputs) = .ok shape := by
  obtain ⟨type, drafted, found⟩ := gains.node_new
  refine ⟨type.shape, by rw [shape?, found]; rfl, ?_⟩
  rw [← map_shape_typesOf, ← Op.map_shape_infer, infer_of_draftedType reads undeclared drafted]
  rfl

theorem IsInferred.shape?_eq (inferred : graph.IsInferred) (isOp : graph.op? id = some op)
    (notParameter : op.kind ≠ .parameter)
    (infers : op.inferShape (graph.shapesOf (graph.inputs id)) = .ok shape) :
    graph.shape? id = some shape := by
  obtain ⟨node, found, rfl⟩ := Option.map_eq_some_iff.mp isOp
  rw [isInferred_iff.mp inferred id node found notParameter] at infers
  rw [shape?, found, ← Except.ok.inj infers]
  rfl

theorem IsInferred.shape?_constant (inferred : graph.IsInferred) {tensor : Tensor α}
    (isConstant : graph.constant? id = some tensor) : graph.shape? id = some tensor.shape :=
  inferred.shape?_eq (constant?_eq_some_iff.mp isConstant) (fun equal => by cases equal) rfl

/-- A graph keeps inferred shapes when every node that stays was there with its operation and
its shape, and reads outputs of the shapes that it read. -/
theorem IsInferred.congr (inferred : before.IsInferred)
    (same : ∀ id node, after.node? id = some node → ∃ earlier, before.node? id = some earlier ∧
      earlier.op = node.op ∧ earlier.shape = node.shape ∧
      after.shapesOf (after.inputs id) = before.shapesOf (before.inputs id)) :
    after.IsInferred := by
  refine isInferred_iff.mpr fun id node found notParameter => ?_
  obtain ⟨earlier, present, op_eq, shape_eq, shapes⟩ := same id node found
  rw [shapes, ← op_eq, ← shape_eq]
  exact isInferred_iff.mp inferred id earlier present (op_eq ▸ notParameter)

theorem shapesOf_congr
    (same : ∀ output ∈ outputs, after.shape? output.node = before.shape? output.node) :
    after.shapesOf outputs = before.shapesOf outputs :=
  List.filterMap_congr same

theorem IsInferred.sheds (inferred : before.IsInferred) (sheds : before.Sheds other after) :
    after.IsInferred := by
  refine inferred.congr fun id node found => ?_
  have live := contains_of_node? found
  refine ⟨node, (sheds.node_eq id live).symm.trans found, rfl, rfl, ?_⟩
  rw [sheds.inputs_eq live]
  refine shapesOf_congr fun output member => shape?_congr (sheds.node_eq output.node ?_)
  rw [← sheds.inputs_eq live] at member
  exact (sheds.consistent.reads_live (reads_of_mem_inputs member)).1

theorem Declares.shape?_eq {change : Node α → Node α}
    (declares : before.Declares other change after)
    (redeclared : ∀ node, IsRedeclared node (change node)) (id : NodeId) :
    after.shape? id = before.shape? id := by
  rw [shape?, shape?, declares.node_eq]
  split
  case isTrue equal =>
    rw [equal, Option.map_map]
    exact congrFun (congrArg Option.map (funext fun node => (redeclared node).shape_eq)) _
  case isFalse => rfl

theorem IsInferred.declares (inferred : before.IsInferred) {change : Node α → Node α}
    (declares : before.Declares other change after)
    (redeclared : ∀ node, IsRedeclared node (change node)) : after.IsInferred := by
  refine inferred.congr fun id node found => ?_
  rw [(declares.sameAt redeclared id).2,
    shapesOf_congr fun output _ => declares.shape?_eq redeclared output.node]
  rw [declares.node_eq] at found
  split at found
  case isTrue equal =>
    obtain ⟨earlier, present, rfl⟩ := Option.map_eq_some_iff.mp found
    exact ⟨earlier, equal ▸ present, (redeclared earlier).op_eq.symm,
      (redeclared earlier).shape_eq.symm, rfl⟩
  case isFalse => exact ⟨node, found, rfl, rfl, rfl⟩

/-- A node may take the place of one of its shape. -/
theorem IsInferred.replaces (inferred : before.IsInferred) (wellFormed : before.WellFormed)
    (replaces : before.Replaces old new after) (same : before.shape? new = before.shape? old) :
    after.IsInferred := by
  refine inferred.congr fun id node found => ?_
  have live := contains_of_node? found
  refine ⟨node, (replaces.node_eq live).symm.trans found, rfl, rfl, ?_⟩
  have kept {output : Output} (member : output ∈ after.inputs id) :
      after.shape? output.node = before.shape? output.node :=
    shape?_congr (replaces.node_eq
      (replaces.wellFormed.consistent.reads_live (reads_of_mem_inputs member)).1)
  rw [shapesOf_congr fun output member => kept member,
    replaces.inputs_eq (wellFormed.exact id) live]
  split
  case isTrue => rfl
  case isFalse =>
    rw [shapesOf, shapesOf, List.filterMap_map]
    refine List.filterMap_congr fun output _ => ?_
    change before.shape? (renamed old new output).node = _
    unfold renamed
    split
    case isTrue equal => exact same.trans (congrArg before.shape? equal.symm)
    case isFalse => rfl

/-- A node may read another output on one of its slots when its shape is inferred from there
as well. -/
theorem IsInferred.resources (inferred : before.IsInferred) {slot : UInt8} {source : Output}
    (resources : before.Resources other slot source after)
    (infers : ∀ node, before.node? other = some node → node.op.inferShape
      (before.shapesOf ((before.inputs other).set slot.toNat source)) = .ok node.shape) :
    after.IsInferred := by
  have shapes (id : NodeId) : after.shape? id = before.shape? id :=
    shape?_congr (resources.node_eq id)
  refine isInferred_iff.mpr fun id node found notParameter => ?_
  rw [resources.node_eq] at found
  rw [shapesOf_congr fun output _ => shapes output.node, resources.inputs_eq]
  split
  case isTrue equal =>
    subst equal
    exact infers node found
  case isFalse => exact isInferred_iff.mp inferred id node found notParameter

/-! ## Growing behind a node -/

section Growth

variable {middle : Graph α} {last constant : NodeId} {name : String}

theorem shapesOf_set {slot : Nat} {output source : Output} (read : outputs[slot]? = some output)
    (same : graph.shape? source.node = graph.shape? output.node) :
    graph.shapesOf (outputs.set slot source) = graph.shapesOf outputs := by
  induction outputs generalizing slot with
  | nil => rfl
  | cons first rest induction =>
      cases slot with
      | zero =>
          cases Option.some.inj read
          rw [List.set_cons_zero, shapesOf, shapesOf, List.filterMap_cons, List.filterMap_cons,
            same]
      | succ slot =>
          have rest_eq := @induction slot read
          rw [List.set_cons_succ, shapesOf, shapesOf, List.filterMap_cons, List.filterMap_cons]
          unfold shapesOf at rest_eq
          rw [rest_eq]

/-- Nodes have been added, the last of which has a shape; what was there is as it was, but for
declared element types. -/
structure GrowsTo (before : Graph α) (shape : Shape) (last : NodeId) (after : Graph α) :
    Prop where
  wellFormed : after.WellFormed
  inferred : after.IsInferred
  live : ∀ id, before.contains id = true → after.contains id = true
  shape_eq : ∀ id, before.contains id = true → after.shape? id = before.shape? id
  inputs_eq : ∀ id, before.contains id = true → after.inputs id = before.inputs id
  last_shape : after.shape? last = some shape

theorem live_of_shape? (isShape : graph.shape? id = some shape) : graph.contains id = true := by
  obtain ⟨node, found, _⟩ := Option.map_eq_some_iff.mp isShape
  exact contains_of_node? found

theorem GrowsTo.adds {draft : Draft α} {grown : Shape} (grows : before.GrowsTo shape last middle)
    (adds : middle.Adds draft outputs new after) (reads : draft.ReadsInOrder outputs)
    (undeclared : draft.declared = none) (notParameter : draft.op.kind ≠ .parameter)
    (infers : draft.op.inferShape (middle.shapesOf outputs) = .ok grown) :
    before.GrowsTo grown new after := by
  have inferred := grows.inferred.adds grows.wellFormed reads adds fun _ => undeclared
  refine ⟨adds.wellFormed, inferred, fun id live => adds.grows.live (grows.live id live),
    fun id live => ?_, fun id live => ?_, inferred.shape?_eq adds.op?_new notParameter ?_⟩
  · exact (shape?_congr (adds.grows.node_eq id (grows.live id live))).trans (grows.shape_eq id live)
  · exact (adds.grows.inputs_eq (grows.live id live)).trans (grows.inputs_eq id live)
  · rw [adds.inputs_new, shapesOf_congr fun output member =>
      shape?_congr (adds.grows.node_eq output.node (adds.sources_live output member))]
    exact infers

theorem GrowsTo.exists_adds {draft : Draft α} (grows : before.GrowsTo shape last middle)
    (adds : middle.Adds draft outputs new after) (reads : draft.ReadsInOrder outputs)
    (undeclared : draft.declared = none) :
    ∃ grown, before.GrowsTo grown new after ∧
      draft.op.inferShape (middle.shapesOf outputs) = .ok grown := by
  obtain ⟨grown, _, infers⟩ := adds.gains.exists_shape reads undeclared
  exact ⟨grown, grows.adds adds reads undeclared (adds.kind_ne_parameter undeclared) infers, infers⟩

/-- Behind a node, an operation with a constant has the common shape of both. -/
theorem GrowsTo.exists_adds_elementwise {constantShape : Shape}
    (grows : before.GrowsTo shape last middle) (elementwise : op.IsElementwise)
    (adds : middle.Adds ((op.draft name).readAll [last, constant]) [last.output, constant.output]
      new after)
    (isShape : before.shape? constant = some constantShape) :
    ∃ grown, before.GrowsTo grown new after ∧ shape.broadcast constantShape = some grown := by
  obtain ⟨grown, grows', infers⟩ := grows.exists_adds adds ⟨rfl, by simp⟩ rfl
  have known : middle.shape? constant = some constantShape :=
    (grows.shape_eq constant (live_of_shape? isShape)).trans isShape
  rw [shapesOf_cons grows.last_shape, shapesOf_cons known] at infers
  exact ⟨grown, grows', (Op.inferShape_eq_ok elementwise).mp infers⟩

theorem GrowsTo.declares {change : Node α → Node α} (grows : before.GrowsTo shape last middle)
    (declares : middle.Declares other change after)
    (redeclared : ∀ node, IsRedeclared node (change node)) : before.GrowsTo shape last after := by
  have shape_eq (id : NodeId) : after.shape? id = middle.shape? id :=
    declares.shape?_eq redeclared id
  refine ⟨declares.wellFormed, grows.inferred.declares declares redeclared, fun id live => ?_,
    fun id live => (shape_eq id).trans (grows.shape_eq id live), fun id live => ?_,
    (shape_eq last).trans grows.last_shape⟩
  · exact (declares.contains_eq id).trans (grows.live id live)
  · exact (declares.sameAt redeclared id).2.trans (grows.inputs_eq id live)


theorem GrowsTo.refl (wellFormed : before.WellFormed) (inferred : before.IsInferred)
    (isShape : before.shape? id = some shape) : before.GrowsTo shape id before :=
  ⟨wellFormed, inferred, fun _ live => live, fun _ _ => rfl, fun _ _ => rfl, isShape⟩

end Growth

end Graph

end QuantGraph
