import Mathlib
import QuantGraph.Proofs.Evaluation.Inference
import QuantGraph.Proofs.Joint.SharedScale
import QuantGraph.Proofs.NDArray.Closeness

/-! The dequantization that is carried to a layer where all fake quantizations share one. Laid
together for a Concat and handed on by pooling, it remains the shared shift and the shared scale,
at every position of the layer. -/

namespace QuantGraph

namespace Tensor

/-! ## One number at every position -/

/-- A tensor has one number for every position of a shape: it has no axes, or it is empty and so
is the shape. -/
def Spreads (tensor : Tensor α) (number : α) (shape : Shape) : Prop :=
  tensor.values = .scalar number ∨ 0 ∈ tensor.shape ∧
    List.Forall₂ (fun extent extent' => extent = 1 ∨ extent = 0 ∧ extent' = 0) tensor.shape shape

section Spreading

variable {tensor : Tensor α} {number : α} {shape other : Shape} {type : ElementType}

theorem spreads_scalar : (Tensor.scalar type number).Spreads number shape := Or.inl rfl

namespace Spreads

variable (spreads : tensor.Spreads number shape)

include spreads

theorem stretchesTo : tensor.shape.StretchesTo shape := by
  rcases spreads with single | ⟨_, each⟩
  · rw [Tensor.shape, single]
    exact Shape.nil_stretchesTo shape
  · refine Shape.stretchesTo_iff_append.mpr ⟨[], shape, rfl, each.imp fun extent extent' equal => ?_⟩
    omega

theorem read_eq [Scalar α] {index : Index} (holds : shape.Holds index) :
    tensor.values.read index = number := by
  rcases id spreads with single | ⟨empty, _⟩
  · rw [single]
    exact NDArray.read_scalar number index
  · have inside := (holds.stretchedIndex spreads.stretchesTo).offset_lt
    rw [Shape.size_eq_zero empty] at inside
    cases inside

theorem of_smaller (smaller : List.Forall₂ (fun extent extent' => extent ≤ extent') other shape) :
    tensor.Spreads number other := by
  rcases spreads with single | ⟨empty, each⟩
  · exact Or.inl single
  · refine Or.inr ⟨empty, ?_⟩
    generalize tensor.shape = extents at each
    clear empty
    induction each generalizing other with
    | nil =>
        cases smaller
        exact .nil
    | cons head _ induction =>
        cases smaller with
        | cons le rest => exact .cons (by omega) (induction rest)

/-- For every channel there is the number. -/
theorem perChannel_eq [Scalar α] {channels axis rank : Nat} {numbers : List α}
    (found : Dequantization.perChannel tensor channels axis rank = .ok numbers) :
    numbers = List.replicate channels number := by
  unfold Dequantization.perChannel at found
  rcases spreads with single | ⟨empty, _⟩
  · have size_eq : tensor.size = 1 := by rw [Tensor.size, single]; rfl
    have first_eq : tensor.first? = some number := by rw [Tensor.first?, Tensor.toList, single]; rfl
    rw [if_pos size_eq, first_eq] at found
    exact (Except.ok.inj found).symm
  · have size_eq : tensor.size = 0 := tensor.values.size_data.trans (Shape.size_eq_zero empty)
    rw [if_neg (by omega)] at found
    split at found
    case isFalse => cases found
    case isTrue stretches =>
      -- The extent that is empty has nothing to be matched with but the channels.
      obtain ⟨outer, inner, equal, each⟩ := Shape.stretchesTo_iff_append.mp stretches
      obtain ⟨extent, member, zero⟩ := NDArray.exists_of_mem_left each empty
      have listed : 0 ∈ Dequantization.axisShape rank axis channels := by
        rw [equal, show (0 : Nat) = extent by omega]
        exact List.mem_append_right outer member
      obtain rfl : channels = 0 := by
        rcases List.mem_or_eq_of_mem_set listed with one | equal
        · exact absurd (List.eq_of_mem_replicate one) (by decide)
        · exact equal.symm
      rw [← Except.ok.inj found, List.replicate_zero, ← List.length_eq_zero_iff,
        NDArray.length_toList]
      exact Shape.size_eq_zero listed

end Spreads

end Spreading

section Exactly

variable {tensor : Tensor Rat} {number : Rat} {shape : Shape} {type : ElementType}

theorem ofList_eq_ok {values : List Rat} (made : ofList type shape values = .ok tensor) :
    tensor.shape = shape ∧ tensor.toList = values := by
  unfold ofList at made
  split at made
  case isTrue => cases made
  case isFalse =>
    unfold NDArray.ofList? at made
    split at made
    case h_1 array found =>
      split at found
      case isTrue =>
        cases Option.some.inj found
        cases Except.ok.inj made
        exact ⟨rfl, rfl⟩
      case isFalse => cases found
    case h_2 => cases made

theorem collapse_of_replicate {count : Nat}
    (replicated : tensor.toList = List.replicate (count + 1) number) :
    tensor.collapse = .scalar tensor.elementType number := by
  have uniform : tensor.isUniform = true := by
    unfold isUniform
    rw [replicated, List.replicate_succ]
    refine List.all_eq_true.mpr fun value member => ?_
    rw [List.eq_of_mem_replicate member]
    exact BEq.rfl
  rw [collapse, toScalar?, if_pos uniform, first?, replicated, List.replicate_succ]
  rfl

theorem collapse_of_empty (empty : tensor.toList = []) : tensor.collapse = tensor := by
  have uneven : tensor.isUniform = false := by
    unfold isUniform
    rw [empty]
  rw [collapse, toScalar?, uneven]
  rfl

/-- One number for each channel along an axis is one number for each position. -/
theorem spreads_collapse {axis total : Nat}
    (made : ofList type (Dequantization.axisShape shape.length axis total)
      (List.replicate total number) = .ok tensor) (extent_eq : shape[axis]? = some total) :
    tensor.collapse.Spreads number shape := by
  obtain ⟨shape_eq, list_eq⟩ := ofList_eq_ok made
  cases total with
  | succ count =>
      rw [collapse_of_replicate list_eq]
      exact spreads_scalar
  | zero =>
      obtain ⟨inside, zero⟩ := List.getElem?_eq_some_iff.mp extent_eq
      rw [collapse_of_empty list_eq]
      refine Or.inr ⟨?_, ?_⟩
      · rw [shape_eq]
        exact List.mem_set (by simpa using inside) 0
      · rw [shape_eq]
        refine List.forall₂_iff_get.mpr ⟨by simp [Dequantization.axisShape], fun place _ below => ?_⟩
        by_cases same : axis = place
        · subst same
          simp [Dequantization.axisShape, zero]
        · simp [Dequantization.axisShape, same]

/-- As long as there is a channel, only a number near zero makes all of them near zero. -/
theorem isNearZero_of_replicate {count : Nat} (replicated : tensor.toList = List.replicate count number)
    (far : 1 / 10 ^ 6 < |number|) : tensor.isNearZero = false := by
  rw [Bool.eq_false_iff]
  intro near
  obtain ⟨filled, each⟩ := Bool.and_eq_true_iff.mp near
  have some_left : number ∈ tensor.toList := by
    rw [replicated, List.mem_replicate]
    refine ⟨?_, rfl⟩
    rintro rfl
    have none_left : tensor.size = 0 := (List.length_eq_zero_iff.mpr replicated)
    simp [isEmpty, none_left] at filled
  have bound := of_decide_eq_true (List.all_eq_true.mp each number some_left)
  rw [Exact.abs_eq, Exact.zeroTolerance_eq] at bound
  exact absurd bound (not_le.mpr far)

end Exactly

end Tensor

/-! ## The shared dequantization -/

namespace Dequantization

/-- A dequantization is the shared one at every position of a shape. -/
structure Repeats (values : Dequantization Rat) (shared : SharedScale Rat) (shape : Shape) :
    Prop where
  restoredType_eq : values.restoredType = shared.restoredType
  scale : values.scale.Spreads shared.scale shape
  dropped : |shared.shift| ≤ 1 / 10 ^ 6 → values.shift = none
  kept : 1 / 10 ^ 6 < |shared.shift| →
    ∃ shift, values.shift = some shift ∧ shift.Spreads shared.shift shape

variable {shared : SharedScale Rat} {values : Dequantization Rat} {shape other : Shape}
  {axis rank : Nat} {parts : List (Dequantization Rat × Nat)}

theorem shiftUnlessZero_scalar {type : ElementType} {number : Rat} :
    shiftUnlessZero (.scalar type number) =
      if |number| ≤ 1 / 10 ^ 6 then none else some (.scalar type number) := by
  have near : (Tensor.scalar type number).isNearZero = decide (|number| ≤ 1 / 10 ^ 6) := by
    rw [← Exact.abs_eq, ← Exact.zeroTolerance_eq]
    exact Bool.and_true _
  unfold shiftUnlessZero
  rw [near]
  simp only [decide_eq_true_eq]

theorem repeats_dequantization (shared : SharedScale Rat) (shape : Shape) :
    shared.dequantization.Repeats shared shape where
  restoredType_eq := rfl
  scale := Tensor.spreads_scalar
  dropped := fun near => shiftUnlessZero_scalar.trans (if_pos near)
  kept := fun far => ⟨_, shiftUnlessZero_scalar.trans (if_neg (not_le.mpr far)),
    Tensor.spreads_scalar⟩

namespace Repeats

theorem of_smaller (repeats : values.Repeats shared shape)
    (smaller : List.Forall₂ (fun extent extent' => extent ≤ extent') other shape) :
    values.Repeats shared other where
  restoredType_eq := repeats.restoredType_eq
  scale := repeats.scale.of_smaller smaller
  dropped := repeats.dropped
  kept := fun far => by
    obtain ⟨shift, shifted, spreads⟩ := repeats.kept far
    exact ⟨shift, shifted, spreads.of_smaller smaller⟩

theorem stretchesTo (repeats : values.Repeats shared shape) : values.StretchesTo shape := by
  refine ⟨repeats.scale.stretchesTo, fun shift shifted => ?_⟩
  rcases le_or_gt |shared.shift| (1 / 10 ^ 6) with near | far
  · rw [repeats.dropped near] at shifted
    cases shifted
  · obtain ⟨_, found, spreads⟩ := repeats.kept far
    cases Option.some.inj (shifted.symm.trans found)
    exact spreads.stretchesTo

/-- What is restored is a number of scales above zero, but for a shift that is as good as zero. -/
theorem restore_eq (repeats : values.Repeats shared shape) {index : Index}
    (holds : shape.Holds index) (value : Rat) :
    ∃ lost, |lost| ≤ 1 / 10 ^ 6 ∧
      values.restore index value = (value - shared.shift + lost) * shared.scale := by
  unfold restore
  rw [repeats.scale.read_eq holds]
  rcases le_or_gt |shared.shift| (1 / 10 ^ 6) with near | far
  · refine ⟨shared.shift, near, ?_⟩
    rw [repeats.dropped near]
    dsimp only
    rw [sub_add_cancel]
  · obtain ⟨shift, shifted, spreads⟩ := repeats.kept far
    refine ⟨0, by norm_num, ?_⟩
    rw [shifted]
    dsimp only
    rw [spreads.read_eq holds, add_zero]

end Repeats

/-- The shift of the shared dequantization, or zero where it is dropped. -/
def keptShift (shared : SharedScale Rat) : Rat :=
  if |shared.shift| ≤ 1 / 10 ^ 6 then 0 else shared.shift

theorem flatMap_of_replicate {number : Rat} {count : β → Nat} {pick : γ → List Rat}
    {left : List β} {right : List γ}
    (each : List.Forall₂ (fun first second => pick second = List.replicate (count first) number)
      left right) :
    right.flatMap pick = List.replicate (left.map count).sum number := by
  induction each with
  | nil => rfl
  | cons head _ induction =>
      rw [List.flatMap_cons, head, induction, List.map_cons, List.sum_cons, List.replicate_append_replicate]

/-- Laid together for a Concat, shared dequantizations make the shared one. -/
theorem repeats_of_concatenate (each : ∀ part ∈ parts, ∃ shape, part.1.Repeats shared shape)
    (extent_eq : shape[axis]? = some (parts.map Prod.snd).sum)
    (found : concatenate parts axis shape.length = .ok values) : values.Repeats shared shape := by
  unfold concatenate at found
  split at found
  case h_1 => cases found
  case h_2 first channels rest =>
    obtain ⟨channelValues, isChannels, found⟩ := Outcome.bind_eq_ok.mp found
    rw [← List.sum_eq_foldl] at found
    have numbers : List.Forall₂ (fun part pair => pair.1 = List.replicate part.2 shared.scale ∧
        pair.2 = List.replicate part.2 (keptShift shared)) ((first, channels) :: rest)
          channelValues := by
      refine ((List.forall₂_and_left ..).mpr ⟨each, Outcome.mapM_eq_ok.mp isChannels⟩).imp ?_
      rintro ⟨values, channels⟩ pair ⟨⟨_, repeats⟩, isPair⟩
      obtain ⟨scales, isScales, isPair⟩ := Outcome.bind_eq_ok.mp isPair
      unfold keptShift
      split
      case isTrue near =>
        rw [repeats.dropped near] at isPair
        cases Except.ok.inj isPair
        exact ⟨repeats.scale.perChannel_eq isScales, rfl⟩
      case isFalse far =>
        obtain ⟨shift, shifted, spreads⟩ := repeats.kept (not_le.mp far)
        rw [shifted] at isPair
        obtain ⟨shifts, isShifts, isPair⟩ := Outcome.bind_eq_ok.mp isPair
        cases Except.ok.inj isPair
        exact ⟨repeats.scale.perChannel_eq isScales, spreads.perChannel_eq isShifts⟩
    rw [flatMap_of_replicate (numbers.imp fun _ _ => And.left),
      flatMap_of_replicate (numbers.imp fun _ _ => And.right)] at found
    obtain ⟨scale, isScale, found⟩ := Outcome.bind_eq_ok.mp found
    obtain ⟨_, repeats⟩ : ∃ shape, first.Repeats shared shape :=
      each (first, channels) List.mem_cons_self
    have spread (tensor : Tensor Rat) (number : Rat)
        (made : (Tensor.ofList first.restoredType (axisShape shape.length axis
          (((first, channels) :: rest).map Prod.snd).sum) (List.replicate _ number)).mapError
            (fun error => RevisionError.graph (.tensor error)) = .ok tensor) :=
      Tensor.spreads_collapse (Outcome.mapError_eq_ok.mp made) extent_eq
    dsimp only at found
    split at found
    case isTrue some_shifted =>
      have far : 1 / 10 ^ 6 < |shared.shift| := by
        obtain ⟨part, member, shifted⟩ := List.any_eq_true.mp some_shifted
        obtain ⟨_, repeats⟩ := each part member
        by_contra near
        simp [repeats.dropped (not_lt.mp near)] at shifted
      obtain ⟨shift, isShift, found⟩ := Outcome.bind_eq_ok.mp found
      cases Except.ok.inj found
      rw [keptShift, if_neg (not_le.mpr far)] at isShift
      refine ⟨repeats.restoredType_eq, spread scale _ isScale,
        fun near => absurd near (not_le.mpr far),
        fun _ => ⟨shift.collapse, ?_, spread shift _ isShift⟩⟩
      rw [shiftUnlessZero, Tensor.isNearZero_of_replicate
        (Tensor.ofList_eq_ok (Outcome.mapError_eq_ok.mp isShift)).2 far]
      rfl
    case isFalse none_shifted =>
      cases Except.ok.inj found
      refine ⟨repeats.restoredType_eq, spread scale _ isScale, fun _ => rfl, fun far => ?_⟩
      obtain ⟨_, shifted, _⟩ := repeats.kept far
      exact absurd (List.any_eq_true.mpr ⟨_, List.mem_cons_self, by simp [shifted]⟩) none_shifted

end Dequantization

/-! ## Layer after layer -/

namespace Op

variable [Scalar α] {op : Op α} {integral : Bool} {inputs : List (NDArray α)}
  {feed : Option (NDArray α)} {value : NDArray α}

theorem evaluate_concat_eq_ok {axis : Nat} :
    (concat axis).evaluate integral inputs feed = .ok value ↔
      NDArray.concatenate axis inputs = .ok value :=
  Outcome.mapError_eq_ok

omit [Scalar α] in
theorem exists_concat_of_kind (kind : op.kind = .concat) : ∃ axis, op = concat axis := by
  cases op with
  | concat axis => exact ⟨axis, rfl⟩
  | _ => cases kind

/-- An operation makes one value of each window of its data. -/
def Pools (op : Op α) (kernel : Kernel) (reduce : List α → α) : Prop :=
  op = maxPool kernel ∧ reduce = Scalar.largest ∨ op = avgPool kernel ∧ reduce = NDArray.mean

theorem exists_pools (between : Subgraph.isIntermediate op.kind = true) :
    ∃ kernel reduce, op.Pools kernel reduce := by
  cases op with
  | maxPool kernel => exact ⟨kernel, _, Or.inl ⟨rfl, rfl⟩⟩
  | avgPool kernel => exact ⟨kernel, _, Or.inr ⟨rfl, rfl⟩⟩
  | _ => cases between

theorem Pools.evaluate_eq {kernel : Kernel} {reduce : List α → α} {data : NDArray α}
    (pools : op.Pools kernel reduce) (isData : inputs[0]? = some data)
    (pooled : data.pool? kernel.height kernel.width reduce = some value) :
    op.evaluate integral inputs feed = .ok value := by
  rcases pools with ⟨rfl, rfl⟩ | ⟨rfl, rfl⟩ <;>
    (simp only [evaluate, isData, bind, Except.bind, pooled]; rfl)

theorem Pools.evaluate_eq_ok {kernel : Kernel} {reduce : List α → α} (pools : op.Pools kernel reduce) :
    op.evaluate integral inputs feed = .ok value ↔ ∃ data, inputs[0]? = some data ∧
      data.pool? kernel.height kernel.width reduce = some value := by
  constructor
  · intro evaluated
    cases isData : inputs[0]? with
    | none =>
        rcases pools with ⟨rfl, rfl⟩ | ⟨rfl, rfl⟩ <;>
          (simp only [evaluate, isData, bind, Except.bind] at evaluated; cases evaluated)
    | some data =>
        refine ⟨data, rfl, ?_⟩
        cases pooled : data.pool? kernel.height kernel.width reduce with
        | none =>
            rcases pools with ⟨rfl, rfl⟩ | ⟨rfl, rfl⟩ <;>
              (simp only [evaluate, isData, bind, Except.bind, pooled] at evaluated; cases evaluated)
        | some result =>
            exact congrArg some
              (Except.ok.inj ((pools.evaluate_eq isData pooled).symm.trans evaluated))
  · rintro ⟨data, isData, pooled⟩
    exact pools.evaluate_eq isData pooled

end Op

namespace Graph

/-- Shapes are those that are inferred, and values have them. -/
structure HasConsistentShapes [Scalar α] (graph : Graph α) (feeds : Assignment α) : Prop where
  inferred : graph.IsInferred
  declared : ∀ id value, graph.HasValue feeds id value → graph.shape? id = some value.shape

/-- Every node has a value of its shape, and its shape is the one that is inferred. -/
def fitsValues [Scalar α] (graph : Graph α) (values : Assignment α) : Bool :=
  graph.nodeIds.all fun id => (graph.node? id).all fun node =>
    (values id).map NDArray.shape == some node.shape && (node.op.kind == .parameter ||
      (node.op.inferShape (graph.shapesOf (graph.inputs id))).toOption == some node.shape)

theorem hasConsistentShapes_of_evaluate [Scalar α] {graph : Graph α} {feeds values : Assignment α}
    (evaluated : graph.evaluate feeds = .ok values) (fits : graph.fitsValues values = true) :
    graph.HasConsistentShapes feeds := by
  have each {id : NodeId} {node : Node α} (found : graph.node? id = some node) :
      (values id).map NDArray.shape = some node.shape ∧ (node.op.kind = .parameter ∨
        (node.op.inferShape (graph.shapesOf (graph.inputs id))).toOption = some node.shape) := by
    have checked := List.all_eq_true.mp fits id (mem_nodeIds.mpr (contains_of_node? found))
    rw [found, Option.all_some, Bool.and_eq_true, Bool.or_eq_true] at checked
    simpa only [beq_iff_eq] using checked
  constructor
  · refine isInferred_iff.mpr fun id node found notParameter => ?_
    have inferred := (each found).2.resolve_left notParameter
    cases infers : node.op.inferShape (graph.shapesOf (graph.inputs id)) with
    | error fault =>
        rw [infers] at inferred
        cases inferred
    | ok shape =>
        rw [infers] at inferred
        exact congrArg Except.ok (Option.some.inj inferred)
  · intro id value has
    obtain ⟨node, _, found, _⟩ := hasValue_iff.mp has
    have valued := (each found).1
    rw [has.value_eq evaluated] at valued
    rw [shape?, found, Option.map_some]
    exact valued.symm

theorem IsInferred.hasConsistentShapes [Scalar α] {graph : Graph α} {feeds : Assignment α}
    (inferred : graph.IsInferred) (wellFormed : graph.WellFormed) (evaluable : graph.IsEvaluable)
    (fed : graph.IsFed feeds) : graph.HasConsistentShapes feeds := by
  obtain ⟨values, evaluated, each⟩ := inferred.exists_evaluate wellFormed evaluable fed
  refine ⟨inferred, fun id value has => ?_⟩
  obtain ⟨found, isFound, isShape⟩ := each id has.live
  cases Option.some.inj (isFound.symm.trans (has.value_eq evaluated))
  exact isShape

theorem IsInferred.shape?_data {graph : Graph α} {id : NodeId} {view : FakeQuantizeNode α}
    (inferred : graph.IsInferred) (isView : graph.fakeQuantizeNode id = .ok view)
    (live : graph.contains view.data.node = true) : graph.shape? view.data.node = graph.shape? id := by
  obtain ⟨present, isOp, inputs⟩ := fakeQuantizeNode_eq_ok isView
  obtain ⟨data, isData⟩ := contains_eq_true_iff.mp live
  have isShape : graph.shape? view.data.node = some data.shape := by
    rw [shape?, isData, Option.map_some]
  have infers := isInferred_iff.mp inferred id view.node present (by simp [isOp, Op.kind])
  rw [isOp, inputs, shapesOf_cons isShape] at infers
  obtain ⟨type, isType, shape_eq⟩ := Outcome.map_eq_ok.mp infers
  rw [isShape, shape?, present, Option.map_some, ← shape_eq, Op.eq_of_infer_fakeQuantize isType]
  rfl

/-- A fake quantization has the shape of its data. -/
theorem HasConsistentShapes.shape_eq_data [Scalar α] {graph : Graph α} {feeds : Assignment α}
    {id : NodeId} {view : FakeQuantizeNode α} {value datum : NDArray α}
    (shapes : graph.HasConsistentShapes feeds) (isView : graph.fakeQuantizeNode id = .ok view)
    (has : graph.HasValue feeds id value) (hasData : graph.HasValue feeds view.data.node datum) :
    value.shape = datum.shape := by
  have declared := shapes.declared id value has
  rw [← shapes.inferred.shape?_data isView hasData.live, shapes.declared _ _ hasData] at declared
  exact (Option.some.inj declared).symm

section Carrying

variable [Scalar α] {graph : Graph α} {cache : DequantizationCache α} {path : List NodeId}
  {id : NodeId} {values : Dequantization α}

/-- A Concat carries what is laid together from its inputs. -/
theorem carriedDequantization_concat {axis : Nat} (isOp : graph.op? id = some (.concat axis))
    (uncached : cache.get? id = none)
    (carried : graph.carriedDequantization cache path id = .ok values) :
    ∃ parts, List.Forall₂ (fun source part =>
        (graph.shape? source.node).bind (fun shape => shape[axis]?) = some part.2 ∧
          graph.carriedDequantization cache (id :: path) source.node = .ok part.1)
        (graph.inputs id) parts ∧
      Dequantization.concatenate parts axis ((graph.shape? id).getD []).length = .ok values := by
  rw [carriedDequantization, uncached] at carried
  dsimp only at carried
  split at carried
  case isFalse => cases carried
  case isTrue =>
    rw [show (graph.node? id).map Node.op = some (.concat axis) from isOp] at carried
    obtain ⟨parts, isParts, joined⟩ := Outcome.bind_eq_ok.mp carried
    refine ⟨parts, (Outcome.mapM_eq_ok.mp isParts).imp fun source part isPart => ?_, joined⟩
    split at isPart
    case h_1 => cases isPart
    case h_2 channels isExtent =>
      obtain ⟨values, isValues, isPart⟩ := Outcome.bind_eq_ok.mp isPart
      cases Except.ok.inj isPart
      exact ⟨isExtent, isValues⟩

/-- Pooling carries what its data carries. -/
theorem carriedDequantization_pool {op : Op α} {kernel : Kernel} {reduce : List α → α}
    (pools : op.Pools kernel reduce) (isOp : graph.op? id = some op)
    (uncached : cache.get? id = none)
    (carried : graph.carriedDequantization cache path id = .ok values) :
    ∃ parent, graph.inputNode? id 0 = some parent ∧
      graph.carriedDequantization cache (id :: path) parent = .ok values := by
  rw [carriedDequantization, uncached] at carried
  dsimp only at carried
  split at carried
  case isFalse => cases carried
  case isTrue =>
    rw [show (graph.node? id).map Node.op = some op from isOp] at carried
    cases isParent : graph.inputNode? id 0 with
    | none =>
        rw [isParent] at carried
        rcases pools with ⟨rfl, _⟩ | ⟨rfl, _⟩ <;> cases carried
    | some parent =>
        rw [isParent] at carried
        rcases pools with ⟨rfl, _⟩ | ⟨rfl, _⟩ <;> exact ⟨parent, rfl, carried⟩

end Carrying

end Graph

/-- No fake quantization of a subgraph depends on another member. -/
def Subgraph.IsApart (subgraph : Subgraph) (graph : Graph α) : Prop :=
  ∀ quantizer ∈ subgraph.quantizers, ∀ layer ∈ subgraph.layers, layer ≠ quantizer →
    graph.Independent layer quantizer

/-- Fake quantizations are apart from each other when what they read reads nothing and is no
layer. -/
theorem Subgraph.isApart_of_inputs {subgraph : Subgraph} {graph : Graph α}
    (alone : ∀ quantizer ∈ subgraph.quantizers, ∀ output ∈ graph.inputs quantizer,
      graph.inputs output.node = [] ∧ output.node ∉ subgraph.layers) : subgraph.IsApart graph := by
  intro quantizer member layer isLayer different reaches
  rcases Relation.ReflTransGen.cases_tail reaches with equal | ⟨source, reaches, reads⟩
  · exact different equal.symm
  · obtain ⟨output, listed, rfl⟩ := Graph.reads_iff_mem_inputs.mp reads
    obtain ⟨reads_nothing, outside⟩ := alone quantizer member output listed
    rcases Relation.ReflTransGen.cases_tail reaches with equal | ⟨_, _, reads⟩
    · exact outside (equal ▸ isLayer)
    · obtain ⟨_, inner, _⟩ := Graph.reads_iff_mem_inputs.mp reads
      rw [reads_nothing] at inner
      cases inner

namespace Graph.QuantizesTogether

variable {before narrowed dequantized after middle : Graph Rat} {subgraph : Subgraph}
  {withConvert : Bool} {narrowings : List (Narrowing Rat)} {moved : NodeId → NodeId}
  {cache : DequantizationCache Rat} {chains : NodeId → Option DequantizationChain}
  {feeds : Assignment Rat} {layer : NodeId} {value : NDArray Rat}

/-- A layer has the shape of its value where it has gone. -/
theorem shape?_moved
    (quantizes : before.QuantizesTogether subgraph withConvert narrowings moved cache chains
      narrowed dequantized after) (wellFormed : before.WellFormed)
    (discovers : Subgraph.Discovers before [] subgraph) (apart : subgraph.IsApart before)
    (shapes : before.HasConsistentShapes feeds)
    (keeps : narrowed.KeepsMembers (subgraph.relocate moved) middle)
    (member : layer ∈ subgraph.layers) (has : before.HasValue feeds layer value) :
    middle.shape? (moved layer) = some value.shape := by
  have works := discovers.layer_works member
  rw [← shapes.declared layer value has,
    shape?_congr (keeps.node_eq _ (quantizes.requantizes.works_moved works).1)]
  by_cases listed : layer ∈ subgraph.quantizers
  · obtain ⟨narrowing, isNarrowing, rfl⟩ := quantizes.exists_narrowing listed
    obtain ⟨view, node, _, _, isView, present, _, _, _, shape_eq, _⟩ :=
      quantizes.requantizes.narrowed narrowing isNarrowing
    obtain ⟨_, _, inputs⟩ := fakeQuantizeNode_eq_ok isView
    have reads : before.Reads view.data.node narrowing.id :=
      reads_of_mem_inputs (by rw [inputs]; exact List.mem_cons_self)
    have outside : view.data.node ∉ narrowings.map Narrowing.id := by
      rw [quantizes.ids_eq]
      intro isQuantizer
      refine apart narrowing.id listed view.data.node (discovers.quantizer_layer _ isQuantizer).1
        (fun equal => ?_) (Relation.ReflTransGen.single reads)
      exact wellFormed.acyclic _ (Relation.TransGen.single (equal ▸ reads))
    rw [← shapes.inferred.shape?_data isView (wellFormed.consistent.reads_live reads).1,
      ← shape_eq outside, shape?, present, Option.map_some]
  · have outside : layer ∉ narrowings.map Narrowing.id := quantizes.ids_eq ▸ listed
    rw [quantizes.moved_other listed,
      shape?_congr (quantizes.requantizes.node_other layer works outside)]

theorem mem_layers_of_pools (discovers : Subgraph.Discovers before [] subgraph)
    (wellFormed : before.WellFormed) (member : layer ∈ subgraph.layers) {node : Node Rat}
    {kernel : Kernel} {reduce : List Rat → Rat} (found : before.node? layer = some node)
    (pools : node.op.Pools kernel reduce) :
    ∃ output, (before.inputs layer)[0]? = some output ∧ output.node ∈ subgraph.layers := by
  have kind : before.kind? layer = some node.op.kind := by rw [kind?, found]; rfl
  obtain ⟨parent, isParent, due⟩ := discovers.data layer member _ kind (by
    rcases pools with ⟨equal, _⟩ | ⟨equal, _⟩ <;> rw [equal] <;> rfl)
  rw [inputNode?, (wellFormed.exact layer).input?_eq] at isParent
  obtain ⟨output, read, rfl⟩ := Option.map_eq_some_iff.mp isParent
  exact ⟨output, read, due.resolve_right (by simp)⟩

/-- Concats and pooling are kept, but for the fake quantizations that they read. -/
theorem kept_layer
    (quantizes : before.QuantizesTogether subgraph withConvert narrowings moved cache chains
      narrowed dequantized after) (discovers : Subgraph.Discovers before [] subgraph)
    (keeps : narrowed.KeepsMembers (subgraph.relocate moved) middle)
    (member : layer ∈ subgraph.layers) (outside : layer ∉ subgraph.quantizers) :
    middle.node? layer = before.node? layer ∧
      middle.inputs layer = (before.inputs layer).map (relocated moved) := by
  have works := discovers.layer_works member
  have untouched : layer ∉ narrowings.map Narrowing.id := quantizes.ids_eq ▸ outside
  have stays := quantizes.moved_other outside
  have live : narrowed.contains layer = true := stays ▸ (quantizes.requantizes.works_moved works).1
  constructor
  · rw [keeps.node_eq layer live, quantizes.requantizes.node_other layer works untouched]
  · rw [keeps.inputs_eq layer live (stays ▸ (quantizes.contains_moved discovers works).mpr member),
      quantizes.requantizes.inputs_other layer works untouched]

/-- How dequantizations are carried through a subgraph. Fake quantizations start with those that are
kept for them, a Concat lays together what its parts carry, and pooling hands on what its data
carry. -/
structure CarriesOn (before : Graph Rat) (subgraph : Subgraph) (feeds : Assignment Rat)
    (narrowings : List (Narrowing Rat))
    (carries : NodeId → NDArray Rat → Dequantization Rat → Prop) : Prop where
  quantizer : ∀ narrowing ∈ narrowings, ∀ value, before.HasValue feeds narrowing.id value →
    carries narrowing.id value narrowing.values
  concat : ∀ concat ∈ subgraph.concats, ∀ axis inputs value parts values,
    before.op? concat = some (.concat axis) → before.Derives feeds (before.inputs concat) inputs →
      NDArray.concatenate axis inputs = .ok value →
        parts.map Prod.snd = inputs.map (fun input => input.extent axis) →
          (∀ (place : Nat) output input part, (before.inputs concat)[place]? = some output →
            inputs[place]? = some input → parts[place]? = some part →
              carries output.node input part.1) →
            Dequantization.concatenate parts axis value.shape.length = .ok values →
              carries concat value values
  pool : ∀ layer ∈ subgraph.layers, ∀ op kernel reduce output data value values,
    before.op? layer = some op → op.Pools kernel reduce → (before.inputs layer)[0]? = some output →
      before.HasValue feeds output.node data →
        data.pool? kernel.height kernel.width reduce = some value →
          carries output.node data values → carries layer value values

/-- What is carried to a layer where it has gone. -/
theorem carries_of_carriesOn {carries : NodeId → NDArray Rat → Dequantization Rat → Prop}
    (quantizes : before.QuantizesTogether subgraph withConvert narrowings moved cache chains
      narrowed dequantized after) (wellFormed : before.WellFormed)
    (discovers : Subgraph.Discovers before [] subgraph) (apart : subgraph.IsApart before)
    (shapes : before.HasConsistentShapes feeds)
    (carriesOn : CarriesOn before subgraph feeds narrowings carries)
    (keeps : narrowed.KeepsMembers (subgraph.relocate moved) middle)
    (has : before.HasValue feeds layer value) (member : layer ∈ subgraph.layers)
    {path : List NodeId} {values : Dequantization Rat}
    (carried : middle.carriedDequantization cache path (moved layer) = .ok values) :
    carries layer value values := by
  have isShape {layer : NodeId} {value : NDArray Rat} (member : layer ∈ subgraph.layers)
      (has : before.HasValue feeds layer value) : middle.shape? (moved layer) = some value.shape :=
    quantizes.shape?_moved wellFormed discovers apart shapes keeps member has
  induction has generalizing path values with
  | @compute layer node inputs value found length_eq known computed induction =>
      by_cases listed : layer ∈ subgraph.quantizers
      · obtain ⟨narrowing, isNarrowing, rfl⟩ := quantizes.exists_narrowing listed
        rw [carriedDequantization, quantizes.cached narrowing isNarrowing] at carried
        rw [← Except.ok.inj carried]
        exact carriesOn.quantizer narrowing isNarrowing value
          (.compute found length_eq known computed)
      · obtain ⟨node_eq, inputs_eq⟩ := quantizes.kept_layer discovers keeps member listed
        have uncached := quantizes.uncached layer (discovers.layer_works member) listed
        have isOp : before.op? layer = some node.op := by rw [op?, found, Option.map_some]
        have isOp' : middle.op? layer = some node.op := by
          rw [op?, node_eq, found, Option.map_some]
        have inner := isShape member (.compute found length_eq known computed)
        rw [quantizes.moved_other listed] at inner carried
        rcases discovers.layer_kind layer member with
          ⟨_, isQuantizer⟩ | ⟨kind, isConcat⟩ | ⟨kind, isKind, between⟩
        · exact absurd isQuantizer listed
        · rw [kind?, found, Option.map_some, Option.some.injEq] at kind
          obtain ⟨axis, op_eq⟩ := Op.exists_concat_of_kind kind
          rw [op_eq] at isOp isOp' computed
          obtain ⟨parts, related, joins⟩ := carriedDequantization_concat isOp' uncached carried
          rw [inputs_eq, List.forall₂_map_left_iff] at related
          rw [inner] at joins
          have isLayer {place : Nat} {output : Output}
              (read : (before.inputs layer)[place]? = some output) :
              output.node ∈ subgraph.layers :=
            (discovers.inputs layer isConcat output (List.mem_of_getElem? read)).resolve_right
              (by simp)
          have counts : List.Forall₂ (fun part input => part.2 = NDArray.extent input axis) parts
              inputs := by
            refine forall₂_of_getElem? (related.length_eq.symm.trans length_eq)
              fun place part input isPart isInput => ?_
            obtain ⟨output, read⟩ := exists_getElem?_of_length_eq length_eq isInput
            have isExtent := (related_of_getElem? related read isPart).1
            rw [show middle.shape? (relocated moved output).node = some input.shape from
              isShape (isLayer read) (known place output input read isInput), Option.bind_some]
              at isExtent
            rw [NDArray.extent, List.getD_eq_getElem?_getD, isExtent, Option.getD_some]
          refine carriesOn.concat layer isConcat axis inputs value parts values isOp
            (forall₂_of_getElem? length_eq known) (Op.evaluate_concat_eq_ok.mp computed) ?_
            (fun place output input part read isInput isPart => ?_) joins
          · rw [← List.forall₂_eq_eq_eq, List.forall₂_map_left_iff, List.forall₂_map_right_iff]
            exact counts
          · exact induction place output input read isInput (isLayer read)
              (related_of_getElem? related read isPart).2
        · rw [kind?, found, Option.map_some, Option.some.injEq] at isKind
          obtain ⟨kernel, reduce, pools⟩ := Op.exists_pools (isKind ▸ between)
          obtain ⟨output, read, isLayer⟩ := mem_layers_of_pools discovers wellFormed member found pools
          obtain ⟨data, isData, pooled⟩ := pools.evaluate_eq_ok.mp computed
          obtain ⟨parent, isParent, carried⟩ := carriedDequantization_pool pools isOp' uncached carried
          rw [inputNode?, (keeps.wellFormed.exact layer).input?_eq, inputs_eq, List.getElem?_map, read]
            at isParent
          cases isParent
          exact carriesOn.pool layer member node.op kernel reduce output data value values isOp pools
            read (known 0 output data read isData) pooled
            (induction 0 output data read isData isLayer carried)

/-- A dequantization that is kept for all fake quantizations is carried as it is. -/
theorem carriesOn_repeats {shared : SharedScale Rat}
    (kept : ∀ narrowing ∈ narrowings, narrowing.values = shared.dequantization) :
    CarriesOn before subgraph feeds narrowings
      fun _ value values => values.Repeats shared value.shape where
  quantizer := by
    intro narrowing isNarrowing value _
    rw [kept narrowing isNarrowing]
    exact Dequantization.repeats_dequantization shared value.shape
  concat := by
    intro concat _ axis inputs value parts values _ derives joined counts each joins
    obtain ⟨_, _, _, extent_eq, _⟩ := NDArray.concatenate_eq_ok joined
    refine Dequantization.repeats_of_concatenate (fun part listed => ?_) (counts ▸ extent_eq) joins
    obtain ⟨place, isPart⟩ := List.mem_iff_getElem?.mp listed
    have alike : inputs.length = parts.length := by
      rw [← List.length_map (fun input => input.extent axis), ← counts, List.length_map]
    obtain ⟨input, isInput⟩ := exists_getElem?_of_length_eq alike isPart
    obtain ⟨output, read⟩ := exists_getElem?_of_length_eq derives.length_eq isInput
    exact ⟨input.shape, each place output input part read isInput isPart⟩
  pool := by
    intro layer _ op kernel reduce output data value values _ _ _ _ pooled repeats
    exact repeats.of_smaller (NDArray.shape_pool? pooled)

/-- What is carried to a layer is the shared dequantization if it is kept for all fake
quantizations. -/
theorem repeats_of_carried
    (quantizes : before.QuantizesTogether subgraph withConvert narrowings moved cache chains
      narrowed dequantized after) (wellFormed : before.WellFormed)
    (discovers : Subgraph.Discovers before [] subgraph) (apart : subgraph.IsApart before)
    (shapes : before.HasConsistentShapes feeds) {shared : SharedScale Rat}
    (kept : ∀ narrowing ∈ narrowings, narrowing.values = shared.dequantization)
    (keeps : narrowed.KeepsMembers (subgraph.relocate moved) middle)
    (has : before.HasValue feeds layer value) (member : layer ∈ subgraph.layers)
    {path : List NodeId} {values : Dequantization Rat}
    (carried : middle.carriedDequantization cache path (moved layer) = .ok values) :
    values.Repeats shared value.shape :=
  quantizes.carries_of_carriesOn wellFormed discovers apart shapes (carriesOn_repeats kept) keeps has
    member carried

end Graph.QuantizesTogether

end QuantGraph
