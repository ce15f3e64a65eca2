import Mathlib
import QuantGraph.Proofs.Dequantization.Values
import QuantGraph.Proofs.Graph.Construction

/-! The effect of a split on the values. Whoever read the fake quantization reads the end of the
dequantization instead; in exact arithmetic the value there differs by the shift that was left
out, and not at all where there is a Subtract. -/

namespace QuantGraph

namespace Tensor

/-- Two tensors differ wherever a position of their common shape reads them. -/
def Differs [Scalar α] (left right : Tensor α) : Prop :=
  ∀ shape, left.shape.broadcast right.shape = some shape →
    ∀ index, shape.Holds index → left.values.read index ≠ right.values.read index

variable [Scalar α] {left right tensor : Tensor α} {shape : Shape} {index : Index}

theorem Differs.read_ne (differs : left.Differs right) (leftStretches : left.shape.StretchesTo shape)
    (rightStretches : right.shape.StretchesTo shape) (holds : shape.Holds index) :
    left.values.read index ≠ right.values.read index := by
  obtain ⟨common, found⟩ := Shape.exists_broadcast leftStretches rightStretches
  obtain ⟨leftCommon, rightCommon, least⟩ := Shape.broadcast_eq_some_iff.mp found
  have stretches := least shape leftStretches rightStretches
  have inside := differs common found _ (holds.stretchedIndex stretches)
  rwa [NDArray.read_stretchedIndex leftCommon stretches holds,
    NDArray.read_stretchedIndex rightCommon stretches holds] at inside

theorem abs_read_le_of_isNearZero (near : tensor.isNearZero = true)
    (stretches : tensor.shape.StretchesTo shape) (holds : shape.Holds index) :
    Scalar.abs (tensor.values.read index) ≤ (zeroTolerance : α) := by
  have inside := holds.stretchedIndex stretches
  change Scalar.abs (tensor.values.get (tensor.shape.stretchedIndex index)) ≤ _
  rw [NDArray.get_eq_getElem (NDArray.offset_lt_size_data inside)]
  refine of_decide_eq_true (List.all_eq_true.mp (Bool.and_eq_true_iff.mp near).2 _ ?_)
  exact Array.getElem_mem_toList _

end Tensor

namespace Graph

/-! ## Subtracts -/

/-- A node reads, on its first slot, what a Subtract gives. -/
def ReadsSubtract (graph : Graph α) (id : NodeId) : Prop :=
  (graph.inputNode? id 0).bind graph.kind? = some .subtract

instance (graph : Graph α) (id : NodeId) : Decidable (graph.ReadsSubtract id) :=
  inferInstanceAs (Decidable (_ = _))

section Subtracts

variable {graph before after : Graph α} {id old new narrowed quantize : NodeId} {data : Output}
  {values : Dequantization α} {withConvert : Bool} {chain : DequantizationChain} {name : String}
  {precision : ElementType} {updatePrecision : Bool}

theorem readsSubtract_iff (exact : graph.HasExactSlots id) {output : Output} {rest : List Output}
    (inputs : graph.inputs id = output :: rest) :
    graph.ReadsSubtract id ↔ graph.kind? output.node = some .subtract := by
  rw [ReadsSubtract, inputNode?, exact.input?_eq, inputs]
  rfl

/-- The end of a chain reads a Subtract when the chain has a shift. -/
theorem HoldsChain.readsSubtract_iff (exact : graph.HasExactSlots chain.tail.node)
    (holds : graph.HoldsChain values data withConvert chain)
    (other : graph.kind? data.node ≠ some .subtract) :
    graph.ReadsSubtract chain.tail.node ↔ values.shift ≠ none := by
  obtain ⟨id, isMultiply, _, constant, inputs, _⟩ := holds.multiply
  have tail_eq : chain.tail.node = id := by rw [DequantizationChain.tail, isMultiply]; rfl
  rw [Graph.readsSubtract_iff exact (tail_eq ▸ inputs)]
  have subtract := holds.subtract
  unfold HoldsSubtract at subtract
  cases shifted : values.shift with
  | some shift =>
      rw [shifted] at subtract
      obtain ⟨difference, isSubtract, isOp, _⟩ := subtract
      rw [isSubtract]
      exact iff_of_true (kind?_of_op? isOp) (by simp)
  | none =>
      rw [shifted] at subtract
      rw [show chain.subtract = none from subtract]
      refine iff_of_false ?_ (by simp)
      have convert := holds.convert
      unfold HoldsConvert at convert
      split at convert
      case isTrue =>
        obtain ⟨node, isConvert, isOp, _⟩ := convert
        rw [isConvert]
        change graph.kind? node ≠ _
        rw [kind?_of_op? isOp]
        exact fun equal => by cases equal
      case isFalse =>
        rw [convert]
        exact other

theorem Replaces.readsSubtract_iff (replaces : before.Replaces old new after)
    (wellFormed : before.WellFormed) (live : after.contains new = true) :
    after.ReadsSubtract new ↔ before.ReadsSubtract new := by
  have inputs_eq : after.inputs new = before.inputs new :=
    (replaces.inputs_eq (wellFormed.exact new) live).trans (if_pos rfl)
  have same : after.inputNode? new 0 = before.inputNode? new 0 := by
    rw [inputNode?, inputNode?, (replaces.wellFormed.exact new).input?_eq,
      (wellFormed.exact new).input?_eq, inputs_eq]
  unfold ReadsSubtract
  rw [same]
  cases read : before.inputNode? new 0 with
  | none => rfl
  | some source =>
      have source_live := (replaces.wellFormed.consistent.reads_live
        (reads_of_inputNode? (same.trans read))).1
      rw [Option.bind_some, Option.bind_some, kind?_congr (replaces.node_eq source_live)]

end Subtracts

/-! ## The way of a split -/

/-- The graphs and nodes on the way of a split, from the one in which a fake quantization to the
target range has been added to the one in which it is restored from there. -/
structure Splits [Scalar α] (before : Graph α) (id : NodeId) (target : TargetRange α)
    (view : FakeQuantizeNode α) (values : Dequantization α) (updatePrecision : Bool)
    (narrowed quantize : NodeId) (chain : DequantizationChain)
    (withNarrowed settled attached after : Graph α) : Prop where
  isView : before.fakeQuantizeNode id = .ok view
  restores : before.restoringDequantization id target = .ok values
  grows : before.Grows withNarrowed
  supports : ∀ op, before.Supports op [view.data.node, view.inputLow.node, view.inputHigh.node,
    view.outputLow.node, view.outputHigh.node] → withNarrowed.Supports op [narrowed]
  quantizes :
    withNarrowed.QuantizesTo view.data view.inputLow view.inputHigh view.levels target narrowed
  settles : withNarrowed.SettlesQuantized narrowed (view.node.name ++ "_original") target.precision
    updatePrecision quantize settled
  extension : settled.Extends chain.stages attached
  holds : attached.HoldsChain values quantize.output updatePrecision chain
  replaces : attached.Replaces id chain.tail.node after

section Splits

variable [Scalar α] {graph before after withNarrowed settled attached : Graph α}
  {feeds : Assignment α} {id other narrowed quantize tail : NodeId} {view : FakeQuantizeNode α}
  {values : Dequantization α} {target : TargetRange α} {chain : DequantizationChain}
  {updatePrecision : Bool} {name : String} {precision : ElementType} {value : NDArray α}
  {low high : Tensor α}

omit [Scalar α] in
/-- Narrowed, a fake quantization of the same data quantizes it to the target range. -/
theorem quantizesTo_of_adds {withLow withHigh : Graph α} {lowest highest : NodeId}
    {type : ElementType}
    (addsLow : graph.Adds ((Op.constant (.scalar type target.min)).draft "") [] lowest withLow)
    (addsHigh : withLow.Adds ((Op.constant (.scalar type target.max)).draft "") [] highest withHigh)
    (addsNarrowed : withHigh.Adds (view.draftWithOutputs name lowest highest).relax
      [view.data, view.inputLow, view.inputHigh, lowest.output, highest.output] narrowed
      withNarrowed) :
    withNarrowed.QuantizesTo view.data view.inputLow view.inputHigh view.levels target narrowed where
  op_eq := addsNarrowed.op?_new
  bounds := by
    have lowSame := (addsHigh.grows.trans addsNarrowed.grows).sameAt addsLow.live
    have highSame := addsNarrowed.grows.sameAt addsHigh.live
    exact ⟨type, lowest, highest, addsNarrowed.inputs_new, lowSame.1.trans addsLow.op?_new,
      lowSame.2.trans addsLow.inputs_new, highSame.1.trans addsHigh.op?_new,
      highSame.2.trans addsHigh.inputs_new⟩

theorem Decomposes.exists_splits (wellFormed : graph.WellFormed)
    (decomposes : graph.Decomposes id target updatePrecision quantize tail after) :
    ∃ view values narrowed chain withNarrowed settled attached,
      graph.Splits id target view values updatePrecision narrowed quantize chain withNarrowed settled
        attached after ∧ chain.tail.node = tail := by
  obtain ⟨view, values, lowest, highest, narrowed, chain, withLow, withHigh, withNarrowed, settled,
    attached, isView, restores, addsLow, addsHigh, addsNarrowed, settles, attaches, rfl,
    replaces⟩ := decomposes
  have supports (op : NodeId) (supports : graph.Supports op [view.data.node, view.inputLow.node,
      view.inputHigh.node, view.outputLow.node, view.outputHigh.node]) :
      withNarrowed.Supports op [narrowed] := by
    have supports := (supports.of_adds addsLow (by simp)).of_adds addsHigh (by simp)
    exact (supports.of_adds addsNarrowed (by simp [NodeId.output])).mono (by simp)
  have settledSupports := settles.supports (supports id (supports_fakeQuantizeNode wellFormed isView))
  obtain ⟨extension, holds⟩ := attaches.extends settledSupports.wellFormed
  exact ⟨view, values, narrowed, chain, withNarrowed, settled, attached,
    { isView := isView
      restores := restores
      grows := (addsLow.grows.trans addsHigh.grows).trans addsNarrowed.grows
      supports := supports
      quantizes := quantizesTo_of_adds addsLow addsHigh addsNarrowed
      settles := settles
      extension := extension
      holds := holds
      replaces := replaces }, rfl⟩

theorem SettlesQuantized.inputs_eq
    (settles : before.SettlesQuantized narrowed name precision updatePrecision quantize after)
    (live : before.contains other = true) (stays : after.contains other = true) :
    after.inputs other = before.inputs other := by
  rcases settles with ⟨folded, middle, _, adds, sheds, _⟩ | ⟨_, rfl, declares⟩
  · exact (sheds.inputs_eq stays).trans (adds.grows.inputs_eq live)
  · split at declares
    case isTrue => exact (declares.sameAt (GraphRevision.isRedeclared_declaring _) other).2
    case isFalse => rw [declares]

/-- The quantized values are not the result of a Subtract. -/
theorem SettlesQuantized.kind?_ne
    (settles : before.SettlesQuantized narrowed name precision updatePrecision quantize after)
    (isQuantize : before.kind? narrowed = some .fakeQuantize) :
    after.kind? quantize ≠ some .subtract := by
  intro isSubtract
  rcases settles with ⟨folded, middle, _, adds, sheds, _⟩ | ⟨_, rfl, declares⟩
  · have kept := kind?_congr (sheds.node_eq quantize (contains_of_kind? isSubtract))
    rw [isSubtract, kind?_of_op? adds.op?_new] at kept
    cases kept
  · have same : after.kind? quantize = before.kind? quantize := by
      split at declares
      case isTrue =>
        exact (declares.sameAt (GraphRevision.isRedeclared_declaring _) quantize).kind?_eq
      case isFalse => rw [declares]
    rw [same, isQuantize] at isSubtract
    cases isSubtract

/-- A fake quantization has the value that its limits make of its data. -/
theorem HasValue.exists_limits (has : graph.HasValue feeds id value)
    (isView : graph.fakeQuantizeNode id = .ok view) (enough : 2 ≤ view.levels) :
    ∃ (datum : NDArray α) (limits : LimitArrays α),
      graph.HasValue feeds view.data.node datum ∧
      graph.HasValue feeds view.inputLow.node limits.inputLow ∧
      graph.HasValue feeds view.inputHigh.node limits.inputHigh ∧
      graph.HasValue feeds view.outputLow.node limits.outputLow ∧
      graph.HasValue feeds view.outputHigh.node limits.outputHigh ∧
      limits.commonShape datum.shape = .ok value.shape ∧ value.shape.IsAddressable ∧
      value = limits.quantize view.levels view.node.elementType.isIntegral datum value.shape := by
  obtain ⟨present, isQuantize, inputs⟩ := fakeQuantizeNode_eq_ok isView
  obtain ⟨node, arrays, found, derives, computed⟩ := hasValue_iff.mp has
  cases Option.some.inj (present.symm.trans found)
  rw [inputs] at derives
  unfold Derives at derives
  obtain _ | ⟨hasData, _ | ⟨hasInputLow, _ | ⟨hasInputHigh, _ | ⟨hasOutputLow, _ | ⟨hasOutputHigh,
    _ | _⟩⟩⟩⟩⟩ := derives
  rename_i datum inputLow inputHigh outputLow outputHigh
  let limits : LimitArrays α := ⟨inputLow, inputHigh, outputLow, outputHigh⟩
  rw [isQuantize, show [datum, inputLow, inputHigh, outputLow, outputHigh] = datum :: limits.toList
    from rfl, Op.evaluate_fakeQuantize_eq_ok enough] at computed
  obtain ⟨common, addressable, equal⟩ := computed
  exact ⟨datum, limits, hasData, hasInputLow, hasInputHigh, hasOutputLow, hasOutputHigh, common,
    addressable, equal⟩

namespace Splits

variable (splits : graph.Splits id target view values updatePrecision narrowed quantize chain
  withNarrowed settled attached after)

include splits

theorem settled_supports {op : NodeId}
    (supports : graph.Supports op [view.data.node, view.inputLow.node, view.inputHigh.node,
      view.outputLow.node, view.outputHigh.node]) : settled.Supports op [quantize] :=
  splits.settles.supports (splits.supports op supports)

theorem wellFormed_settled (wellFormed : graph.WellFormed) : settled.WellFormed :=
  (splits.settled_supports (supports_fakeQuantizeNode wellFormed splits.isView)).wellFormed

theorem tail_fresh : settled.contains chain.tail.node = false := by
  obtain ⟨node, member, equal⟩ := splits.holds.tail_eq
  rw [equal]
  exact splits.extension.fresh node member

theorem tail_live (wellFormed : graph.WellFormed) : after.contains chain.tail.node = true := by
  have supports := splits.settled_supports (supports_fakeQuantizeNode wellFormed splits.isView)
  exact splits.replaces.keeps splits.extension.wellFormed.acyclic splits.replaces.new_live
    (splits.extension.grows.independent supports.wellFormed.consistent splits.tail_fresh
      supports.live)

/-- A reader of a fake quantization reads, once it is split, the end of the dequantization on
the same slot. -/
theorem input?_eq (wellFormed : graph.WellFormed) {consumer : NodeId} {slot : Nat} {index : UInt8}
    (reads : graph.input? consumer slot = some ⟨id, index⟩) :
    after.input? consumer slot = some ⟨chain.tail.node, index⟩ := by
  have read : (graph.inputs consumer)[slot]? = some ⟨id, index⟩ :=
    ((wellFormed.exact consumer).input?_eq slot).symm.trans reads
  have readsId : graph.Reads id consumer := reads_of_mem_inputs (List.mem_of_getElem? read)
  -- What the fake quantization reads does not depend on the reader.
  have supports : graph.Supports consumer [view.data.node, view.inputLow.node, view.inputHigh.node,
      view.outputLow.node, view.outputHigh.node] :=
    ⟨wellFormed, live_of_reads wellFormed readsId, fun node member reaches =>
      (supports_fakeQuantizeNode wellFormed splits.isView).independent node member
        (Relation.ReflTransGen.head readsId reaches)⟩
  have stays := (splits.settled_supports supports).live
  have different : consumer ≠ chain.tail.node := ne_of_contains stays splits.tail_fresh
  have inputs_eq : attached.inputs consumer = graph.inputs consumer :=
    (splits.extension.grows.inputs_eq stays).trans
      ((splits.settles.inputs_eq (splits.grows.live supports.live) stays).trans
        (splits.grows.inputs_eq supports.live))
  refine splits.replaces.input?_eq splits.extension.wellFormed different ?_
  rw [(splits.extension.wellFormed.exact consumer).input?_eq, inputs_eq, read]

/-- The end of the dequantization reads a Subtract when there is a shift. -/
theorem readsSubtract_iff (wellFormed : graph.WellFormed) (live : settled.contains quantize = true) :
    after.ReadsSubtract chain.tail.node ↔ values.shift ≠ none := by
  rw [splits.replaces.readsSubtract_iff splits.extension.wellFormed (splits.tail_live wellFormed)]
  refine splits.holds.readsSubtract_iff (splits.extension.wellFormed.exact _) ?_
  change attached.kind? quantize ≠ _
  rw [kind?_congr (splits.extension.grows.node_eq quantize live)]
  exact splits.settles.kind?_ne (kind?_of_op? splits.quantizes.op_eq)

/-- The data and the input limits are the same constants, if any, when the fake quantization
to the target range has been added. -/
theorem limitsMeet_iff (wellFormed : graph.WellFormed) (relation : Tensor α → Shape → Prop) :
    withNarrowed.LimitsMeet relation view.data view.inputLow view.inputHigh ↔
      graph.LimitsMeet relation view.data view.inputLow view.inputHigh := by
  refine limitsMeet_congr fun output member => constant?_congr (splits.grows.node_eq _ ?_)
  have read : output ∈ graph.inputs id := by
    rw [(fakeQuantizeNode_eq_ok splits.isView).2.2]
    exact List.mem_append_left [view.outputLow, view.outputHigh] member
  exact (wellFormed.consistent.reads_live (reads_of_mem_inputs read)).1

/-- The dequantization leads back to the interval between the output limits. -/
theorem restores_limits (wellFormed : graph.WellFormed)
    (isLow : graph.constant? view.outputLow.node = some low)
    (isHigh : graph.constant? view.outputHigh.node = some high) :
    values.restoredType = view.node.elementType ∧ values.Restores target low high := by
  obtain ⟨present, _, inputs⟩ := fakeQuantizeNode_eq_ok splits.isView
  exact restoringDequantization_eq_ok present
    ((limit?_of_read (wellFormed.exact id) (by rw [inputs]; rfl)).trans isLow)
    ((limit?_of_read (wellFormed.exact id) (by rw [inputs]; rfl)).trans isHigh) splits.restores

/-- After a split the end of the dequantization restores what the target range stands for, at
every position of the value that was there before. -/
theorem exists_value (wellFormed : graph.WellFormed)
    (real : view.node.elementType.isReal = true) (enough : 2 ≤ view.levels)
    (stable : target.IsStable view.levels)
    (covers : graph.LimitsMeet Tensor.Covers view.data view.inputLow view.inputHigh)
    (isLow : graph.constant? view.outputLow.node = some low)
    (isHigh : graph.constant? view.outputHigh.node = some high)
    (has : graph.HasValue feeds id value) :
    low.StretchesTo value.shape ∧ high.StretchesTo value.shape ∧ ∃ restored : NDArray α,
      after.HasValue feeds chain.tail.node restored ∧
      (after.ReadsSubtract chain.tail.node ↔ values.shift ≠ none) ∧
      restored.shape.StretchesTo value.shape ∧
      (graph.LimitsMeet Tensor.StretchesTo view.data view.inputLow view.inputHigh →
        restored.shape = value.shape) ∧
      ∀ index, value.shape.Holds index → ∃ inputLow inputHigh datum : α,
        value.read index = (Interval.mk inputLow inputHigh (low.values.read index)
          (high.values.read index)).project view.levels datum ∧
        restored.read index = values.restore index
          ((Interval.mk inputLow inputHigh target.min target.max).project view.levels datum) := by
  obtain ⟨type_eq, restores⟩ := splits.restores_limits wellFormed isLow isHigh
  obtain ⟨datum, limits, hasData, hasInputLow, hasInputHigh, hasOutputLow, hasOutputHigh, common,
    addressable, equal⟩ := has.exists_limits splits.isView enough
  have low_eq := hasOutputLow.eq_of_constant isLow
  have high_eq := hasOutputHigh.eq_of_constant isHigh
  obtain ⟨dataStretches, limitsStretch, least⟩ := LimitArrays.commonShape_eq_ok.mp common
  have each := limitsStretch
  simp only [LimitArrays.toList, List.forall_mem_cons, List.not_mem_nil, false_implies,
    implies_true, and_true, low_eq, high_eq] at each
  obtain ⟨inputLowStretches, inputHighStretches, lowStretches, highStretches⟩ := each
  have supports := supports_fakeQuantizeNode wellFormed splits.isView
  obtain ⟨quantized, hasQuantized, fromData, fromLimits, stretches, quantizedRead⟩ :=
    splits.settles.exists_value (splits.supports id supports).wellFormed splits.quantizes stable
      enough ((splits.limitsMeet_iff wellFormed _).mpr covers)
      (splits.grows.hasValue wellFormed.consistent hasData)
      (splits.grows.hasValue wellFormed.consistent hasInputLow)
      (splits.grows.hasValue wellFormed.consistent hasInputHigh) dataStretches inputLowStretches
      inputHighStretches addressable
  have constantsStretch : values.StretchesTo value.shape :=
    ⟨(restores.scale value.shape lowStretches highStretches).1,
      fun shift isShift => (restores.shift shift isShift value.shape lowStretches highStretches).1⟩
  obtain ⟨restored, hasRestored, fromQuantized, fromScale, restoredStretches, restoredRead⟩ :=
    splits.holds.exists_value (type_eq ▸ real)
      (splits.extension.grows.hasValue (splits.wellFormed_settled wellFormed).consistent hasQuantized)
      stretches constantsStretch addressable
  refine ⟨lowStretches, highStretches, restored,
    splits.replaces.hasValue hasRestored splits.replaces.apart
      (splits.tail_live wellFormed),
    splits.readsSubtract_iff wellFormed hasQuantized.live, restoredStretches, fun meets => ?_,
    fun index inside => ?_⟩
  · obtain ⟨fromInputLow, fromInputHigh⟩ := fromLimits ((splits.limitsMeet_iff wellFormed _).mpr meets)
    refine restoredStretches.antisymm (least restored.shape (fromData.trans fromQuantized) ?_)
    simp only [LimitArrays.toList, List.forall_mem_cons, List.not_mem_nil, false_implies,
      implies_true, and_true, low_eq, high_eq]
    exact ⟨fromInputLow.trans fromQuantized, fromInputHigh.trans fromQuantized,
      restores.spans.1.trans fromScale, restores.spans.2.trans fromScale⟩
  · refine ⟨limits.inputLow.read index, limits.inputHigh.read index, datum.read index, ?_, ?_⟩
    · rw [equal]
      refine (LimitArrays.read_quantize dataStretches limitsStretch (Shape.stretchesTo_refl _)
        inside).trans ?_
      rw [LimitArrays.readInterval, low_eq, high_eq, Interval.quantize, ElementType.isIntegral, real]
      rfl
    · rw [restoredRead index inside, quantizedRead index inside]

end Splits

end Splits

end Graph

namespace Dequantization

section Restoring

variable [Scalar α] {values : Dequantization α} {target : TargetRange α} {low high : Tensor α}
  {shape : Shape} {index : Index}

/-- What is restored without a shift. -/
theorem Restores.restore_of_unshifted (restores : values.Restores target low high)
    (lowStretches : low.StretchesTo shape) (highStretches : high.StretchesTo shape)
    (holds : shape.Holds index) (unshifted : values.shift = none) (value : α) :
    values.restore index value = value *
      ((high.values.read index - low.values.read index) / (target.max - target.min)) := by
  rw [restore, unshifted]
  exact congrArg (value * ·) ((restores.scale shape lowStretches highStretches).2 index holds)

/-- What is restored with a shift. -/
theorem Restores.restore_of_shifted (restores : values.Restores target low high)
    (lowStretches : low.StretchesTo shape) (highStretches : high.StretchesTo shape)
    (holds : shape.Holds index) (shifted : values.shift ≠ none) (value : α) :
    values.restore index value = (value -
        (high.values.read index * target.min - low.values.read index * target.max) /
          (high.values.read index - low.values.read index)) *
      ((high.values.read index - low.values.read index) / (target.max - target.min)) := by
  obtain ⟨shift, isShift⟩ := Option.ne_none_iff_exists'.mp shifted
  rw [restore, isShift]
  exact congrArg₂ (fun shift scale => (value - shift) * scale)
    ((restores.shift shift isShift shape lowStretches highStretches).2 index holds)
    ((restores.scale shape lowStretches highStretches).2 index holds)

/-- A shift that is left out although there is a zero point is as good as zero. -/
theorem Restores.abs_dropped_le (restores : values.Restores target low high)
    (lowStretches : low.StretchesTo shape) (highStretches : high.StretchesTo shape)
    (holds : shape.Holds index) (unshifted : values.shift = none)
    (pointed : target.hasZeroPoint = true) :
    Scalar.abs ((high.values.read index * target.min - low.values.read index * target.max) /
      (high.values.read index - low.values.read index)) ≤ (Tensor.zeroTolerance : α) := by
  obtain ⟨shift, combines, near⟩ := restores.dropped unshifted pointed
  obtain ⟨stretches, each⟩ := combines shape lowStretches highStretches
  have shift_eq := each index holds
  have bound := Tensor.abs_read_le_of_isNearZero near stretches holds
  rw [shift_eq] at bound
  exact bound

end Restoring

end Dequantization


/-- Scaled by the ratio of the widths and moved by the integer that stands for zero, the steps
above the least integer are those above the lower limit. -/
theorem restored_with_shift {min max low high step : Rat} (width : 0 < max - min)
    (differ : low ≠ high) :
    (min + step - (high * min - low * max) / (high - low)) * ((high - low) / (max - min)) -
      (low + step / (max - min) * (high - low)) = 0 := by
  have spread : high - low ≠ 0 := sub_ne_zero.mpr differ.symm
  field_simp [width.ne']
  ring

theorem left_out_eq {min max low high : Rat} (differ : low ≠ high) :
    (min * high - max * low) / (max - min) =
      (high * min - low * max) / (high - low) * ((high - low) / (max - min)) := by
  have spread : high - low ≠ 0 := sub_ne_zero.mpr differ.symm
  rw [div_mul_div_cancel₀ spread]
  ring

namespace Dequantization.Restores

variable {values : Dequantization Rat} {target : TargetRange Rat} {low high : Tensor Rat}
  {shape : Shape} {index : Index} (restores : values.Restores target low high)
  (width : 0 < target.max - target.min) (lowStretches : low.StretchesTo shape)
  (highStretches : high.StretchesTo shape) (holds : shape.Holds index)

include restores width lowStretches highStretches holds

/-- A step above the least integer is restored without a shift as a step above the lower limit,
moved by what the shift would have taken away. -/
theorem restore_sub_of_unshifted (unshifted : values.shift = none) (step : Rat) :
    values.restore index (target.min + step) -
        (low.values.read index + step / (target.max - target.min) *
          (high.values.read index - low.values.read index)) =
      (target.min * high.values.read index - target.max * low.values.read index) /
        (target.max - target.min) :=
  (congrArg (· - _) (restores.restore_of_unshifted lowStretches highStretches holds unshifted
    (target.min + step))).trans (restored_without_shift width)

/-- With a shift it is restored as the step above the lower limit. -/
theorem restore_sub_of_shifted (shifted : values.shift ≠ none)
    (differ : low.values.read index ≠ high.values.read index) (step : Rat) :
    values.restore index (target.min + step) -
      (low.values.read index + step / (target.max - target.min) *
        (high.values.read index - low.values.read index)) = 0 :=
  (congrArg (· - _) (restores.restore_of_shifted lowStretches highStretches holds shifted
    (target.min + step))).trans (restored_with_shift width differ)

omit width in
/-- What a shift would have taken away that is left out although there is a zero point is a small
part of the scale. -/
theorem abs_left_out_le (unshifted : values.shift = none) (pointed : target.hasZeroPoint = true)
    (differ : low.values.read index ≠ high.values.read index) :
    |(target.min * high.values.read index - target.max * low.values.read index) /
        (target.max - target.min)| ≤
      1 / 10 ^ 6 * |(high.values.read index - low.values.read index) / (target.max - target.min)| := by
  rw [left_out_eq differ, abs_mul]
  refine mul_le_mul_of_nonneg_right ?_ (abs_nonneg _)
  have bound := restores.abs_dropped_le lowStretches highStretches holds unshifted pointed
  rw [Exact.abs_eq, Exact.zeroTolerance_eq] at bound
  exact bound

end Dequantization.Restores

namespace GraphRevision

open QuantGraph.Graph

/-- In exact arithmetic a split moves every value by what the shift would have taken away, if it
was left out, and leaves every value alone if there is a Subtract. -/
theorem exists_restored_of_decomposeFakeQuantize {graph after : Graph Rat}
    {id quantize tail : NodeId} {view : FakeQuantizeNode Rat} {low high : Tensor Rat}
    {target : TargetRange Rat} {minimum : Int} {updatePrecision : Bool}
    (wellFormed : graph.WellFormed) (isView : graph.fakeQuantizeNode id = .ok view)
    (real : view.node.elementType.isReal = true) (enough : 2 ≤ view.levels)
    (isLow : graph.constant? view.outputLow.node = some low)
    (isHigh : graph.constant? view.outputHigh.node = some high) (differs : low.Differs high)
    (counts : target.Counts view.levels minimum)
    (covers : graph.LimitsMeet Tensor.Covers view.data view.inputLow view.inputHigh)
    (decomposed : (decomposeFakeQuantize id target updatePrecision).runOn graph =
      (.ok (quantize, tail), after)) :
    (∀ (consumer : NodeId) (slot : Nat) (index : UInt8),
      graph.input? consumer slot = some ⟨id, index⟩ →
        after.input? consumer slot = some ⟨tail, index⟩) ∧
    ∀ feeds value, graph.HasValue feeds id value → ∃ restored, after.HasValue feeds tail restored ∧
      restored.shape.StretchesTo value.shape ∧
      (graph.LimitsMeet Tensor.StretchesTo view.data view.inputLow view.inputHigh →
        restored.shape = value.shape) ∧
      ∀ index, value.shape.Holds index →
        restored.read index - value.read index =
          (if after.ReadsSubtract tail then 0 else
            (target.min * high.values.read index - target.max * low.values.read index) /
              (target.max - target.min)) ∧
        (target.hasZeroPoint = true → |restored.read index - value.read index| ≤ 1 / 10 ^ 6 *
          |(high.values.read index - low.values.read index) / (target.max - target.min)|) := by
  obtain ⟨_, decomposes⟩ :=
    (ensures_decomposeFakeQuantize wellFormed Relation.ReflTransGen.refl).of_runOn decomposed
  obtain ⟨_, values, narrowed, chain, withNarrowed, settled, attached, splits, rfl⟩ :=
    decomposes.exists_splits wellFormed
  cases Except.ok.inj (splits.isView.symm.trans isView)
  refine ⟨fun consumer slot index reads => splits.input?_eq wellFormed reads,
    fun feeds value has => ?_⟩
  obtain ⟨_, restores⟩ := splits.restores_limits wellFormed isLow isHigh
  have width := counts.width_pos enough
  obtain ⟨lowStretches, highStretches, restored, hasRestored, subtracts, stretches, shape_eq, each⟩ :=
    splits.exists_value wellFormed real enough (counts.isStable enough) covers isLow isHigh has
  refine ⟨restored, hasRestored, stretches, shape_eq, fun index inside => ?_⟩
  obtain ⟨inputLow, inputHigh, datum, isValue, isRestored⟩ := each index inside
  obtain ⟨step, _, project, image⟩ := counts.exists_step enough inputLow inputHigh datum
  have apart : low.values.read index ≠ high.values.read index :=
    differs.read_ne lowStretches highStretches inside
  have value_eq : value.read index = low.values.read index + step / (target.max - target.min) *
      (high.values.read index - low.values.read index) := isValue.trans (project _ _)
  have image_eq : (Interval.mk inputLow inputHigh target.min target.max).project view.levels datum =
      target.min + step := by
    rw [image, counts.min_eq]
    push_cast
    rfl
  have restored_eq : restored.read index = values.restore index (target.min + step) :=
    isRestored.trans (congrArg _ image_eq)
  rw [restored_eq, value_eq]
  by_cases shifted : values.shift = none
  · rw [if_neg fun reads => subtracts.mp reads shifted,
      restores.restore_sub_of_unshifted width lowStretches highStretches inside shifted]
    exact ⟨rfl, fun pointed =>
      restores.abs_left_out_le lowStretches highStretches inside shifted pointed apart⟩
  · rw [if_pos (subtracts.mpr shifted),
      restores.restore_sub_of_shifted width lowStretches highStretches inside shifted apart]
    refine ⟨rfl, fun _ => ?_⟩
    rw [abs_zero]
    positivity

/-! ## One number -/

/-- A fake quantization of one number, whose inputs stand on successive slots from a first one,
and a result. -/
def quantizedNumber (first : UInt8) : List (Draft Rat) :=
  let slots := [0, 1, 2, 3, 4].map fun place => (NodeId.mk place, first + place.toUInt8)
  [{ op := .parameter, name := "data", declared := some { elementType := .f32, shape := [1] } },
    (Op.constant (.scalar .f32 0)).draft "low",
    (Op.constant (.scalar .f32 255)).draft "high",
    (Op.constant (.scalar .f32 0)).draft "outputLow",
    (Op.constant (.scalar .f32 510)).draft "outputHigh",
    slots.foldl (fun draft (source, slot) => draft.input source.output slot)
      ((Op.fakeQuantize 256).draft "quantized"),
    (Op.result.draft "output").readAll [NodeId.mk 5]]

/-- The unsigned integers of eight bits, with a zero point. -/
def unsignedByte : TargetRange Rat :=
  { precision := .u8, min := 0, max := 255, hasZeroPoint := true }

theorem counts_unsignedByte : unsignedByte.Counts 256 0 where
  min_eq := rfl
  max_eq := by norm_num [unsignedByte]
  inside := by
    rintro low high equal
    cases equal
    decide

set_option synthInstance.maxSize 4096 in
theorem exists_restored_quantizedNumber :
    ∃ graph after quantize tail feeds restored, Graph.empty.addAll (quantizedNumber 0) = .ok graph ∧
      (decomposeFakeQuantize (NodeId.mk 5) unsignedByte true).runOn graph =
        (.ok (quantize, tail), after) ∧
      after.input? (NodeId.mk 6) 0 = some tail.output ∧ after.HasValue feeds tail restored ∧
      restored.shape = [1] ∧ restored.read [0] = 6 := by
  have ordered : ∀ draft ∈ quantizedNumber 0, draft.IsInOrder := by decide
  let feeds : Assignment Rat := Assignment.none.set (NodeId.mk 0) (.replicate [1] 3)
  have made : (Graph.empty.addAll (quantizedNumber 0)).map (fun graph =>
      (((decomposeFakeQuantize (NodeId.mk 5) unsignedByte true).runOn graph).1,
        (graph.fakeQuantizeNode (NodeId.mk 5)).map (fun view =>
          (view.levels, view.node.elementType.isReal, graph.constant? view.data.node,
            graph.constant? view.outputLow.node, graph.constant? view.outputHigh.node)),
        graph.input? (NodeId.mk 6) 0,
        (graph.evaluate feeds).map (fun values =>
          (values (NodeId.mk 5)).map fun value => (value.shape, value.read [0])))) =
      .ok (.ok (NodeId.mk 9, NodeId.mk 12),
        .ok (256, true, none, some (.scalar .f32 0), some (.scalar .f32 510)),
        some (NodeId.mk 5).output, .ok (some ([1], 6))) := by decide +kernel
  obtain ⟨graph, added, facts⟩ := Outcome.map_eq_ok.mp made
  simp only [Prod.mk.injEq] at facts
  obtain ⟨ran, viewed, reads, evaluated⟩ := facts
  obtain ⟨view, isView, facts⟩ := Outcome.map_eq_ok.mp viewed
  simp only [Prod.mk.injEq] at facts
  obtain ⟨levels, real, unfed, isLow, isHigh⟩ := facts
  obtain ⟨values, evaluated, facts⟩ := Outcome.map_eq_ok.mp evaluated
  obtain ⟨value, isValue, facts⟩ := Option.map_eq_some_iff.mp facts
  obtain ⟨shape, number⟩ := Prod.mk.inj facts
  have wellFormed := Graph.wellFormed_empty.addAll ordered added
  have differs : Tensor.Differs (.scalar .f32 0) (.scalar .f32 510 : Tensor Rat) := by
    rintro _ _ index _
    change (0 : Rat) ≠ 510
    norm_num
  have decomposed : (decomposeFakeQuantize (NodeId.mk 5) unsignedByte true).runOn graph =
      (.ok (NodeId.mk 9, NodeId.mk 12), _) := Prod.ext ran rfl
  obtain ⟨moved, restores⟩ := exists_restored_of_decomposeFakeQuantize wellFormed isView real
    (by rw [levels]; decide) isLow isHigh differs (levels ▸ counts_unsignedByte)
    (fun _ isData => by rw [unfed] at isData; cases isData) decomposed
  obtain ⟨restored, hasRestored, _, same, each⟩ :=
    restores feeds value (hasValue_of_evaluate evaluated isValue)
  refine ⟨graph, _, _, _, feeds, restored, added, decomposed, moved _ _ _ reads, hasRestored,
    (same fun _ isData => by rw [unfed] at isData; cases isData).trans shape, ?_⟩
  have inside : value.shape.Holds [0] := by
    rw [shape]
    exact List.Forall₂.cons Nat.one_pos List.Forall₂.nil
  have difference := (each [0] inside).1
  rw [show (unsignedByte.min * (Tensor.scalar ElementType.f32 (510 : Rat)).values.read [0] -
    unsignedByte.max * (Tensor.scalar ElementType.f32 (0 : Rat)).values.read [0]) /
      (unsignedByte.max - unsignedByte.min) = 0 from by
        change ((0 : Rat) * 510 - 255 * 0) / (255 - 0) = 0
        norm_num, ite_self] at difference
  exact (sub_eq_zero.mp difference).trans number

set_option synthInstance.maxSize 4096 in
/-- A fake quantization whose inputs do not start at the first slot is evaluated with its inputs
in their order, but split with the limits that stand on the slots: three counts as six before and
as 252 after. -/
theorem exists_decomposeFakeQuantize_ne :
    ∃ graph after feeds quantize tail, Graph.empty.addAll (quantizedNumber 1) = .ok graph ∧
      (decomposeFakeQuantize (NodeId.mk 5) unsignedByte true).runOn graph =
        (.ok (quantize, tail), after) ∧
      (graph.fakeQuantizeNode (NodeId.mk 5)).map (fun view =>
        (view.levels, view.node.elementType, graph.constant? view.outputLow.node,
          graph.constant? view.outputHigh.node)) =
        .ok (256, .f32, some (.scalar .f32 0), some (.scalar .f32 510)) ∧
      after.ReadsSubtract tail ∧
      (graph.evaluate feeds).map (fun values => (values (NodeId.mk 5)).map NDArray.toList) =
        .ok (some [6]) ∧
      (after.evaluate feeds).map (fun values => (values tail).map NDArray.toList) =
        .ok (some [252]) := by
  let feeds : Assignment Rat := Assignment.none.set (NodeId.mk 0) (.replicate [1] 3)
  have made : (Graph.empty.addAll (quantizedNumber 1)).map (fun graph =>
      let split := (decomposeFakeQuantize (NodeId.mk 5) unsignedByte true).runOn graph
      (split.1, (graph.fakeQuantizeNode (NodeId.mk 5)).map (fun view =>
          (view.levels, view.node.elementType, graph.constant? view.outputLow.node,
            graph.constant? view.outputHigh.node)),
        (split.2.inputNode? (NodeId.mk 14) 0).bind split.2.kind?,
        (graph.evaluate feeds).map (fun values => (values (NodeId.mk 5)).map NDArray.toList),
        (split.2.evaluate feeds).map (fun values => (values (NodeId.mk 14)).map NDArray.toList))) =
      .ok (.ok (NodeId.mk 9, NodeId.mk 14),
        .ok (256, .f32, some (.scalar .f32 0), some (.scalar .f32 510)), some .subtract,
        .ok (some [6]), .ok (some [252])) := by decide +kernel
  obtain ⟨graph, added, facts⟩ := Outcome.map_eq_ok.mp made
  simp only [Prod.mk.injEq] at facts
  obtain ⟨ran, isView, subtracts, before, after⟩ := facts
  exact ⟨graph, _, feeds, NodeId.mk 9, NodeId.mk 14, added, Prod.ext ran rfl, isView, subtracts,
    before, after⟩

end GraphRevision

end QuantGraph
