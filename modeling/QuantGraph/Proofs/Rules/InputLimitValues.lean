import Mathlib
import QuantGraph.Proofs.Revision.Success
import QuantGraph.Proofs.Rules.MovedValues

/-! The values behind a fake quantization that takes in the operation before it. The operation moves
the values to be quantized; its inverse moves the input limits the other way, so that every value
lies where it lay between them. Only the type of the data, which the operation may have kept away
from the fake quantization, can still show. -/

namespace QuantGraph

namespace Interval

/-- An operation with a constant may be left out when its inverse is applied to the input limits. -/
def MovesInput [Scalar α] (op inverse : BinaryOp) (levels : Nat) (constant : α) : Prop :=
  ∀ inputLow inputHigh outputLow outputHigh value : α,
    (Interval.mk (inverse.apply inputLow constant) (inverse.apply inputHigh constant) outputLow
        outputHigh).project levels value =
      (Interval.mk inputLow inputHigh outputLow outputHigh).project levels (op.apply value constant)

/-- The image of a value depends on whether it lies below or above the input limits, and on the
part of the way between them that it has gone. -/
theorem project_congr [Scalar α] {levels : Nat} {value value' : α}
    {low high low' high' outputLow outputHigh : α} (below : value ≤ low ↔ value' ≤ low')
    (above : high < value ↔ high' < value')
    (part : (value - low) / (high - low) = (value' - low') / (high' - low')) :
    (Interval.mk low high outputLow outputHigh).project levels value =
      (Interval.mk low' high' outputLow outputHigh).project levels value' := by
  simp only [project, below, above, part]

section Exact

variable {levels : Nat} {constant : Rat}

/-- Also where the limits are the wrong way round, a scale takes no value past them. -/
theorem movesInput_multiply (positive : 0 < constant) :
    MovesInput .multiply .divide levels constant := by
  intro inputLow inputHigh outputLow outputHigh value
  refine project_congr (le_div_iff₀ positive) (div_lt_iff₀ positive) ?_
  change (value - inputLow / constant) / (inputHigh / constant - inputLow / constant) =
    (value * constant - inputLow) / (inputHigh - inputLow)
  rw [← mul_div_mul_right _ _ positive.ne', sub_mul, sub_mul, div_mul_cancel₀ _ positive.ne',
    div_mul_cancel₀ _ positive.ne']

theorem movesInput_subtract : MovesInput .subtract .add levels constant := by
  intro inputLow inputHigh outputLow outputHigh value
  refine project_congr sub_le_iff_le_add.symm lt_sub_iff_add_lt.symm ?_
  change (value - (inputLow + constant)) / (inputHigh + constant - (inputLow + constant)) =
    (value - constant - inputLow) / (inputHigh - inputLow)
  congr 1 <;> ring

theorem movesInput_add : MovesInput .add .subtract levels constant := by
  intro inputLow inputHigh outputLow outputHigh value
  refine project_congr le_sub_iff_add_le sub_lt_iff_lt_add ?_
  change (value - (inputLow - constant)) / (inputHigh - constant - (inputLow - constant)) =
    (value + constant - inputLow) / (inputHigh - inputLow)
  congr 1 <;> ring

end Exact

end Interval

namespace LimitArrays

variable [Scalar α] {limits : LimitArrays α} {levels : Nat} {op inverse : BinaryOp}
  {data constant low high applied : NDArray α} {shape : Shape}

section Inverted

variable (isApplied : NDArray.combine op data constant = .ok applied)
  (isLow : NDArray.combine inverse limits.inputLow constant = .ok low)
  (isHigh : NDArray.combine inverse limits.inputHigh constant = .ok high)
  (lowStretches : low.shape.StretchesTo data.shape)
  (highStretches : high.shape.StretchesTo data.shape)

include isApplied isLow lowStretches

/-- Where the moved limits do not widen the data, the operation did not either. -/
theorem shape_eq_of_inverted : applied.shape = data.shape := by
  obtain ⟨common, _, _⟩ := NDArray.combine_eq_ok.mp isApplied
  obtain ⟨fromData, _, least⟩ := Shape.broadcast_eq_some_iff.mp common
  have fromConstant := (NDArray.stretchesTo_of_combine isLow).2.trans lowStretches
  exact (least data.shape (Shape.stretchesTo_refl _) fromConstant).antisymm fromData

include isHigh highStretches

theorem commonShape_inverted (common : limits.commonShape applied.shape = .ok shape) :
    LimitArrays.commonShape ⟨low, high, limits.outputLow, limits.outputHigh⟩ data.shape =
      .ok shape := by
  rw [shape_eq_of_inverted isApplied isLow lowStretches] at common
  obtain ⟨dataStretches, limitsStretch, least⟩ := commonShape_eq_ok.mp common
  obtain ⟨_, _, outputLow, outputHigh⟩ := forall_mem_toList.mp limitsStretch
  refine commonShape_eq_ok.mpr ⟨dataStretches, forall_mem_toList.mpr
    ⟨lowStretches.trans dataStretches, highStretches.trans dataStretches, outputLow, outputHigh⟩, ?_⟩
  intro other dataOther limitsOther
  obtain ⟨lowOther, highOther, outputLow, outputHigh⟩ := forall_mem_toList.mp limitsOther
  exact least other dataOther (forall_mem_toList.mpr
    ⟨(NDArray.stretchesTo_of_combine isLow).1.trans lowOther,
      (NDArray.stretchesTo_of_combine isHigh).1.trans highOther, outputLow, outputHigh⟩)

/-- Quantizing data between moved limits is quantizing what the operation makes of the data. -/
theorem quantize_inverted (common : limits.commonShape applied.shape = .ok shape)
    (moves : ∀ index, shape.Holds index →
      Interval.MovesInput op inverse levels (constant.read index)) (rounding : Bool) :
    LimitArrays.quantize ⟨low, high, limits.outputLow, limits.outputHigh⟩ levels rounding data
      shape = limits.quantize levels rounding applied shape := by
  let moved : LimitArrays α := ⟨low, high, limits.outputLow, limits.outputHigh⟩
  obtain ⟨appliedStretches, limitsStretch, _⟩ := commonShape_eq_ok.mp common
  obtain ⟨dataStretches, movedStretches, _⟩ := commonShape_eq_ok.mp
    (commonShape_inverted isApplied isLow isHigh lowStretches highStretches common)
  refine NDArray.ext_get rfl fun index inside => ?_
  have holds : shape.Holds index := inside
  have inside' : (limits.quantize levels rounding applied shape).shape.Holds index := holds
  have interval : moved.readInterval index =
      ⟨inverse.apply (limits.inputLow.read index) (constant.read index),
        inverse.apply (limits.inputHigh.read index) (constant.read index),
        limits.outputLow.read index, limits.outputHigh.read index⟩ := by
    rw [readInterval, NDArray.read_combine isLow (lowStretches.trans dataStretches) holds,
      NDArray.read_combine isHigh (highStretches.trans dataStretches) holds]
  calc (moved.quantize levels rounding data shape).get index
      = (moved.readInterval index).quantize levels rounding (data.read index) :=
        (NDArray.read_eq_get inside).symm.trans
          (read_quantize dataStretches movedStretches (Shape.stretchesTo_refl _) holds)
    _ = (limits.readInterval index).quantize levels rounding (applied.read index) := by
        rw [interval, NDArray.read_combine isApplied appliedStretches holds, Interval.quantize,
          moves index holds]
        rfl
    _ = (limits.quantize levels rounding applied shape).get index :=
        (read_quantize appliedStretches limitsStretch (Shape.stretchesTo_refl _) holds).symm.trans
          (NDArray.read_eq_get inside')

end Inverted

end LimitArrays

namespace Graph

section Inverting

variable [Scalar α] {graph : Graph α} {parent : NodeId} {operand : ConstantOperand α}
  {op inverse : BinaryOp} {low high newLow newHigh : Tensor α}

/-- The operations that input limits can take in, with their inverses: a product with one positive
number, what is left of the data after a constant is taken away, and a sum. -/
inductive Inverts (graph : Graph α) (parent : NodeId) (operand : ConstantOperand α) :
    BinaryOp → BinaryOp → Prop
  | multiply (kind : graph.kind? parent = some .multiply)
      (uniform : operand.tensor.isUniform = true)
      (positive : ∃ first, operand.tensor.first? = some first ∧ ¬ first ≤ 0) :
      Inverts graph parent operand .multiply .divide
  | subtract (kind : graph.kind? parent = some .subtract) (slot : operand.slot = 0) :
      Inverts graph parent operand .subtract .add
  | add (kind : graph.kind? parent = some .add) : Inverts graph parent operand .add .subtract

theorem limitsBeforeOperand_eq_ok (present : graph.limitsBeforeOperand parent operand low high =
      .ok (some (newLow, newHigh))) :
    ∃ op inverse, graph.Inverts parent operand op inverse ∧
      Tensor.combine inverse low operand.tensor = .ok newLow ∧
      Tensor.combine inverse high operand.tensor = .ok newHigh := by
  unfold limitsBeforeOperand at present
  split at present
  case h_1 kind =>
    split at present
    case isTrue positive =>
      obtain ⟨uniform, positive⟩ := Bool.and_eq_true_iff.mp positive
      refine ⟨.multiply, .divide, .multiply kind uniform ?_, foldLimits_eq_ok present⟩
      cases isFirst : operand.tensor.first? with
      | none => simp [isFirst] at positive
      | some first => exact ⟨first, rfl, by simpa [isFirst] using positive⟩
    case isFalse => cases present
  case h_2 kind =>
    split at present
    case isTrue slot => exact ⟨.subtract, .add, .subtract kind slot, foldLimits_eq_ok present⟩
    case isFalse => cases present
  case h_3 kind => exact ⟨.add, .subtract, .add kind, foldLimits_eq_ok present⟩
  case h_4 => cases present

theorem Inverts.kind_eq (inverts : graph.Inverts parent operand op inverse) :
    graph.kind? parent = some (Op.elementwise op : Op α).kind := by
  cases inverts <;> assumption

/-- After an operation the data does not lie in the order in which it lay before: a constant has
been reduced by it, or it has been multiplied by a number that is not positive. -/
def Disorders (graph : Graph α) (parent : NodeId) (operand : ConstantOperand α) : Prop :=
  graph.kind? parent = some .subtract ∧ operand.slot ≠ 0 ∨
    graph.kind? parent = some .multiply ∧ ∃ value ∈ operand.tensor.toList, value ≤ 0

theorem Disorders.limitsBeforeOperand_eq (disorders : graph.Disorders parent operand)
    (identical : ∀ left right : α, Scalar.identical left right = true → left = right) :
    graph.limitsBeforeOperand parent operand low high = .ok none := by
  unfold limitsBeforeOperand
  rcases disorders with ⟨kind, slot⟩ | ⟨kind, value, member, nonpositive⟩
  · simp only [kind, if_neg slot]
  · rw [kind]
    refine if_neg fun positive => ?_
    obtain ⟨uniform, positive⟩ := Bool.and_eq_true_iff.mp positive
    cases isFirst : operand.tensor.first? with
    | none => simp [isFirst] at positive
    | some first =>
        rw [Tensor.eq_first_of_isUniform identical uniform isFirst member] at nonpositive
        simp [isFirst, nonpositive] at positive

end Inverting

end Graph

/-! ## The way of a fusion -/

namespace FakeQuantizeNode

variable {view : FakeQuantizeNode α} {data low high : Output}

/-- A fake quantization of other data between other input limits, which accepts a precision and asks
for it as before. -/
def refitted (view : FakeQuantizeNode α) (data low high : Output) : Draft α :=
  let draft := view.draftWithInputs view.node.name data low high
  (if view.node.relaxed then draft.relax else draft).withPrecision? view.node.precision

theorem refitted_op : (view.refitted data low high).op = .fakeQuantize view.levels := by
  unfold refitted
  cases view.node.relaxed <;> cases view.node.precision <;> rfl

theorem refitted_declared : (view.refitted data low high).declared = none := by
  unfold refitted
  cases view.node.relaxed <;> cases view.node.precision <;> rfl

theorem refitted_readsInOrder : (view.refitted data low high).ReadsInOrder
    [data, low, high, view.outputLow, view.outputHigh] := by
  refine ⟨?_, by simp⟩
  unfold refitted
  cases view.node.relaxed <;> cases view.node.precision <;> rfl

/-- A precision that was asked for is asked for again, and now it is accepted. -/
theorem elementType_refitted (graph : Graph α) (type : ValueType) :
    (graph.draftNode (view.refitted data low high) type).elementType =
      view.node.precision.getD type.elementType := by
  unfold refitted
  cases view.node.relaxed <;> cases view.node.precision <;> rfl

end FakeQuantizeNode

namespace Graph

/-- The graphs and nodes on the way from a graph in which a fake quantization stands behind an
operation to the one in which another has taken the place of both. -/
structure FusesBefore [Scalar α] (before : Graph α) (id : NodeId) (found : InputFusion α)
    (low high fused : NodeId) (withLow withHigh withFused after : Graph α) : Prop
    extends before.Refits id found.low found.high
      (found.view.refitted found.data low.output high.output)
      [found.data, low.output, high.output, found.view.outputLow, found.view.outputHigh] low high
      fused withLow withHigh withFused after where
  present : before.inputFusion id = .ok (some found)

namespace FusesBefore

variable [Scalar α] {before withLow withHigh withFused after : Graph α} {id low high fused : NodeId}
  {found : InputFusion α}
  (fuses : before.FusesBefore id found low high fused withLow withHigh withFused after)

include fuses

theorem op?_eq : withFused.op? fused = some (.fakeQuantize found.view.levels) := by
  rw [fuses.adds.op?_new, FakeQuantizeNode.refitted_op]

/-- The fake quantization that is built gives the type of the data, where no other precision is
asked for. -/
theorem elementType?_eq {type : ElementType} (live : before.contains found.data.node = true)
    (isType : before.elementType? found.data.node = some type) :
    withFused.elementType? fused = some (found.view.node.precision.getD type) := by
  obtain ⟨data, isData, rfl⟩ := Option.map_eq_some_iff.mp isType
  have isData : withHigh.node? found.data.node = some data := by
    rw [(fuses.addsLow.grows.trans fuses.addsHigh.grows).node_eq _ live, isData]
  obtain ⟨drafted, isDrafted, isNode⟩ := fuses.adds.node_new
  have inferred := infer_of_draftedType FakeQuantizeNode.refitted_readsInOrder
    FakeQuantizeNode.refitted_declared isDrafted
  rw [FakeQuantizeNode.refitted_op, typesOf, List.filterMap_cons, isData] at inferred
  rw [elementType?, isNode, Option.map_some, FakeQuantizeNode.elementType_refitted,
    Op.eq_of_infer_fakeQuantize inferred]
  rfl

theorem node?_fused (wellFormed : before.WellFormed) (live : before.contains id = true) :
    after.node? fused = withFused.node? fused :=
  fuses.replaces.node_eq (fuses.new_live wellFormed live)

end FusesBefore

theorem inputNode?_of_fakeQuantizeNode {graph : Graph α} {id : NodeId} {view : FakeQuantizeNode α}
    (exact : graph.HasExactSlots id) (isView : graph.fakeQuantizeNode id = .ok view) :
    graph.inputNode? id 0 = some view.data.node := by
  rw [inputNode?, exact.input?_eq, (fakeQuantizeNode_eq_ok isView).2.2]
  rfl

theorem FusesInputLimits.exists_fusesBefore [Scalar α] {before after : Graph α} {id : NodeId}
    (fuses : before.FusesInputLimits id after) :
    ∃ found low high fused withLow withHigh withFused,
      before.FusesBefore id found low high fused withLow withHigh withFused after := by
  obtain ⟨found, low, high, fused, withLow, withHigh, withFused, present, addsLow, addsHigh, adds,
    replaces⟩ := fuses
  exact ⟨found, low, high, fused, withLow, withHigh, withFused,
    ⟨addsLow, addsHigh, adds, replaces⟩, present⟩

/-- A fake quantization gives real numbers, is not asked for others, and stands behind an operation
on real numbers. -/
def QuantizesRealData [Scalar α] (graph : Graph α) (id : NodeId) : Prop :=
  ∀ node ∈ graph.node? id, node.elementType.isReal = true ∧
    (∀ precision ∈ node.precision, precision.isReal = true) ∧
    ∀ parent ∈ graph.inputNode? id 0, ∀ operand ∈ graph.constantOperand? parent,
      ∀ type ∈ graph.elementType? operand.data.node, type.isReal = true

instance [Scalar α] (graph : Graph α) (id : NodeId) : Decidable (graph.QuantizesRealData id) :=
  inferInstanceAs (Decidable (∀ node ∈ graph.node? id, node.elementType.isReal = true ∧
    (∀ precision ∈ node.precision, precision.isReal = true) ∧
    ∀ parent ∈ graph.inputNode? id 0, ∀ operand ∈ graph.constantOperand? parent,
      ∀ type ∈ graph.elementType? operand.data.node, type.isReal = true))

section Exact

variable {before after withLow withHigh withFused : Graph Rat} {feeds values : Assignment Rat}
  {id parent low high fused : NodeId} {operand : ConstantOperand Rat} {op inverse : BinaryOp}
  {found : InputFusion Rat} {value : NDArray Rat}

theorem Inverts.ordered (inverts : before.Inverts parent operand op inverse) :
    operand.slot = 0 ∨ ∀ left right : Rat, op.apply left right = op.apply right left := by
  cases inverts with
  | multiply => exact Or.inr mul_comm
  | subtract _ slot => exact Or.inl slot
  | add => exact Or.inr add_comm

theorem Inverts.movesInput (inverts : before.Inverts parent operand op inverse) {shape : Shape}
    {index : Index} (stretches : operand.tensor.shape.StretchesTo shape) (holds : shape.Holds index)
    (levels : Nat) : Interval.MovesInput op inverse levels (operand.tensor.values.read index) := by
  cases inverts with
  | multiply _ uniform positive =>
      obtain ⟨first, isFirst, positive⟩ := positive
      rw [Tensor.eq_first_of_isUniform (fun _ _ => eq_of_beq) uniform isFirst
        (NDArray.read_mem_toList stretches holds)]
      exact Interval.movesInput_multiply (not_le.mp positive)
  | subtract => exact Interval.movesInput_subtract
  | add => exact Interval.movesInput_add

/-- The fake quantization that is built is as real as the old one. -/
theorem FusesBefore.exists_node
    (fuses : before.FusesBefore id found low high fused withLow withHigh withFused after)
    (real : before.QuantizesRealData id) (isNode : before.node? id = some found.view.node)
    (isParent : before.inputNode? id 0 = some parent)
    (isOperand : before.constantOperand? parent = some operand)
    (data_eq : found.data = operand.data) (live : before.contains operand.data.node = true) :
    ∃ node, withFused.node? fused = some node ∧ node.op = .fakeQuantize found.view.levels ∧
      node.elementType.isIntegral = found.view.node.elementType.isIntegral := by
  obtain ⟨isReal, askedReal, dataReal⟩ := real _ isNode
  obtain ⟨data, isData⟩ := contains_eq_true_iff.mp live
  have isType : before.elementType? operand.data.node = some data.elementType := by
    rw [elementType?, isData, Option.map_some]
  have fusedType := fuses.elementType?_eq (data_eq ▸ live) (data_eq ▸ isType)
  obtain ⟨node, isFused, fusedType⟩ := Option.map_eq_some_iff.mp fusedType
  have isOp := fuses.op?_eq
  rw [op?, isFused, Option.map_some, Option.some.injEq] at isOp
  refine ⟨node, isFused, isOp, ?_⟩
  rw [fusedType, ElementType.isIntegral, ElementType.isIntegral, isReal]
  cases asked : found.view.node.precision with
  | none => rw [Option.getD_none, dataReal _ isParent _ isOperand _ isType]
  | some precision => rw [Option.getD_some, askedReal precision asked]

/-- The fake quantization that is built gives what the old one gave. -/
theorem FusesBefore.hasValue_fused
    (fuses : before.FusesBefore id found low high fused withLow withHigh withFused after)
    (wellFormed : before.WellFormed) (real : before.QuantizesRealData id)
    (evaluated : before.evaluate feeds = .ok values) (declared : before.HasDeclaredShapes values)
    (isValue : values id = some value) :
    ∃ parent operand op inverse data, before.inputNode? id 0 = some parent ∧
      before.constantOperand? parent = some operand ∧ before.Inverts parent operand op inverse ∧
      found.data = operand.data ∧ before.HasValue feeds found.data.node data ∧
      withFused.HasValue feeds fused value := by
  have has := hasValue_of_evaluate evaluated isValue
  obtain ⟨lowest, highest, operand, isView, isLowest, isHighest, isOperand, _, isLimits, data_eq,
    lowStretches, highStretches⟩ := inputFusion_eq_ok fuses.present
  obtain ⟨op, inverse, inverts, isLow, isHigh⟩ := limitsBeforeOperand_eq_ok isLimits
  have isNode := (fakeQuantizeNode_eq_ok isView).1
  have isParent := inputNode?_of_fakeQuantizeNode (wellFormed.exact id) isView
  have enough := has.two_le isView
  obtain ⟨datum, limits, hasDatum, hasInputLow, hasInputHigh, hasOutputLow, hasOutputHigh, common,
    addressable, equal⟩ := has.exists_limits isView enough
  obtain ⟨data, hasData, isApplied⟩ := exists_combine (wellFormed.exact _)
    (op?_elementwise op inverts.kind_eq) isOperand inverts.ordered hasDatum
  have isLow := Tensor.values_of_combine isLow
  have isHigh := Tensor.values_of_combine isHigh
  rw [← hasInputLow.eq_of_constant isLowest] at isLow
  rw [← hasInputHigh.eq_of_constant isHighest] at isHigh
  rw [(declared _ _ (hasData.value_eq evaluated)).1] at lowStretches highStretches
  obtain ⟨fusedNode, isFused, isOp, unrounded⟩ :=
    fuses.exists_node real isNode isParent isOperand data_eq hasData.live
  have carried {other : NodeId} {value : NDArray Rat} (has : before.HasValue feeds other value) :
      withFused.HasValue feeds other value := fuses.carries wellFormed has
  refine ⟨_, operand, op, inverse, data, isParent, isOperand, inverts, data_eq, data_eq ▸ hasData,
    hasValue_iff.mpr ⟨fusedNode, data :: LimitArrays.toList ⟨found.low.values, found.high.values,
      limits.outputLow, limits.outputHigh⟩, isFused, ?_, ?_⟩⟩
  · rw [fuses.adds.inputs_new]
    exact .cons (data_eq ▸ carried hasData) (.cons (fuses.hasValue_low feeds)
      (.cons (fuses.hasValue_high feeds) (.cons (carried hasOutputLow)
        (.cons (carried hasOutputHigh) .nil))))
  · have constantStretches := (NDArray.stretchesTo_of_combine isLow).2.trans lowStretches
    obtain ⟨appliedStretches, _, _⟩ := LimitArrays.commonShape_eq_ok.mp common
    have same := LimitArrays.shape_eq_of_inverted isApplied isLow lowStretches
    rw [isOp]
    refine (Op.evaluate_fakeQuantize_eq_ok enough).mpr ⟨LimitArrays.commonShape_inverted isApplied
      isLow isHigh lowStretches highStretches common, addressable, ?_⟩
    rw [LimitArrays.quantize_inverted isApplied isLow isHigh lowStretches highStretches common
      (fun _ holds => inverts.movesInput ((same ▸ constantStretches).trans appliedStretches) holds _),
      unrounded]
    exact equal

theorem FusesInputLimits.exists_givesPlace (fuses : before.FusesInputLimits id after)
    (wellFormed : before.WellFormed) (real : before.QuantizesRealData id)
    (evaluated : before.evaluate feeds = .ok values) (declared : before.HasDeclaredShapes values)
    (isValue : values id = some value) :
    ∃ parent operand op inverse fused, before.inputNode? id 0 = some parent ∧
      before.constantOperand? parent = some operand ∧ before.Inverts parent operand op inverse ∧
      before.GivesPlace id operand.data.node fused after feeds values := by
  obtain ⟨found, low, high, fused, withLow, withHigh, withFused, fuses⟩ := fuses.exists_fusesBefore
  obtain ⟨parent, operand, op, inverse, data, isParent, isOperand, inverts, data_eq, hasData,
    hasFused⟩ := fuses.hasValue_fused wellFormed real evaluated declared isValue
  refine ⟨parent, operand, op, inverse, fused, isParent, isOperand, inverts, data_eq ▸ ?_⟩
  exact fuses.givesPlace wellFormed ⟨found.data, by simp, rfl⟩ hasData hasFused evaluated isValue

end Exact

end Graph

/-! ## The rule -/

namespace GraphRevision

open QuantGraph.Graph Revision

theorem fuseIntoInputLimits_refuses [Scalar α] {graph : Graph α} {id parent : NodeId}
    {operand : ConstantOperand α} (wellFormed : graph.WellFormed)
    (identical : ∀ left right : α, Scalar.identical left right = true → left = right)
    (isParent : graph.inputNode? id 0 = some parent)
    (isOperand : graph.constantOperand? parent = some operand)
    (disorders : graph.Disorders parent operand) :
    (fuseIntoInputLimits id).Ensures graph (fun _ => False)
      fun changed after => changed = false ∧ after = graph := by
  have refused : graph.inputFusion id = .ok none := by
    unfold inputFusion
    split
    case h_1 => rfl
    case h_2 view isView =>
      have isData := inputNode?_of_fakeQuantizeNode (wellFormed.exact id) isView
      cases Option.some.inj (isParent.symm.trans isData)
      dsimp only
      split
      case h_1 isLow isHigh isOther =>
        cases Option.some.inj (isOperand.symm.trans isOther)
        rw [disorders.limitsBeforeOperand_eq identical]
        split <;> rfl
      case h_2 => rfl
  unfold fuseIntoInputLimits
  rw [ensures_bind, ensures_get, refused]
  exact ⟨rfl, rfl⟩

end GraphRevision

namespace Transformation

open QuantGraph.Graph Revision

section Types

variable [Scalar α] {registry : Registry} {policy : Policy} {id : NodeId}
  {state after : RunState α}

theorem fusesInputLimits_of_runOn (wellFormed : state.graph.WellFormed)
    (kind : state.graph.kind? id = some .fakeQuantize)
    (ran : (Transformation.apply ⟨.fuseFakeQuantize, policy⟩ registry id).runOn state =
      (.ok true, after)) : state.graph.FusesInputLimits id after.graph := by
  obtain ⟨_, fuses, _⟩ := (@ensures_apply α _ state registry id ⟨.fuseFakeQuantize, policy⟩ _
    wellFormed .refl kind OpKind.noConfusion).of_runOn ran
  exact fuses

/-- A fake quantization that takes in the operation before it keeps its levels and the precision that
is asked of it. Where none is asked for, its type is from then on that of the data behind the
operation, whatever it was before. -/
theorem exists_elementType?_of_inputFusion (wellFormed : state.graph.WellFormed)
    (kind : state.graph.kind? id = some .fakeQuantize)
    (ran : (Transformation.apply ⟨.fuseFakeQuantize, policy⟩ registry id).runOn state =
      (.ok true, after)) :
    ∃ node parent operand type fused, state.graph.node? id = some node ∧
      state.graph.inputNode? id 0 = some parent ∧
      state.graph.constantOperand? parent = some operand ∧
      state.graph.elementType? operand.data.node = some type ∧
      (∀ reader slot index, state.graph.input? reader slot = some ⟨id, index⟩ →
        after.graph.input? reader slot = some ⟨fused, index⟩) ∧
      after.graph.op? fused = some node.op ∧
      after.graph.elementType? fused = some (node.precision.getD type) ∧
      (after.graph.elementType? fused = state.graph.elementType? id ↔
        node.precision.getD type = node.elementType) := by
  obtain ⟨found, low, high, fused, withLow, withHigh, withFused, fuses⟩ :=
    (fusesInputLimits_of_runOn wellFormed kind ran).exists_fusesBefore
  obtain ⟨_, _, operand, isView, _, _, isOperand, _, _, data_eq, _⟩ :=
    inputFusion_eq_ok fuses.present
  obtain ⟨isNode, isQuantize, _⟩ := fakeQuantizeNode_eq_ok isView
  have live := (wellFormed.consistent.reads_live (reads_data_of_constantOperand? isOperand)).1
  rw [← data_eq] at live
  obtain ⟨data, isData⟩ := contains_eq_true_iff.mp live
  have isType : state.graph.elementType? found.data.node = some data.elementType := by
    rw [elementType?, isData, Option.map_some]
  have same := fuses.node?_fused wellFormed (contains_of_node? isNode)
  have fusedType : after.graph.elementType? fused =
      some (found.view.node.precision.getD data.elementType) := by
    rw [elementType?, same]
    exact fuses.elementType?_eq live isType
  refine ⟨found.view.node, found.view.data.node, operand, data.elementType, fused, isNode,
    inputNode?_of_fakeQuantizeNode (wellFormed.exact id) isView, isOperand, data_eq ▸ isType,
    fun _ _ _ => fuses.input?_eq wellFormed, ?_, fusedType, ?_⟩
  · rw [op?_congr same, fuses.op?_eq, isQuantize]
  · rw [fusedType, elementType?, isNode, Option.map_some, Option.some.injEq]

end Types

/-- An integer, converted to a real number, halved and quantized to halves. -/
def halvedIntegers : List (Draft Rat) :=
  let low := (NodeId.mk 4).output
  let high := (NodeId.mk 5).output
  [{ op := .parameter, name := "x", declared := some { elementType := .u8, shape := [1] } },
    ((Op.convert .f32).draft "converted").readAll [NodeId.mk 0],
    (Op.constant (.scalar .f32 (1 / 2))).draft "half",
    (Op.multiply.draft "halved").readAll [NodeId.mk 1, NodeId.mk 2],
    (Op.constant (.scalar .f32 0)).draft "low",
    (Op.constant (.scalar .f32 (255 / 2))).draft "high",
    ((Op.fakeQuantize 256).draft "quantized").readOutputs
      [(NodeId.mk 3).output, low, high, low, high],
    (Op.result.draft "output").readAll [NodeId.mk 6]]

/-- Behind the Convert the data is real, and so is the fake quantization. -/
theorem exists_elementType?_halvedIntegers :
    ∃ (graph : Graph Rat) (after : RunState Rat), Graph.empty.addAll halvedIntegers = .ok graph ∧
      graph.WellFormed ∧ graph.kind? (NodeId.mk 6) = some .fakeQuantize ∧
      (Transformation.apply ⟨.fuseFakeQuantize, {}⟩ (.all {}) (NodeId.mk 6)).runOn
        (.ofGraph graph) = (.ok true, after) ∧
      ∃ node parent operand type fused, graph.node? (NodeId.mk 6) = some node ∧
        graph.inputNode? (NodeId.mk 6) 0 = some parent ∧
        graph.constantOperand? parent = some operand ∧
        graph.elementType? operand.data.node = some type ∧
        (∀ reader slot index, graph.input? reader slot = some ⟨NodeId.mk 6, index⟩ →
          after.graph.input? reader slot = some ⟨fused, index⟩) ∧
        after.graph.op? fused = some node.op ∧
        after.graph.elementType? fused = some (node.precision.getD type) ∧
        (after.graph.elementType? fused = graph.elementType? (NodeId.mk 6) ↔
          node.precision.getD type = node.elementType) := by
  let feeds : Assignment Rat := Assignment.none.set (NodeId.mk 0) (.replicate [1] 3)
  obtain ⟨graph, _, after, added, wellFormed, kind, _, _, _, ran⟩ :=
    @exists_run_of_values halvedIntegers (NodeId.mk 6) .fuseFakeQuantize feeds (fun _ => True) _
      (by decide) (by decide) (by decide +kernel)
  exact ⟨graph, after, added, wellFormed, kind, ran,
    exists_elementType?_of_inputFusion wellFormed kind ran⟩

set_option synthInstance.maxSize 4096 in
/-- Where a product has taken in the Convert, it hides that the data is integral, until the fake
quantization takes in the product: then the fake quantization rounds. -/
theorem exists_elementType?_ne_of_fusions :
    ∃ (graph : Graph Rat) (middle after : RunState Rat) (fused : NodeId) (feeds : Assignment Rat),
      Graph.empty.addAll halvedIntegers = .ok graph ∧ graph.WellFormed ∧
      (Transformation.apply ⟨.fuseConvert, {}⟩ (.all {}) (NodeId.mk 3)).runOn (.ofGraph graph) =
        (.ok true, middle) ∧
      (Transformation.apply ⟨.fuseFakeQuantize, {}⟩ (.all {}) (NodeId.mk 6)).runOn middle =
        (.ok true, after) ∧
      middle.graph.inputNode? (NodeId.mk 7) 0 = some (NodeId.mk 6) ∧
      after.graph.inputNode? (NodeId.mk 7) 0 = some fused ∧
      middle.graph.elementType? (NodeId.mk 6) = some .f32 ∧
      after.graph.elementType? fused = some .u8 ∧
      (middle.graph.evaluateResults feeds).map (List.map NDArray.toList) = .ok [[3 / 2]] ∧
      (after.graph.evaluateResults feeds).map (List.map NDArray.toList) = .ok [[2]] := by
  let feeds : Assignment Rat := Assignment.none.set (NodeId.mk 0) (.replicate [1] 3)
  have made : (Graph.empty.addAll halvedIntegers).map (fun graph =>
      let middle := (Transformation.apply ⟨.fuseConvert, {}⟩ (.all {}) (NodeId.mk 3)).runOn
        (.ofGraph graph)
      let after := (Transformation.apply ⟨.fuseFakeQuantize, {}⟩ (.all {}) (NodeId.mk 6)).runOn
        middle.2
      (middle.1, after.1, middle.2.graph.inputNode? (NodeId.mk 7) 0,
        (after.2.graph.inputNode? (NodeId.mk 7) 0).map after.2.graph.elementType?,
        middle.2.graph.elementType? (NodeId.mk 6),
        (middle.2.graph.evaluateResults feeds).map (List.map NDArray.toList),
        (after.2.graph.evaluateResults feeds).map (List.map NDArray.toList))) =
      .ok (.ok true, .ok true, some (NodeId.mk 6), some (some .u8), some .f32, .ok [[3 / 2]],
        .ok [[2]]) := by decide +kernel
  obtain ⟨graph, added, facts⟩ := Outcome.map_eq_ok.mp made
  simp only [Prod.mk.injEq] at facts
  obtain ⟨converted, changed, reads, isFused, isType, earlier, later⟩ := facts
  obtain ⟨fused, isFused, fusedType⟩ := Option.map_eq_some_iff.mp isFused
  exact ⟨graph, _, _, fused, feeds, added, Graph.wellFormed_empty.addAll (by decide) added,
    Prod.ext converted rfl, Prod.ext changed rfl, reads, isFused, isType, fusedType, earlier, later⟩

section Values

variable {registry : Registry} {policy : Policy} {id : NodeId} {state : RunState Rat}
  {feeds values : Assignment Rat}

/-- A fake quantization on real numbers that takes in an operation on real numbers gives what it
gave, whichever way round its limits are. It never takes in a difference from a constant, or a
product with a number that is not positive. -/
theorem exists_givesPlace_of_inputFusion (wellFormed : state.graph.WellFormed)
    (kind : state.graph.kind? id = some .fakeQuantize)
    (real : state.graph.QuantizesRealData id)
    (evaluated : state.graph.evaluate feeds = .ok values)
    (declared : state.graph.HasDeclaredShapes values) :
    (∀ after, (Transformation.apply ⟨.fuseFakeQuantize, policy⟩ registry id).runOn state =
        (.ok true, after) →
      ∃ parent operand op inverse fused, state.graph.inputNode? id 0 = some parent ∧
        state.graph.constantOperand? parent = some operand ∧
        state.graph.Inverts parent operand op inverse ∧
        state.graph.GivesPlace id operand.data.node fused after.graph feeds values) ∧
    ∀ parent operand, state.graph.inputNode? id 0 = some parent →
      state.graph.constantOperand? parent = some operand → state.graph.Disorders parent operand →
      (Transformation.apply ⟨.fuseFakeQuantize, policy⟩ registry id).runOn state =
        (.ok false, state) := by
  constructor
  · intro after ran
    obtain ⟨value, isValue, _⟩ := evaluateNode_of_evaluate evaluated (contains_of_kind? kind)
    exact (fusesInputLimits_of_runOn wellFormed kind ran).exists_givesPlace wellFormed real evaluated
      declared isValue
  · intro parent operand isParent isOperand disorders
    have refuses : (Transformation.apply ⟨.fuseFakeQuantize, policy⟩ registry id).Ensures state
        (fun _ => False) fun changed after => changed = false ∧ after = state := by
      refine RunRevision.ensures_onGraph.mpr ((GraphRevision.fuseIntoInputLimits_refuses wellFormed
        (fun _ _ => eq_of_beq) isParent isOperand disorders).mono (fun _ bad => bad) ?_)
      rintro _ _ ⟨rfl, rfl⟩
      exact ⟨rfl, rfl⟩
    obtain ⟨_, _, ran, rfl, rfl⟩ := refuses.exists_runOn
    exact ran

end Values

/-- Two numbers, each with a constant of its own taken away, quantized to four levels. The second
pair of input limits is the wrong way round. -/
def quantizedDifferences : List (Draft Rat) :=
  let constant (name : String) (values : NDArray Rat) : Draft Rat :=
    (Op.constant ⟨.f32, values⟩).draft name
  [{ op := .parameter, name := "x", declared := some { elementType := .f32, shape := [2] } },
    constant "shift" { shape := [2], data := #[1, 3], size_data := rfl },
    (Op.subtract.draft "difference").readAll [NodeId.mk 0, NodeId.mk 1],
    constant "inputLow" { shape := [2], data := #[0, 4], size_data := rfl },
    constant "inputHigh" { shape := [2], data := #[3, 2], size_data := rfl },
    constant "outputLow" (.scalar 0), constant "outputHigh" (.scalar 30),
    ((Op.fakeQuantize 4).draft "quantized").readAll
      [NodeId.mk 2, NodeId.mk 3, NodeId.mk 4, NodeId.mk 5, NodeId.mk 6],
    (Op.result.draft "output").readAll [NodeId.mk 7]]

/-- The limits move by as much as was taken away. -/
theorem exists_givesPlace_quantizedDifferences :
    ∃ (graph : Graph Rat) (feeds values : Assignment Rat) (after : RunState Rat),
      Graph.empty.addAll quantizedDifferences = .ok graph ∧ graph.WellFormed ∧
      graph.kind? (NodeId.mk 7) = some .fakeQuantize ∧ graph.QuantizesRealData (NodeId.mk 7) ∧
      graph.evaluate feeds = .ok values ∧ graph.HasDeclaredShapes values ∧
      (Transformation.apply ⟨.fuseFakeQuantize, {}⟩ (.all {}) (NodeId.mk 7)).runOn
        (.ofGraph graph) = (.ok true, after) ∧
      ∃ parent operand op inverse fused, graph.inputNode? (NodeId.mk 7) 0 = some parent ∧
        graph.constantOperand? parent = some operand ∧ graph.Inverts parent operand op inverse ∧
        graph.GivesPlace (NodeId.mk 7) operand.data.node fused after.graph feeds values := by
  let feeds : Assignment Rat := Assignment.none.set (NodeId.mk 0)
    { shape := [2], data := #[2, 4], size_data := rfl }
  obtain ⟨graph, values, after, added, wellFormed, kind, real, evaluated, declared, ran⟩ :=
    @exists_run_of_values quantizedDifferences (NodeId.mk 7) .fuseFakeQuantize feeds
      (fun graph => graph.QuantizesRealData (NodeId.mk 7)) _ (by decide) (by decide) (by decide +kernel)
  exact ⟨graph, feeds, values, after, added, wellFormed, kind, real, evaluated, declared, ran,
    (@exists_givesPlace_of_inputFusion (.all {}) {} (NodeId.mk 7) (.ofGraph graph) feeds values
      wellFormed kind real evaluated declared).1 after ran⟩

/-- A product that reads two parameters on one slot and a constant on the next, quantized to
integers. -/
def crowdedQuantization : List (Draft Rat) :=
  let real (name : String) : Draft Rat :=
    { op := .parameter, name := name, declared := some { elementType := .f32, shape := [1] } }
  let low := (NodeId.mk 4).output
  let high := (NodeId.mk 5).output
  [real "x", real "y", (Op.constant (.scalar .f32 2)).draft "two",
    (((Op.multiply.draft "scaled").input (NodeId.mk 1).output 0).input (NodeId.mk 0).output 0).input
      (NodeId.mk 2).output 1,
    (Op.constant (.scalar .f32 0)).draft "low", (Op.constant (.scalar .f32 255)).draft "high",
    ((Op.fakeQuantize 256).draft "quantized").readOutputs
      [(NodeId.mk 3).output, low, high, low, high],
    (Op.result.draft "output").readAll [NodeId.mk 6]]

/-- A fake quantization to halves of which integers are asked, but that does not accept another
precision than its own. -/
def unheardPrecision : List (Draft Rat) :=
  let low := (NodeId.mk 3).output
  let high := (NodeId.mk 4).output
  [{ op := .parameter, name := "x", declared := some { elementType := .f32, shape := [1] } },
    (Op.constant (.scalar .f32 2)).draft "two",
    (Op.multiply.draft "doubled").readAll [NodeId.mk 0, NodeId.mk 1],
    (Op.constant (.scalar .f32 0)).draft "low",
    (Op.constant (.scalar .f32 (255 / 2))).draft "high",
    { ((Op.fakeQuantize 256).draft "quantized").readOutputs
        [(NodeId.mk 2).output, low, high, low, high] with
      precision := some .u8 },
    (Op.result.draft "output").readAll [NodeId.mk 5]]

set_option synthInstance.maxSize 4096 in
/-- Where a node reads two outputs on one slot, the constant that is found is not what it computes
with. A precision that was asked for in vain counts for the fake quantization that is built. -/
theorem altersResults_crowdedQuantization_and_unheardPrecision :
    AltersResults crowdedQuantization (NodeId.mk 6) .fuseFakeQuantize
        (fun graph => graph.kind? (NodeId.mk 6) = some .fakeQuantize ∧
          graph.QuantizesRealData (NodeId.mk 6))
        (crowdedFeeds [1]) [[5]] [[2]] ∧
      AltersResults unheardPrecision (NodeId.mk 5) .fuseFakeQuantize
        (fun graph => graph.WellFormed ∧ graph.kind? (NodeId.mk 5) = some .fakeQuantize ∧
          graph.elementType? (NodeId.mk 5) = some .f32 ∧
          graph.elementType? (NodeId.mk 0) = some .f32)
        (Assignment.none.set (NodeId.mk 0) (.replicate [1] (3 / 4))) [[3 / 2]] [[2]] := by
  constructor
  · exact altersResults_of_values (by decide +kernel) (by decide) (demanded_of_values (by decide +kernel))
  · exact altersResults_of_values (by decide +kernel) (by norm_num)
      (wellFormed_and_demanded_of_values (by decide) (by decide +kernel))

end Transformation

end QuantGraph
