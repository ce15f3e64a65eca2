import QuantGraph.Dequantization.Decomposition

namespace QuantGraph

/-! Rules that take a constant operation before or after a fake quantization
into its limits:

- `FQ(x * a)` with limits `l` is `FQ(x)` with limits `l / a`, for one `a > 0`;
- `FQ(x - s)` is `FQ(x)` with limits `l + s`, and `FQ(x + s)` with `l - s`;
- an operation after a fake quantization applies to the output limits. -/

/-- A fake quantization that is to take in the operation before it. -/
structure InputFusion (α : Type) where
  view : FakeQuantizeNode α
  data : Output
  low : Tensor α
  high : Tensor α

/-- A fake quantization that is to take in the operation after it. -/
structure OutputFusion (α : Type) where
  view : FakeQuantizeNode α
  low : Tensor α
  high : Tensor α
  precision : ElementType

/-- Both limits under one operation. -/
def foldLimits [Scalar α] (op : BinaryOp) (low high value : Tensor α) :
    Except RevisionError (Option (Tensor α × Tensor α)) := do
  let fold (limit : Tensor α) : Except RevisionError (Tensor α) :=
    (Tensor.combine op limit value).mapError fun error => .graph (.broadcast error)
  let newLow ← fold low
  let newHigh ← fold high
  return some (newLow, newHigh)

namespace Graph

variable [Scalar α]

/-- The limits after an operation on a constant is taken in; nothing for an
operation that cannot be. -/
def limitsBeforeOperand (graph : Graph α) (parent : NodeId) (operand : ConstantOperand α)
    (low high : Tensor α) : Except RevisionError (Option (Tensor α × Tensor α)) :=
  match graph.kind? parent with
  | some .multiply =>
      if operand.tensor.isUniform &&
          (operand.tensor.first?.map fun value => decide (¬ value ≤ 0)).getD false then
        foldLimits .divide low high operand.tensor
      else .ok none
  | some .subtract =>
      if operand.slot = 0 then foldLimits .add low high operand.tensor else .ok none
  | some .add => foldLimits .subtract low high operand.tensor
  | _ => .ok none

def inputFusion (graph : Graph α) (id : NodeId) :
    Except RevisionError (Option (InputFusion α)) := do
  match graph.fakeQuantizeNode id with
  | .error _ => return none
  | .ok view =>
      let parent := view.data.node
      match graph.constant? view.inputLow.node, graph.constant? view.inputHigh.node,
        graph.constantOperand? parent with
      | some low, some high, some operand =>
          if graph.consumerCount parent ≠ 1 then return none
          match ← graph.limitsBeforeOperand parent operand low high with
          | none => return none
          | some (newLow, newHigh) =>
              let shape := (graph.shape? operand.data.node).getD []
              if newLow.shape.StretchesTo shape ∧ newHigh.shape.StretchesTo shape then
                return some { view := view, data := operand.data, low := newLow, high := newHigh }
              else return none
      | _, _, _ => return none

/-- The fake quantization whose value reaches an operand, through at most one
Convert that nothing else reads. -/
def quantizerBehind? (graph : Graph α) (operand : ConstantOperand α) : Option NodeId :=
  let source := operand.data.node
  if graph.isKind source .convert && graph.consumerCount source == 1 then
    graph.inputNode? source 0
  else some source

def feedsConvolution (graph : Graph α) (id : NodeId) : Bool :=
  (graph.consumerNodes id).any fun consumer =>
    graph.isKind consumer .convolution || graph.isKind consumer .groupConvolution

def outputFusion (graph : Graph α) (id : NodeId) (op : BinaryOp) :
    Except RevisionError (Option (OutputFusion α)) := do
  match graph.constantOperand? id with
  | none => return none
  | some operand =>
      match graph.quantizerBehind? operand with
      | none => return none
      | some quantizer =>
          if graph.consumerCount quantizer ≠ 1 || graph.feedsConvolution id then return none
          match graph.fakeQuantizeNode quantizer with
          | .error _ => return none
          | .ok view =>
              match graph.constant? view.outputLow.node, graph.constant? view.outputHigh.node,
                graph.elementType? id with
              | some low, some high, some precision =>
                  match ← foldLimits op low high operand.tensor with
                  | none => return none
                  | some (newLow, newHigh) =>
                      let shape := view.node.shape
                      if newLow.shape.StretchesTo shape ∧ newHigh.shape.StretchesTo shape then
                        return some
                          { view := view, low := newLow, high := newHigh, precision := precision }
                      else return none
              | _, _, _ => return none

end Graph

namespace GraphRevision

variable [Scalar α]

/-- A fake quantization takes in the constant operation before it. -/
def fuseIntoInputLimits (id : NodeId) : GraphRevision α Bool := do
  match ← Revision.ofExcept ((← get).inputFusion id) with
  | none => return false
  | some found =>
      let low ← addConstant found.low ""
      let high ← addConstant found.high ""
      let node := found.view.node
      let draft := found.view.draftWithInputs node.name found.data low.output high.output
      let fused ← add
        ((if node.relaxed then draft.relax else draft).withPrecision? node.precision)
      replace id fused
      return true

/-- A fake quantization takes in the constant operation after it. -/
def fuseIntoOutputLimits (id : NodeId) (op : BinaryOp) : GraphRevision α Bool := do
  match ← Revision.ofExcept ((← get).outputFusion id op) with
  | none => return false
  | some found =>
      let low ← addConstant found.low ""
      let high ← addConstant found.high ""
      let fused ← add
        ((found.view.draftWithOutputs found.view.node.name low high).withPrecision
          found.precision)
      replace id fused
      return true

def fuseMultiplyIntoLimits (id : NodeId) : GraphRevision α Bool := fuseIntoOutputLimits id .multiply

/-- Only `x - c` is taken in; `c - x` would turn the interval round. -/
def fuseSubtractIntoLimits (id : NodeId) : GraphRevision α Bool := do
  match (← get).constantOperand? id with
  | some operand => if operand.slot = 0 then fuseIntoOutputLimits id .subtract else return false
  | none => return false

end GraphRevision

end QuantGraph
