import QuantGraph.Graph
import QuantGraph.Revision.Error

namespace QuantGraph

/-! The constant limits of a fake quantization. -/

structure QuantizationLimits (α : Type) where
  levels : Nat
  inputLow : List α
  inputHigh : List α
  outputLow : List α
  outputHigh : List α
  deriving Repr, DecidableEq

namespace Graph

/-- The constant that a limit of a fake quantization is read from. -/
def limit? (graph : Graph α) (id : NodeId) (limit : LimitName) : Option (Tensor α) :=
  (graph.inputNode? id limit.slot).bind graph.constant?

/-- The limits of a fake quantization; nothing for another operation, or when
one of the limits is not constant. -/
def quantizationLimits? (graph : Graph α) (id : NodeId) : Option (QuantizationLimits α) := do
  let node ← graph.node? id
  let levels ← node.op.levels?
  let inputLow ← graph.limit? id .inputLow
  let inputHigh ← graph.limit? id .inputHigh
  let outputLow ← graph.limit? id .outputLow
  let outputHigh ← graph.limit? id .outputHigh
  return {
    levels := levels
    inputLow := inputLow.toList
    inputHigh := inputHigh.toList
    outputLow := outputLow.toList
    outputHigh := outputHigh.toList }

end Graph

namespace QuantizationLimits

/-- The numbers of levels that a low precision can hold. -/
def supportsLevels (levels : Nat) : Bool := levels == 255 || levels == 256

variable [Scalar α]

/-- There is a value, and neighbouring values are equal. -/
def isSingleValued (values : List α) : Bool :=
  !values.isEmpty && (values.zip values.tail).all fun (left, right) => left == right

/-- Every limit holds one value. -/
def isPerTensor (limits : QuantizationLimits α) : Bool :=
  isSingleValued limits.inputLow && isSingleValued limits.inputHigh &&
    isSingleValued limits.outputLow && isSingleValued limits.outputHigh

def leastOutputLow (limits : QuantizationLimits α) : α := Scalar.least limits.outputLow

def largestOutputHigh (limits : QuantizationLimits α) : α := Scalar.largest limits.outputHigh

end QuantizationLimits

end QuantGraph
