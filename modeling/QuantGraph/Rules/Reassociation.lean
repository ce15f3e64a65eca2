import QuantGraph.Dequantization.Simplify

namespace QuantGraph

/-! Rules that regroup additions and multiplications by constants. -/

/-- A Multiply by a constant of the value of a Convert to a real type. -/
structure ConvertedProduct where
  name : String
  data : Output
  constant : NodeId
  destination : ElementType
  deriving Repr, DecidableEq

/-- A Multiply by a constant of a difference from a constant. -/
structure ShiftedProduct (α : Type) where
  name : String
  data : Output
  scale : NodeId
  scaleTensor : Tensor α
  shift : Tensor α
  precision : ElementType

namespace Graph

variable [Scalar α]

/-- The branch of a sum with a constant that is a Multiply read only by the sum
and by scales without a zero. -/
def invertibleBranch? (graph : Graph α) (id : NodeId) : Option Nat := do
  let operand ← graph.constantOperand? id
  let chain := graph.dequantization id operand.slot
  let multiply ← chain.multiply
  guard (graph.consumerCount multiply = 1)
  let scale ← chain.scale? graph
  guard (scale.toList.all fun value => Scalar.differs value 0)
  return operand.slot

/-- The Multiply of the dequantization that a Multiply by a constant reads. -/
def scaledOperand? (graph : Graph α) (id : NodeId) : Option NodeId := do
  let operand ← graph.constantOperand? id
  (graph.dequantization id operand.slot).multiply

def convertedProduct? (graph : Graph α) (id : NodeId) : Option ConvertedProduct := do
  let operand ← graph.constantOperand? id
  let convert := operand.data.node
  guard (graph.isKind convert .convert && graph.consumerCount convert == 1)
  let destination ← graph.elementType? convert
  guard destination.isReal
  let data ← graph.input? convert 0
  return {
    name := graph.name id
    data := data
    constant := operand.constant
    destination := destination }

def shiftedProduct? (graph : Graph α) (id : NodeId) : Option (ShiftedProduct α) := do
  let operand ← graph.constantOperand? id
  let subtract := operand.data.node
  guard (graph.isKind subtract .subtract && graph.consumerCount subtract == 1)
  let difference ← graph.constantOperand? subtract
  guard (difference.slot = 0)
  let precision ← graph.elementType? id
  return {
    name := graph.name id
    data := difference.data
    scale := operand.constant
    scaleTensor := operand.tensor
    shift := difference.tensor
    precision := precision }

end Graph

namespace GraphRevision

variable [Scalar α]

/-- `x * a + b` becomes `(x + b / a) * a`. -/
def factorOutScale (id : NodeId) : GraphRevision α Bool := do
  match (← get).invertibleBranch? id with
  | none => return false
  | some branch =>
      let _ ← swapMultiplyAndAdd id branch
      return true

/-- `(x * a) * b` becomes `x * (a * b)`. -/
def mergeIntoMultiply (id : NodeId) : GraphRevision α Bool := do
  match (← get).scaledOperand? id with
  | none => return false
  | some multiply => return (← mergeMultiplies multiply).isSome

/-- A Multiply takes over the work of the Convert before it. -/
def fuseConvert (id : NodeId) : GraphRevision α Bool := do
  match (← get).convertedProduct? id with
  | none => return false
  | some found =>
      let fused ← add
        (((Op.multiply.draft found.name).input found.data 0).input found.constant.output 1
          |>.withPrecision found.destination)
      replace id fused
      return true

/-- `(x - z) * s` becomes `x * s + (-z * s)`. -/
def distributeScale (id : NodeId) : GraphRevision α Bool := do
  match (← get).shiftedProduct? id with
  | none => return false
  | some found =>
      let bias ← folded ((found.shift.map (- ·)).multiply found.scaleTensor)
      let product ← add
        (((Op.multiply.draft (found.name ++ "_Multiply")).input found.data 0).input
          found.scale.output 1 |>.withPrecision found.precision)
      let constant ← addConstant bias ""
      let sum ← add
        ((Op.add.draft found.name).readAll [product, constant] |>.withPrecision found.precision)
      replace id sum
      return true

end GraphRevision

end QuantGraph
