import QuantGraph.Graph.Order

namespace QuantGraph

/-! Dequantization chains inside a graph: a Convert, a Subtract of a constant
and a Multiply by a constant, each of them optional, between a low-precision
tensor and the node that reads it. -/

/-- An operation on a constant and one other operand. -/
structure ConstantOperand (α : Type) where
  /-- The input slot of the other operand. -/
  slot : Nat
  /-- The other operand. -/
  data : Output
  constant : NodeId
  tensor : Tensor α

/-- The nodes of a chain. -/
structure DequantizationChain where
  /-- The tensor that the chain starts from. -/
  data : Output
  convert : Option NodeId
  subtract : Option NodeId
  multiply : Option NodeId
  deriving DecidableEq, Repr

namespace Graph

/-- The first constant that a node reads. -/
def constantInput? (graph : Graph α) (id : NodeId) : Option NodeId :=
  ((graph.inputs id).map Output.node).find? graph.isConstant

/-- The node is zero everywhere. -/
def isZeroConstant [Scalar α] (graph : Graph α) (id : NodeId) : Bool :=
  match graph.constant? id with
  | some tensor => tensor.isEqualTo 0
  | none => false

/-- The operands of a node that reads, on its first two slots, exactly one
constant. -/
def constantOperand? (graph : Graph α) (id : NodeId) : Option (ConstantOperand α) := do
  guard (2 ≤ graph.inputCount id)
  let left ← graph.input? id 0
  let right ← graph.input? id 1
  match graph.constant? left.node, graph.constant? right.node with
  | none, some tensor =>
      some { slot := 0, data := left, constant := right.node, tensor := tensor }
  | some tensor, none =>
      some { slot := 1, data := right, constant := left.node, tensor := tensor }
  | _, _ => none

end Graph

namespace DequantizationChain

/-- The chain without any stage. -/
def empty (data : Output) : DequantizationChain :=
  { data := data, convert := none, subtract := none, multiply := none }

def isEmpty (chain : DequantizationChain) : Bool :=
  chain.convert.isNone && chain.subtract.isNone && chain.multiply.isNone

/-- The last output of the chain. -/
def tail (chain : DequantizationChain) : Output :=
  match (chain.multiply.or chain.subtract).or chain.convert with
  | some last => last.output
  | none => chain.data

/-- The constant that is subtracted. -/
def subtractConstant? (chain : DequantizationChain) (graph : Graph α) : Option NodeId := do
  let subtract ← chain.subtract
  let constant ← graph.inputNode? subtract 1
  guard (graph.isConstant constant)
  return constant

/-- The constant that is multiplied by. -/
def multiplyConstant? (chain : DequantizationChain) (graph : Graph α) : Option NodeId :=
  chain.multiply.bind graph.constantInput?

def shift? (chain : DequantizationChain) (graph : Graph α) : Option (Tensor α) :=
  (chain.subtractConstant? graph).bind graph.constant?

def scale? (chain : DequantizationChain) (graph : Graph α) : Option (Tensor α) :=
  (chain.multiplyConstant? graph).bind graph.constant?

end DequantizationChain

namespace Graph

/-- What a Multiply by a constant is applied to. -/
def underMultiply? (graph : Graph α) (output : Output) : Option Output := do
  guard (graph.isKind output.node .multiply)
  let operand ← graph.constantOperand? output.node
  return operand.data

/-- What a constant is subtracted from. -/
def underSubtract? (graph : Graph α) (output : Output) : Option Output := do
  guard (graph.isKind output.node .subtract)
  let operand ← graph.constantOperand? output.node
  guard (operand.slot = 0)
  return operand.data

/-- What a Convert is applied to. -/
def underConvert? (graph : Graph α) (output : Output) : Option Output := do
  guard (graph.isKind output.node .convert)
  graph.input? output.node 0

/-- Step below an optional stage: its node, if there is one, and the output that
remains. -/
def peel (under : Output → Option Output) (output : Output) : Option NodeId × Output :=
  match under output with
  | some data => (some output.node, data)
  | none => (none, output)

/-- The chain that a node reads on an input slot. -/
def dequantization (graph : Graph α) (id : NodeId) (slot : Nat) : DequantizationChain :=
  match graph.input? id slot with
  | none => .empty id.output
  | some output =>
      let (multiply, scaled) := peel graph.underMultiply? output
      let (subtract, shifted) := peel graph.underSubtract? scaled
      let (convert, data) := peel graph.underConvert? shifted
      { data := data, convert := convert, subtract := subtract, multiply := multiply }

end Graph

end QuantGraph
