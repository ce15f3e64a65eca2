import QuantGraph.Dequantization.Move

namespace QuantGraph

/-! Rules that move a dequantization through one operation. A rule first
decides whether the operation commutes with the dequantization; it changes the
graph only when it does. -/

namespace Graph

variable [Scalar α]

/-- No value is zero or less. -/
def isPositive (tensor : Tensor α) : Bool := tensor.toList.all fun value => decide (¬ value ≤ 0)

/-- The chain before a Relu, when it has positive scales and no shift. -/
def chainBeforeRelu? (graph : Graph α) (id : NodeId) : Option DequantizationChain := do
  let chain := graph.dequantization id 0
  guard chain.subtract.isNone
  let scale ← chain.scale? graph
  guard (isPositive scale)
  return chain

/-- The chain before a maximum pooling, when it has positive scales. -/
def chainBeforeMaxPool? (graph : Graph α) (id : NodeId) : Option DequantizationChain := do
  let chain := graph.dequantization id 0
  let scale ← chain.scale? graph
  guard (isPositive scale)
  return chain

/-- The chain before a mean pooling, when it has a Multiply. -/
def chainBeforeAvgPool? (graph : Graph α) (id : NodeId) : Option DequantizationChain := do
  let chain := graph.dequantization id 0
  guard chain.multiply.isSome
  return chain

/-- The chain on one side of a matrix product, when it has a single scale and no
shift. -/
def chainBeforeMatMul? (graph : Graph α) (id : NodeId) (slot : Nat) :
    Option DequantizationChain := do
  let chain := graph.dequantization id slot
  guard chain.subtract.isNone
  let scale ← chain.scale? graph
  guard scale.isUniform
  return chain

/-- The chain before a layout operation, when scale and shift are each the same
for all elements. -/
def chainBeforeLayout? (graph : Graph α) (id : NodeId) : Option DequantizationChain := do
  let chain := graph.dequantization id 0
  let scale ← chain.scale? graph
  guard scale.isUniform
  guard (((chain.shift? graph).map Tensor.isUniform).getD true)
  return chain

/-- The constant that a stage of a chain reads, with its position among the
inputs and its value without axes; nothing when it has no axes to lose. -/
def collapsibleConstant? (graph : Graph α) (stage : NodeId) :
    Option (Nat × NodeId × Tensor α) := do
  let (output, position) ← (graph.inputs stage).zipIdx.find? fun entry =>
    graph.isConstant entry.1.node
  let tensor ← graph.constant? output.node
  let scalar ← tensor.toScalar?
  guard (graph.shape? output.node ≠ some [])
  return (position, output.node, scalar)

end Graph

namespace GraphRevision

variable [Scalar α]

/-- Let a stage read its constant without axes. -/
def collapseConstant (stage : NodeId) : GraphRevision α Unit := do
  match (← get).collapsibleConstant? stage with
  | none => pure ()
  | some (position, constant, scalar) =>
      let collapsed ← addConstant scalar ""
      setInput stage (UInt8.ofNat position) collapsed.output
      prune constant

/-- Let a stage, if there is one, read its constant without axes. -/
def collapseStage (stage : Option NodeId) : GraphRevision α Unit :=
  match stage with
  | some stage => collapseConstant stage
  | none => pure ()

/-- Let the Subtract and the Multiply of a chain read constants without axes. -/
def collapseConstants (chain : DequantizationChain) : GraphRevision α Unit := do
  collapseStage chain.subtract
  collapseStage chain.multiply

/-- Move a chain if there is one to move; tells whether there was. -/
def moveFound (id : NodeId) (found : Option DequantizationChain)
    (updatePrecision moveSubtract : Bool) : GraphRevision α Bool := do
  match found with
  | none => return false
  | some chain =>
      let _ ← moveChainAfter id chain updatePrecision moveSubtract
      return true

def propagateThroughRelu (id : NodeId) : GraphRevision α Bool := do
  moveFound id ((← get).chainBeforeRelu? id) false false

def propagateThroughMaxPool (id : NodeId) : GraphRevision α Bool := do
  moveFound id ((← get).chainBeforeMaxPool? id) false true

def propagateThroughAvgPool (updatePrecision : Bool) (id : NodeId) : GraphRevision α Bool := do
  moveFound id ((← get).chainBeforeAvgPool? id) updatePrecision true

/-- Of two chains, that on the left operand is moved. -/
def propagateThroughMatMul (id : NodeId) : GraphRevision α Bool := do
  let graph ← get
  moveFound id ((graph.chainBeforeMatMul? id 0).or (graph.chainBeforeMatMul? id 1)) false false

def propagateThroughLayout (id : NodeId) : GraphRevision α Bool := do
  match (← get).chainBeforeLayout? id with
  | none => return false
  | some chain =>
      collapseConstants chain
      let _ ← moveChainAfter id chain false true
      return true

end GraphRevision

end QuantGraph
