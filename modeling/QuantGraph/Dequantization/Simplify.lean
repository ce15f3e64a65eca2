import QuantGraph.Dequantization

namespace QuantGraph

/-! Simplifications of dequantization chains. Each one first looks for its
pattern without touching the graph; only when all of it is there are nodes
added and replaced. -/

/-- The largest change of an element accepted when a constant is rounded to an
integral type. -/
def roundingTolerance [Scalar α] : α := Scalar.decimal 1 1

/-- A Subtract of a constant from a converted value, where the constant can be
written in the type that the value has before the Convert. -/
structure SubtractAfterConvert (α : Type) where
  name : String
  data : Output
  /-- The shift in the type of the data. -/
  shift : Tensor α
  /-- The type that the Convert restores. -/
  restoredType : ElementType

/-- Two Multiplies by constants, one reading the other. -/
structure MultiplyPair (α : Type) where
  name : String
  data : Output
  next : NodeId
  left : Tensor α
  right : Tensor α
  precision : Option ElementType

/-- A constant added to a value multiplied by a constant. -/
structure ScaledSum (α : Type) where
  data : Output
  scale : NodeId
  scaleTensor : Tensor α
  bias : Tensor α

namespace Graph

variable [Scalar α]

def subtractAfterConvert? (graph : Graph α) (id : NodeId) : Option (SubtractAfterConvert α) := do
  guard (graph.isKind id .subtract)
  let convert ← graph.inputNode? id 0
  guard (graph.isKind convert .convert)
  let restoredType ← graph.elementType? convert
  guard restoredType.isReal
  let data ← graph.input? convert 0
  let dataType ← graph.elementType? data.node
  let constant ← graph.inputNode? id 1
  let shift ← graph.constant? constant
  let rounded := shift.roundWithTolerance dataType roundingTolerance
  guard (rounded.elementType = dataType)
  return { name := graph.name id, data := data, shift := rounded, restoredType := restoredType }

/-- Each of the two Multiplies and each of their constants is read once. -/
def multiplyPair? (graph : Graph α) (id : NodeId) : Option (MultiplyPair α) := do
  guard (graph.isKind id .multiply && graph.consumerCount id == 1)
  let first ← graph.constantOperand? id
  guard (graph.consumerCount first.constant = 1)
  let next ← (graph.consumerNodes id).head?
  guard (graph.isKind next .multiply)
  let second ← graph.constantOperand? next
  guard (graph.consumerCount second.constant = 1)
  return {
    name := graph.name next
    data := first.data
    next := next
    left := first.tensor
    right := second.tensor
    precision := if graph.isRelaxed next then (graph.node? next).bind Node.precision else none }

/-- The parts of a sum, one branch of which is a Multiply by a constant and the
other a constant. -/
def scaledSum (graph : Graph α) (id : NodeId) (branch : Nat) :
    Except RevisionError (ScaledSum α) := do
  let name := graph.name id
  let refuse {β : Type} (cause : UnexpectedOperation) : Except RevisionError β :=
    .error (.unexpectedOperation cause)
  match (graph.inputNode? id branch).filter fun node => graph.isKind node .multiply with
  | none => refuse (.branchNotMultiply name)
  | some multiply =>
      match graph.constantOperand? multiply with
      | none => refuse (.scaleNotConstant name)
      | some operand =>
          match (graph.inputNode? id (1 - min branch 1)).bind graph.constant? with
          | none => refuse (.biasNotConstant name)
          | some bias =>
              return {
                data := operand.data
                scale := operand.constant
                scaleTensor := operand.tensor
                bias := bias }

end Graph

namespace GraphRevision

variable [Scalar α]

/-- Subtract in the low precision, before the Convert. Gives the new Subtract;
nothing changes where the pattern is not there. -/
def subtractBeforeConvert (id : NodeId) : GraphRevision α (Option NodeId) := do
  match (← get).subtractAfterConvert? id with
  | none => return none
  | some found =>
      let shift ← addConstant found.shift ""
      let replacement ← add
        (((Op.subtract.draft found.name).input found.data 0).input shift.output 1
          |>.withPrecision found.restoredType)
      replace id replacement
      return some replacement

/-- Merge a Multiply by a constant with the one that reads it. Gives the merged
Multiply; nothing changes where the pattern is not there. -/
def mergeMultiplies (id : NodeId) : GraphRevision α (Option NodeId) := do
  match (← get).multiplyPair? id with
  | none => return none
  | some found =>
      let product ← folded (found.left.multiply found.right)
      let constant ← addConstant product ""
      let merged ← add
        (((Op.multiply.draft found.name).input found.data 0).input constant.output 1
          |>.withPrecision? found.precision)
      replace found.next merged
      return some merged

/-- Turn `x * a + b` into `(x + b / a) * a`, where the Multiply is on the given
branch of the sum. Gives the new Multiply. -/
def swapMultiplyAndAdd (id : NodeId) (branch : Nat) : GraphRevision α NodeId := do
  let graph ← get
  let name := graph.name id
  let found ← Revision.ofExcept (graph.scaledSum id branch)
  let bias ← folded (found.bias.divide found.scaleTensor)
  match graph.elementType? id with
  | none => throw (.unexpectedOperation (.missingOutputType name))
  | some precision =>
      let constant ← addConstant bias ""
      let sum ← add
        (((Op.add.draft name).input found.data 0).input constant.output 1
          |>.withPrecision precision)
      let product ← add ((Op.multiply.draft (name ++ "_Multiply")).readAll [sum, found.scale])
      replace id product
      return product

end GraphRevision

end QuantGraph
