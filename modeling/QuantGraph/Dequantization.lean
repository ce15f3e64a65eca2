import QuantGraph.Dequantization.Chain
import QuantGraph.Quantization.TargetRange
import QuantGraph.Revision

namespace QuantGraph

/-! Dequantization as values: the shift and the scale that lead from a range of
integers back to real values, and their attachment to a graph. -/

structure Dequantization (α : Type) where
  /-- The real type that is restored. -/
  restoredType : ElementType
  /-- The low precision that is started from. -/
  precision : ElementType
  shift : Option (Tensor α)
  scale : Tensor α
  deriving Repr, DecidableEq

namespace Dequantization

/-- Convert an output to the restored type, if asked for. -/
def attachConvert (values : Dequantization α) (data : Output) (name : String)
    (withConvert : Bool) : GraphRevision α (Option NodeId) := do
  if withConvert then
    let convert ← GraphRevision.add
      (((Op.convert values.restoredType).draft (name ++ "_Convert")).input data 0)
    return some convert
  else return none

/-- Subtract the shift from an output, if there is one. -/
def attachSubtract (values : Dequantization α) (data : Output) (name : String) :
    GraphRevision α (Option NodeId) := do
  match values.shift with
  | some shift =>
      let constant ← GraphRevision.addConstant shift ""
      let subtract ← GraphRevision.add
        ((Op.subtract.draft (name ++ "_Subtract")).input data 0 |>.input constant.output 1)
      return some subtract
  | none => return none

/-- Append `Convert`, `Subtract` and `Multiply` to an output. The Convert is
optional, and the Subtract is left out without a shift. -/
def attach (values : Dequantization α) (data : Output) (name : String) (withConvert : Bool) :
    GraphRevision α DequantizationChain := do
  let convert ← values.attachConvert data name withConvert
  let converted := (convert.map NodeId.output).getD data
  let subtract ← values.attachSubtract converted name
  let shifted := (subtract.map NodeId.output).getD converted
  let constant ← GraphRevision.addConstant values.scale ""
  let multiply ← GraphRevision.add
    ((Op.multiply.draft (name ++ "_Multiply")).input shifted 0 |>.input constant.output 1)
  return { data := data, convert := convert, subtract := subtract, multiply := some multiply }

/-- A shift, unless it is as good as zero. -/
def shiftUnlessZero [Scalar α] (shift : Tensor α) : Option (Tensor α) :=
  if shift.isNearZero then none else some shift

end Dequantization

namespace Graph

variable [Scalar α]

/-- A constant output limit of a node. -/
def constantLimit (graph : Graph α) (id : NodeId) (limit : LimitName) :
    Except RevisionError (Tensor α) :=
  match graph.limit? id limit with
  | some tensor => .ok tensor
  | none => .error (.unexpectedOperation (.nonConstantLimit (graph.name id) limit))

/-- The dequantization that restores the output interval of a fake quantization
from a range of integers: the scale is the ratio of their widths, and with a
zero point the shift is the integer that stands for zero. -/
def restoringDequantization (graph : Graph α) (id : NodeId) (target : TargetRange α) :
    Except RevisionError (Dequantization α) := do
  match graph.node? id with
  | none => throw (.graph (.missingFakeQuantize id))
  | some node =>
      let low ← graph.constantLimit id .outputLow
      let high ← graph.constantLimit id .outputHigh
      let real (value : α) : Tensor α := .scalar node.elementType value
      let fold (result : Except BroadcastError (Tensor α)) : Except RevisionError (Tensor α) :=
        result.mapError fun error => .graph (.broadcast error)
      let width ← fold (high.subtract low)
      let scale ← fold (width.divide (real (target.max - target.min)))
      let shift ←
        if target.hasZeroPoint then do
          let highPart ← fold (high.multiply (real target.min))
          let lowPart ← fold (low.multiply (real target.max))
          let difference ← fold (highPart.subtract lowPart)
          let shift ← fold (difference.divide width)
          pure (Dequantization.shiftUnlessZero shift)
        else pure none
      return {
        restoredType := node.elementType
        precision := target.precision
        shift := shift
        scale := scale }

end Graph

end QuantGraph
