import QuantGraph.FakeQuantize
import QuantGraph.Quantization.Limits

namespace QuantGraph

/-! Fake quantization of constant data. Each limit holds one value, or one
value for every position of the leading axis. -/

/-- The four limits of a fake quantization as tensors. -/
structure FoldLimits (α : Type) where
  inputLow : Tensor α
  inputHigh : Tensor α
  outputLow : Tensor α
  outputHigh : Tensor α

namespace FoldLimits

def get (limits : FoldLimits α) : LimitName → Tensor α
  | .inputLow => limits.inputLow
  | .inputHigh => limits.inputHigh
  | .outputLow => limits.outputLow
  | .outputHigh => limits.outputHigh

variable [Scalar α]

/-- The interval of integers from 0 to 254 is moved, not scaled, to that from
-127 to 127. -/
def isSignedShift (limits : FoldLimits α) (levels : Nat) : Bool :=
  levels == 256 && limits.inputLow.isEqualTo 0 &&
    limits.inputHigh.isEqualTo (Scalar.ofNat 254) &&
    limits.outputLow.isEqualTo (Scalar.ofInt (-127)) &&
    limits.outputHigh.isEqualTo (Scalar.ofNat 127)

/-- The values of a limit, if there is one value or one for each channel. -/
def values (limits : FoldLimits α) (name : String) (channels : Nat) (limit : LimitName) :
    Except RevisionError (List α) :=
  let tensor := limits.get limit
  if tensor.size ≠ 1 ∧ tensor.size ≠ channels then
    .error (.limitCardinality name limit tensor.size channels)
  else .ok tensor.toList

/-- The value of a limit that applies to a channel. -/
def valueAt (values : List α) (channel : Nat) : α :=
  if values.length = 1 then values.getD 0 0 else values.getD channel 0

/-- The largest rank of data that is folded. -/
def maxRank : Nat := 5

/-- Quantize constant data. The result is declared to have `outputType`. -/
def apply (limits : FoldLimits α) (name : String) (data : Tensor α) (levels : Nat)
    (outputType : ElementType) (rounding : Bool) : Except RevisionError (Tensor α) := do
  if limits.isSignedShift levels then
    let offset := limits.outputLow.first?.getD 0
    return (data.map (· + offset)).withElementType outputType
  if levels < 2 then
    throw (.unsupported (.levels name levels))
  if data.shape.length = 0 ∨ maxRank < data.shape.length then
    throw (.unexpectedRank name data.shape.length)
  let channels := data.shape.headD 0
  let inputLow ← limits.values name channels .inputLow
  let inputHigh ← limits.values name channels .inputHigh
  let outputLow ← limits.values name channels .outputLow
  let outputHigh ← limits.values name channels .outputHigh
  let inner := if channels = 0 then 1 else data.size / channels
  let quantized := data.values.mapNumbered fun number value =>
    let channel := number / max inner 1
    let interval : Interval α :=
      { inputLow := valueAt inputLow channel
        inputHigh := valueAt inputHigh channel
        outputLow := valueAt outputLow channel
        outputHigh := valueAt outputHigh channel }
    interval.quantize levels rounding value
  return { elementType := outputType, values := quantized }

end FoldLimits

namespace Graph

variable [Scalar α]

/-- The constant that a fake quantization amounts to; nothing when the data or
a limit is not constant. Without a choice of rounding, values are rounded when
the output type is integral. -/
def foldFakeQuantize (graph : Graph α) (id : NodeId) (rounding : Option Bool) :
    Except RevisionError (Option (Tensor α)) :=
  match graph.node? id with
  | none => .error (.graph (.missingFakeQuantize id))
  | some node =>
      match node.op.levels? with
      | none => .error (.unexpectedOperation (.notFakeQuantize node.name))
      | some levels =>
          match (graph.inputNode? id 0).bind graph.constant?, graph.limit? id .inputLow,
            graph.limit? id .inputHigh, graph.limit? id .outputLow,
            graph.limit? id .outputHigh with
          | some data, some inputLow, some inputHigh, some outputLow, some outputHigh =>
              let limits : FoldLimits α :=
                { inputLow := inputLow, inputHigh := inputHigh
                  outputLow := outputLow, outputHigh := outputHigh }
              (limits.apply node.name data levels node.elementType
                (rounding.getD node.elementType.isIntegral)).map some
          | _, _, _, _, _ => .ok none

end Graph

end QuantGraph
