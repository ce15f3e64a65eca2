import QuantGraph.Dequantization
import QuantGraph.Quantization.Folding

namespace QuantGraph

/-! Splitting a fake quantization: one part maps to a range of integers, the
other restores the real interval. -/

/-- A fake quantization with its five inputs. -/
structure FakeQuantizeNode (α : Type) where
  node : Node α
  levels : Nat
  data : Output
  inputLow : Output
  inputHigh : Output
  outputLow : Output
  outputHigh : Output

namespace Graph

/-- The inputs of a fake quantization. -/
def fakeQuantizeNode (graph : Graph α) (id : NodeId) :
    Except RevisionError (FakeQuantizeNode α) :=
  match graph.node? id with
  | none => .error (.graph (.missingFakeQuantize id))
  | some node =>
      match node.op.levels? with
      | none => .error (.unexpectedOperation (.notFakeQuantize node.name))
      | some levels =>
          match graph.inputs id with
          | [data, inputLow, inputHigh, outputLow, outputHigh] =>
              .ok { node := node, levels := levels, data := data, inputLow := inputLow
                    inputHigh := inputHigh, outputLow := outputLow, outputHigh := outputHigh }
          | inputs => .error (.unexpectedOperation (.inputCount node.name inputs.length))

end Graph

namespace FakeQuantizeNode

/-- A fake quantization of the same data with other input limits. -/
def draftWithInputs (view : FakeQuantizeNode α) (name : String) (data low high : Output) :
    Draft α :=
  ((((((Op.fakeQuantize view.levels).draft name).input data 0).input low 1).input high 2).input
    view.outputLow 3).input view.outputHigh 4

/-- A fake quantization of the same data with other output limits. -/
def draftWithOutputs (view : FakeQuantizeNode α) (name : String) (low high : NodeId) :
    Draft α :=
  ((((((Op.fakeQuantize view.levels).draft name).input view.data 0).input
    view.inputLow 1).input view.inputHigh 2).input low.output 3).input high.output 4

end FakeQuantizeNode

namespace GraphRevision

variable [Scalar α]

/-- The node with the quantized values: a constant in place of a fake quantization
of constant data, which goes away; otherwise the fake quantization, whose output
precision is declared if asked for. -/
def settleQuantized (narrowed : NodeId) (name : String) (precision : ElementType)
    (updatePrecision : Bool) : GraphRevision α NodeId := do
  match ← Revision.ofExcept ((← get).foldFakeQuantize narrowed (some true)) with
  | some folded =>
      let converted := if updatePrecision then folded.convert precision else folded
      let constant ← addConstant converted name
      prune narrowed
      return constant
  | none =>
      if updatePrecision then
        setPrecision narrowed precision
      return narrowed

/-- Replace a fake quantization by one that maps to the target range, followed
by the dequantization. Quantized constant data becomes a constant. Gives the
quantizing node and the end of the dequantization. -/
def decomposeFakeQuantize (id : NodeId) (target : TargetRange α) (updatePrecision : Bool) :
    GraphRevision α (NodeId × NodeId) := do
  let graph ← get
  let view ← Revision.ofExcept (graph.fakeQuantizeNode id)
  let values ← Revision.ofExcept (graph.restoringDequantization id target)
  let realType := view.node.elementType
  let low ← addConstant (.scalar realType target.min) ""
  let high ← addConstant (.scalar realType target.max) ""
  let name := view.node.name ++ "_original"
  let narrowed ← add (view.draftWithOutputs name low high).relax
  let quantize ← settleQuantized narrowed name target.precision updatePrecision
  let chain ← values.attach quantize.output name updatePrecision
  let tail := chain.tail.node
  replace id tail
  return (quantize, tail)

/-- Replace a fake quantization by one with the output limits `[min, max]` and
an output precision. -/
def narrowFakeQuantize (id : NodeId) (precision : ElementType) (min max : α) :
    GraphRevision α NodeId := do
  let view ← Revision.ofExcept ((← get).fakeQuantizeNode id)
  let low ← addConstant (.scalar view.node.outputType min) ""
  let high ← addConstant (.scalar view.node.outputType max) ""
  let narrowed ← add ((view.draftWithOutputs view.node.name low high).withPrecision precision)
  replace id narrowed
  return narrowed

end GraphRevision

end QuantGraph
