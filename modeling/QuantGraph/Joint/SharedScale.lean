import QuantGraph.Joint.Assembly
import QuantGraph.Joint.Producers

namespace QuantGraph

/-! Quantizing a subgraph with one scale. The union of all output intervals is
mapped to one range of integers, and each fake quantization is narrowed to its
share of that range. -/

/-- How the union of the output intervals is mapped. -/
structure SharedScale (α : Type) where
  limits : List (QuantizationLimits α)
  target : TargetRange α
  scale : α
  shift : α
  restoredType : ElementType

namespace SharedScale

variable [Scalar α]

/-- The integer that stands for a real value. -/
def integerFor (shared : SharedScale α) (value : α) : α :=
  Scalar.round (value / shared.scale + shared.shift)

/-- The dequantization that all fake quantizations share. -/
def dequantization (shared : SharedScale α) : Dequantization α :=
  { restoredType := shared.restoredType
    precision := shared.target.precision
    shift := Dequantization.shiftUnlessZero (.scalar shared.restoredType shared.shift)
    scale := .scalar shared.restoredType shared.scale }

/-- The limits of a fake quantization that covers one interval. -/
def limitsOf (levels : Nat) (low high : α) : QuantizationLimits α :=
  { levels := levels, inputLow := [low], inputHigh := [high]
    outputLow := [low], outputHigh := [high] }

/-- The mapping for the union of output intervals; nothing when no target fits
or the scale is of no use. -/
def ofUnion? (limits : List (QuantizationLimits α)) (levels : Nat) (policy : Policy)
    (restoredType : ElementType) : Option (SharedScale α) := do
  let low := Scalar.least (limits.map QuantizationLimits.leastOutputLow)
  let high := Scalar.largest (limits.map QuantizationLimits.largestOutputHigh)
  let target ← TargetRange.resolve (limitsOf levels low high) policy
  let scale := (high - low) / (target.max - target.min)
  guard (Scalar.isFinite scale && Scalar.differs scale 0)
  let shift :=
    if target.hasZeroPoint then (target.min * high - target.max * low) / (high - low) else 0
  return {
    limits := limits
    target := target
    scale := scale
    shift := shift
    restoredType := restoredType }

/-- The mapping for a subgraph; nothing when it cannot be quantized with one
scale. -/
def forSubgraph (graph : Graph α) (subgraph : Subgraph) (policy : Policy) :
    Except RevisionError (Option (SharedScale α)) := do
  match subgraph.concats.head?, subgraph.producerLimits? graph with
  | some concat, some limits =>
      if limits.all QuantizationLimits.isPerTensor then
        let levels ← Subgraph.commonLevels graph concat limits
        let restoredType := (subgraph.quantizers.head?.bind graph.elementType?).getD .f32
        return ofUnion? limits levels policy restoredType
      else return none
  | _, _ => return none

end SharedScale

namespace JointRevision

variable [Scalar α]

/-- Narrow the fake quantizations to their shares. -/
def narrowToShares (shared : SharedScale α) (updatePrecisions : Bool) :
    JointRevision α (DequantizationCache α) := do
  let producers := (← get).subgraph.quantizers.zip shared.limits
  producers.foldlM (fun cache (id, limits) => do
    let graph := (← get).graph
    let precision :=
      if updatePrecisions then shared.target.precision
      else (graph.elementType? id).getD shared.restoredType
    narrow cache id shared.dequantization precision
      (shared.integerFor (limits.outputLow.getD 0 0))
      (shared.integerFor (limits.outputHigh.getD 0 0))) .empty

/-- Quantize the subgraph with one scale. Tells whether it was possible. -/
def quantizeWithSharedScale (policy : Policy) : JointRevision α Bool := do
  let state ← get
  match ← Revision.ofExcept (SharedScale.forSubgraph state.graph state.subgraph policy) with
  | none => return false
  | some shared =>
      let cache ← narrowToShares shared policy.updatePrecisions
      finish cache shared.target.precision policy.updatePrecisions
      return true

end JointRevision

end QuantGraph
