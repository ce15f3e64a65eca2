import QuantGraph.Joint.Assembly
import QuantGraph.Joint.Producers

namespace QuantGraph

/-! Quantizing a subgraph with one scale for each channel. Every fake
quantization keeps its own scale and shift, in one precision for all. -/

/-- The range that each fake quantization is mapped to. -/
structure ChannelTargets (α : Type) where
  targets : List (TargetRange α)
  /-- The precision of the whole subgraph. -/
  precision : ElementType

namespace ChannelTargets

variable [Scalar α]

/-- The precision to turn to when the fake quantizations suit different ones. -/
def fallbackPrecision (policy : Policy) : ElementType :=
  policy.activationPrecisions.headD .u8

/-- The targets of fake quantizations that resolved one by one. Where they
differ in precision, all turn to one precision with a zero point. -/
def reconcile (resolved : List (TargetRange α)) (levels : Nat) (policy : Policy) :
    Option (ChannelTargets α) := do
  let first ← resolved.head?
  if resolved.all fun target => target.precision == first.precision then
    return { targets := resolved, precision := first.precision }
  else
    guard policy.supportAsymmetric
    let precision := fallbackPrecision policy
    let (min, max) ← TargetRange.bounds precision levels
    let target : TargetRange α :=
      { precision := precision, min := min, max := max, hasZeroPoint := true }
    return { targets := resolved.map fun _ => target, precision := precision }

/-- The targets for a subgraph; nothing when it cannot be quantized. -/
def forSubgraph (graph : Graph α) (subgraph : Subgraph) (policy : Policy) :
    Except RevisionError (Option (ChannelTargets α)) := do
  match subgraph.concats.head?, subgraph.producerLimits? graph with
  | some concat, some limits =>
      let levels ← Subgraph.commonLevels graph concat limits
      match limits.mapM fun producer => TargetRange.resolve producer policy with
      | some resolved => return reconcile resolved levels policy
      | none => return none
  | _, _ => return none

end ChannelTargets

namespace JointRevision

variable [Scalar α]

/-- Narrow the fake quantizations to their targets. -/
def narrowToTargets (targets : List (TargetRange α)) (updatePrecisions : Bool) :
    JointRevision α (DequantizationCache α) := do
  let producers := (← get).subgraph.quantizers.zip targets
  producers.foldlM (fun cache (id, target) => do
    let values ← Revision.ofExcept ((← get).graph.restoringDequantization id target)
    let precision := if updatePrecisions then target.precision else values.restoredType
    narrow cache id values precision (Scalar.round target.min) (Scalar.round target.max)) .empty

/-- Quantize the subgraph with one scale for each channel. Tells whether it was
possible. -/
def quantizePerChannel (policy : Policy) : JointRevision α Bool := do
  let state ← get
  match ← Revision.ofExcept (ChannelTargets.forSubgraph state.graph state.subgraph policy) with
  | none => return false
  | some found =>
      let cache ← narrowToTargets found.targets policy.updatePrecisions
      finish cache found.precision policy.updatePrecisions
      return true

end JointRevision

end QuantGraph
