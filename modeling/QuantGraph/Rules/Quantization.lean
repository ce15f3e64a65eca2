import QuantGraph.Dequantization.Decomposition
import QuantGraph.Registry
import QuantGraph.Run.State

namespace QuantGraph

/-! The rule that splits fake quantizations. -/

namespace Registry

/-- The precisions of a policy that everything reading a node accepts. A reader
of a kind without transformations accepts all. -/
def acceptedPrecisions (registry : Registry) (graph : Graph α) (id : NodeId)
    (policy : Policy) : List ElementType :=
  (graph.consumerNodes id).foldl (fun precisions consumer =>
    match registry.activationPrecisions graph consumer with
    | [] => precisions
    | accepted => precisions.filter fun precision => accepted.contains precision)
    policy.activationPrecisions

/-- The policy narrowed to the precisions that everything reading a node
accepts. -/
def narrowedPolicy (registry : Registry) (graph : Graph α) (id : NodeId)
    (policy : Policy) : Policy :=
  { policy with activationPrecisions := registry.acceptedPrecisions graph id policy }

/-- The target of a fake quantization in its surroundings. -/
def target? [Scalar α] (registry : Registry) (graph : Graph α) (id : NodeId)
    (policy : Policy) : Option (TargetRange α) := do
  let limits ← graph.quantizationLimits? id
  TargetRange.resolve limits (registry.narrowedPolicy graph id policy)

end Registry

namespace RunRevision

/-- Split a fake quantization that has not been dealt with. -/
def quantize [Scalar α] (registry : Registry) (policy : Policy) (id : NodeId) :
    RunRevision α Bool := do
  let state ← get
  if state.isHandled id then return false
  match registry.target? state.graph id policy with
  | none => return false
  | some target =>
      let (quantizer, _) ← onGraph
        (GraphRevision.decomposeFakeQuantize id target policy.updatePrecisions)
      markHandled quantizer
      return true

end RunRevision

end QuantGraph
