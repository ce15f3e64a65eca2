import QuantGraph.Joint.Rule
import QuantGraph.Rules.LimitFusion
import QuantGraph.Rules.Propagation
import QuantGraph.Rules.Quantization
import QuantGraph.Rules.Reassociation

namespace QuantGraph

/-! Trying a transformation on a node. -/

namespace Transformation

variable [Scalar α]

/-- Try a transformation on a node. Tells whether the graph changed. -/
def apply (transformation : Transformation) (registry : Registry) (id : NodeId) :
    RunRevision α Bool :=
  let policy := transformation.policy
  match transformation.rule with
  | .add => RunRevision.onGraph (GraphRevision.factorOutScale id)
  | .avgPool =>
      RunRevision.onGraph (GraphRevision.propagateThroughAvgPool policy.updatePrecisions id)
  | .concat => RunRevision.quantizeConcat registry policy id
  | .concatMultiChannels => RunRevision.quantizeConcatChannels registry policy id
  | .fakeQuantize => RunRevision.quantize registry policy id
  | .fuseConvert => RunRevision.onGraph (GraphRevision.fuseConvert id)
  | .fuseFakeQuantize => RunRevision.onGraph (GraphRevision.fuseIntoInputLimits id)
  | .fuseMultiplyToFakeQuantize => RunRevision.onGraph (GraphRevision.fuseMultiplyIntoLimits id)
  | .fuseSubtractToFakeQuantize => RunRevision.onGraph (GraphRevision.fuseSubtractIntoLimits id)
  | .layout _ => RunRevision.onGraph (GraphRevision.propagateThroughLayout id)
  | .matMul => RunRevision.onGraph (GraphRevision.propagateThroughMatMul id)
  | .maxPool => RunRevision.onGraph (GraphRevision.propagateThroughMaxPool id)
  | .multiply => RunRevision.onGraph (GraphRevision.mergeIntoMultiply id)
  | .relu => RunRevision.onGraph (GraphRevision.propagateThroughRelu id)
  | .subtractMultiplyToMultiplyAdd => RunRevision.onGraph (GraphRevision.distributeScale id)

end Transformation

end QuantGraph
