import QuantGraph.Joint.Subgraph
import QuantGraph.Quantization.Limits

namespace QuantGraph

/-! What the fake quantizations of a subgraph have in common. -/

namespace Subgraph

/-- The limits of all fake quantizations; nothing when some are not constant. -/
def producerLimits? (subgraph : Subgraph) (graph : Graph α) :
    Option (List (QuantizationLimits α)) :=
  subgraph.quantizers.mapM graph.quantizationLimits?

/-- The number of levels that all fake quantizations before a Concat have. -/
def commonLevels (graph : Graph α) (concat : NodeId) (limits : List (QuantizationLimits α)) :
    Except RevisionError Nat :=
  let levels := (limits.head?.map QuantizationLimits.levels).getD 0
  if limits.all fun producer => producer.levels == levels then .ok levels
  else .error (.unsupported (.mixedLevels (graph.name concat)))

end Subgraph

end QuantGraph
