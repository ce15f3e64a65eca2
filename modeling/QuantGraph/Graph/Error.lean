import QuantGraph.Graph.Inference

namespace QuantGraph

/-! What can go wrong when a graph is extended, changed or put in order. -/

inductive GraphError where
  | missingInputNode (id : NodeId)
  | missingSource (id : NodeId)
  | missingNode (id : NodeId)
  | missingSlot (consumer : String) (slot : UInt8)
  | missingReplacement (old new : NodeId)
  | stillConsumed (name : String)
  | noPrecisionOverride (name : String)
  | inference (error : InferenceError)
  | cyclic
  deriving DecidableEq, Repr

def GraphError.message : GraphError → String
  | missingInputNode id => "Input node " ++ id.text ++ " does not exist"
  | missingSource id => "Source node " ++ id.text ++ " does not exist"
  | missingNode id => "Node " ++ id.text ++ " does not exist"
  | missingSlot consumer slot => consumer ++ " has no input " ++ toString slot.toNat
  | missingReplacement old new =>
      "Cannot replace " ++ old.text ++ " with " ++ new.text ++ ": node does not exist"
  | stillConsumed name => "Cannot remove " ++ name ++ ": node still has consumers"
  | noPrecisionOverride name => name ++ " does not support precision override"
  | inference error => error.message
  | cyclic => "Graph contains cycles"

end QuantGraph
