import QuantGraph.Joint.PerChannel
import QuantGraph.Joint.SharedScale

namespace QuantGraph

/-! The rules that quantize the surroundings of a Concat. -/

namespace RunState

/-- The subgraph around a Concat, if it can be quantized and no part of it has
been dealt with. -/
def subgraphAround? (state : RunState α) (registry : Registry) (concat : NodeId) :
    Option Subgraph := do
  let subgraph ← Subgraph.around? registry state.graph concat
  guard (!subgraph.layers.any state.isHandled)
  return subgraph

end RunState

namespace RunRevision

variable [Scalar α]

/-- Revise a subgraph, which itself is not kept. -/
def onSubgraph (subgraph : Subgraph) (revision : JointRevision α β) : RunRevision α β :=
  Revision.onPart (fun run => { toRunState := run, subgraph := subgraph })
    (fun joint _ => joint.toRunState) revision

/-- Quantize the surroundings of a Concat with one scale. -/
def quantizeConcat (registry : Registry) (policy : Policy) (id : NodeId) :
    RunRevision α Bool := do
  let state ← get
  if state.isHandled id then return false
  match state.subgraphAround? registry id with
  | none => return false
  | some subgraph => onSubgraph subgraph (JointRevision.quantizeWithSharedScale policy)

/-- Quantize the surroundings of a Concat with one scale for each channel, or
with one scale for all where a Convolution reads the result. -/
def quantizeConcatChannels (registry : Registry) (policy : Policy) (id : NodeId) :
    RunRevision α Bool := do
  let state ← get
  if state.isHandled id then return false
  match state.subgraphAround? registry id with
  | none => return false
  | some subgraph =>
      if state.graph.isMultiChannel subgraph.concats then
        onSubgraph subgraph (JointRevision.quantizePerChannel policy)
      else onSubgraph subgraph (JointRevision.quantizeWithSharedScale policy)

end RunRevision

end QuantGraph
