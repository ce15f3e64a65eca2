import QuantGraph.Proofs.Dequantization.Decomposition
import QuantGraph.Proofs.Run.State
import QuantGraph.Rules.Quantization

/-! The rule that splits fake quantizations, as a relation between the states before
and after. -/

namespace QuantGraph

namespace RunState

variable [Scalar α]

/-- A fake quantization that had not been dealt with has been split, and its quantizing
part is noted. -/
def Quantizes (registry : Registry) (policy : Policy) (id : NodeId) (before after : RunState α) :
    Prop :=
  before.isHandled id = false ∧ ∃ target quantizer tail graph,
    registry.target? before.graph id policy = some target ∧
    before.graph.Decomposes id target policy.updatePrecisions quantizer tail graph ∧
    after = { before with graph := graph }.markHandled quantizer

end RunState

namespace RunRevision

open QuantGraph.Graph Revision

variable [Scalar α] {start : Graph α} {state : RunState α} {registry : Registry}
  {policy : Policy} {id : NodeId}

theorem ensures_quantize (wellFormed : state.graph.WellFormed)
    (evolves : start.Evolves state.graph) :
    (quantize registry policy id).Ensures state (fun after => start.Evolves after.graph)
      fun changed after => start.Evolves after.graph ∧
        if changed then RunState.Quantizes registry policy id state after else after = state := by
  unfold quantize
  rw [ensures_bind, ensures_get]
  split
  case isTrue => exact ⟨evolves, rfl⟩
  case isFalse unhandled =>
    split
    case h_1 => exact ⟨evolves, rfl⟩
    case h_2 target found =>
      rw [ensures_bind, ensures_onGraph]
      refine (GraphRevision.ensures_decomposeFakeQuantize wellFormed evolves).mono
        (fun _ bad => bad) ?_
      rintro ⟨quantizer, tail⟩ graph ⟨evolves, decomposes⟩
      refine ⟨by simpa using evolves, Bool.not_eq_true _ ▸ unhandled, ?_⟩
      exact ⟨target, quantizer, tail, graph, found, decomposes, rfl⟩

end RunRevision

end QuantGraph
