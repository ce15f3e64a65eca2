import QuantGraph.Proofs.Joint.Rule
import QuantGraph.Proofs.Rules.LimitFusion
import QuantGraph.Proofs.Rules.Propagation
import QuantGraph.Proofs.Rules.Quantization
import QuantGraph.Proofs.Rules.Reassociation
import QuantGraph.Run.Apply

/-! What a transformation does to the state of a run. -/

namespace QuantGraph

namespace Transformation

open QuantGraph.Graph Revision

section Rewrites

variable [Scalar α]

/-- What a transformation that changes the graph does to it. -/
def Rewrites (transformation : Transformation) (registry : Registry) (id : NodeId)
    (before after : RunState α) : Prop :=
  let policy := transformation.policy
  let onGraph (relation : Graph α → Graph α → Prop) : Prop :=
    relation before.graph after.graph ∧ after.handled = before.handled
  match transformation.rule with
  | .add => onGraph fun left right => ∃ branch product, left.invertibleBranch? id = some branch ∧
      left.SwapsMultiplyAndAdd id branch product right
  | .avgPool => onGraph fun left right => ∃ chain, left.chainBeforeAvgPool? id = some chain ∧
      left.Propagates id chain policy.updatePrecisions true right
  | .concat => ∃ subgraph, before.subgraphAround? registry id = some subgraph ∧
      RunState.QuantizesSubgraph subgraph policy false before after
  | .concatMultiChannels => ∃ subgraph, before.subgraphAround? registry id = some subgraph ∧
      RunState.QuantizesSubgraph subgraph policy
        (before.graph.isMultiChannel subgraph.concats) before after
  | .fakeQuantize => RunState.Quantizes registry policy id before after
  | .fuseConvert => onGraph fun left right => left.FusesConvert id right
  | .fuseFakeQuantize => onGraph fun left right => left.FusesInputLimits id right
  | .fuseMultiplyToFakeQuantize => onGraph fun left right => left.FusesOutputLimits id .multiply right
  | .fuseSubtractToFakeQuantize => onGraph fun left right =>
      left.FusesOutputLimits id .subtract right ∧
        ∃ operand, left.constantOperand? id = some operand ∧ operand.slot = 0
  | .layout _ => onGraph fun left right => ∃ chain middle collapsed,
      left.chainBeforeLayout? id = some chain ∧
      left.CollapsesStage chain.subtract middle ∧
      middle.CollapsesStage chain.multiply collapsed ∧
      collapsed.Propagates id chain false true right
  | .matMul => onGraph fun left right => ∃ chain,
      (left.chainBeforeMatMul? id 0).or (left.chainBeforeMatMul? id 1) = some chain ∧
      left.Propagates id chain false false right
  | .maxPool => onGraph fun left right => ∃ chain, left.chainBeforeMaxPool? id = some chain ∧
      left.Propagates id chain false true right
  | .multiply => onGraph fun left right => ∃ multiply merged,
      left.scaledOperand? id = some multiply ∧ left.MergesMultiplies multiply merged right
  | .relu => onGraph fun left right => ∃ chain, left.chainBeforeRelu? id = some chain ∧
      left.Propagates id chain false false right
  | .subtractMultiplyToMultiplyAdd => onGraph fun left right => left.DistributesScale id right

end Rewrites

variable {start : Graph α} {state : RunState α} {registry : Registry} {id : NodeId}
  {transformation : Transformation}

private theorem ensures_onGraph {revision : GraphRevision α Bool} {relation : Graph α → Prop}
    (ensures : revision.Ensures state.graph start.Evolves fun changed after =>
      start.Evolves after ∧ if changed then relation after else after = state.graph) :
    (RunRevision.onGraph revision).Ensures state (fun after => start.Evolves after.graph)
      fun changed after => start.Evolves after.graph ∧
        if changed then relation after.graph ∧ after.handled = state.handled
        else after = state := by
  rw [RunRevision.ensures_onGraph]
  refine ensures.mono (fun _ bad => bad) ?_
  rintro changed after ⟨evolves, outcome⟩
  refine ⟨evolves, ?_⟩
  cases changed with
  | false =>
      change _ = state
      rw [show after = state.graph from outcome]
  | true => exact ⟨outcome, rfl⟩

variable [Scalar α]

/-- A transformation that is tried on a node of its kind evolves the graph, also when it
gives up; when it does not tell of a change, there is none. -/
theorem ensures_apply (wellFormed : state.graph.WellFormed)
    (evolves : start.Evolves state.graph)
    (kind : state.graph.kind? id = some transformation.matchedKind)
    (not_result : transformation.matchedKind ≠ .result) :
    (transformation.apply registry id).Ensures state (fun after => start.Evolves after.graph)
      fun changed after => start.Evolves after.graph ∧
        if changed then transformation.Rewrites registry id state after else after = state := by
  obtain ⟨rule, policy⟩ := transformation
  have unfixed : state.graph.kind? id ≠ some .result := by
    rw [kind]
    exact fun equal => not_result (Option.some.inj equal)
  cases rule with
  | add => exact ensures_onGraph (GraphRevision.ensures_factorOutScale wellFormed evolves)
  | avgPool =>
      exact ensures_onGraph
        (GraphRevision.ensures_propagateThroughAvgPool wellFormed evolves unfixed)
  | concat =>
      refine (RunRevision.ensures_quantizeConcat wellFormed evolves kind).mono
        (fun _ bad => bad) ?_
      exact fun _ _ outcome => ⟨outcome.1.2, outcome.2⟩
  | concatMultiChannels =>
      refine (RunRevision.ensures_quantizeConcatChannels wellFormed evolves kind).mono
        (fun _ bad => bad) ?_
      exact fun _ _ outcome => ⟨outcome.1.2, outcome.2⟩
  | fakeQuantize => exact RunRevision.ensures_quantize wellFormed evolves
  | fuseConvert => exact ensures_onGraph (GraphRevision.ensures_fuseConvert wellFormed evolves)
  | fuseFakeQuantize =>
      exact ensures_onGraph (GraphRevision.ensures_fuseIntoInputLimits wellFormed evolves)
  | fuseMultiplyToFakeQuantize =>
      exact ensures_onGraph (GraphRevision.ensures_fuseMultiplyIntoLimits wellFormed evolves)
  | fuseSubtractToFakeQuantize =>
      exact ensures_onGraph (GraphRevision.ensures_fuseSubtractIntoLimits wellFormed evolves)
  | layout moved =>
      exact ensures_onGraph
        (GraphRevision.ensures_propagateThroughLayout wellFormed evolves unfixed)
  | matMul =>
      exact ensures_onGraph
        (GraphRevision.ensures_propagateThroughMatMul wellFormed evolves unfixed)
  | maxPool =>
      exact ensures_onGraph
        (GraphRevision.ensures_propagateThroughMaxPool wellFormed evolves unfixed)
  | multiply => exact ensures_onGraph (GraphRevision.ensures_mergeIntoMultiply wellFormed evolves)
  | relu =>
      exact ensures_onGraph
        (GraphRevision.ensures_propagateThroughRelu wellFormed evolves unfixed)
  | subtractMultiplyToMultiplyAdd =>
      exact ensures_onGraph (GraphRevision.ensures_distributeScale wellFormed evolves)

end Transformation

end QuantGraph
