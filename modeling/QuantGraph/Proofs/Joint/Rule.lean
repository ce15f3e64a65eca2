import QuantGraph.Joint.Rule
import QuantGraph.Proofs.Joint.Assembly

/-! The rules that quantize the surroundings of a Concat, as relations between the
states before and after. -/

namespace QuantGraph

namespace JointState

variable [Scalar α]

/-- Every fake quantization has been narrowed to a target of its own, and the
dequantization has been put behind the subgraph. -/
def QuantizesPerChannel (policy : Policy) (before after : JointState α) : Prop :=
  ∃ found cache narrowed,
    ChannelTargets.forSubgraph before.graph before.subgraph policy = .ok (some found) ∧
    Revision.Sequence (fun (entry : NodeId × TargetRange α) left right => ∃ values,
      left.2.graph.restoringDequantization entry.1 entry.2 = .ok values ∧
      NarrowsMember entry.1 values
        (if policy.updatePrecisions then entry.2.precision else values.restoredType)
        (Scalar.round entry.2.min) (Scalar.round entry.2.max) left right)
      (before.subgraph.quantizers.zip found.targets) (.empty, before) (cache, narrowed) ∧
    Finishes cache found.precision policy.updatePrecisions narrowed after

/-- Every fake quantization has been narrowed to its share of one range, and the
dequantization has been put behind the subgraph. -/
def QuantizesWithSharedScale (policy : Policy) (before after : JointState α) : Prop :=
  ∃ shared cache narrowed,
    SharedScale.forSubgraph before.graph before.subgraph policy = .ok (some shared) ∧
    Revision.Sequence (fun (entry : NodeId × QuantizationLimits α) left right =>
      NarrowsMember entry.1 shared.dequantization
        (if policy.updatePrecisions then shared.target.precision
          else (left.2.graph.elementType? entry.1).getD shared.restoredType)
        (shared.integerFor (entry.2.outputLow.getD 0 0))
        (shared.integerFor (entry.2.outputHigh.getD 0 0)) left right)
      (before.subgraph.quantizers.zip shared.limits) (.empty, before) (cache, narrowed) ∧
    Finishes cache shared.target.precision policy.updatePrecisions narrowed after

end JointState

namespace JointRevision

open QuantGraph.Graph Revision

variable [Scalar α] {start : Graph α} {state : JointState α} {policy : Policy}

theorem ensures_quantizePerChannel (kept : Kept start state) :
    (quantizePerChannel policy).Ensures state (fun after => start.Evolves after.graph)
      fun changed after => Kept start after ∧
        if changed then JointState.QuantizesPerChannel policy state after else after = state := by
  unfold quantizePerChannel
  rw [ensures_bind, ensures_get, ensures_bind]
  refine ensures_ofExcept kept.evolves fun outcome resolved => ?_
  cases outcome with
  | none => exact ⟨kept, rfl⟩
  | some found =>
      unfold narrowToTargets
      dsimp only
      rw [ensures_bind, ensures_bind, ensures_get]
      refine (ensures_foldlM_sequence
        (fun (entry : NodeId × TargetRange α) left right => ∃ values,
          left.2.graph.restoringDequantization entry.1 entry.2 = .ok values ∧
          JointState.NarrowsMember entry.1 values
            (if policy.updatePrecisions then entry.2.precision else values.restoredType)
            (Scalar.round entry.2.min) (Scalar.round entry.2.max) left right)
        (fun _ after => Kept start after) kept ?_).mono (fun _ bad => bad) ?_
      · rintro ⟨id, target⟩ cache middle _ kept
        rw [ensures_bind, ensures_get, ensures_bind]
        refine ensures_ofExcept kept.evolves fun values restores => ?_
        refine (ensures_narrow kept).mono (fun _ bad => bad) ?_
        exact fun _ after narrows => ⟨narrows.1, values, restores, narrows.2⟩
      · rintro cache narrowed ⟨kept, narrows⟩
        refine ensures_bind.mpr ((ensures_finish kept).mono (fun _ bad => bad) ?_)
        exact fun _ after finishes =>
          ⟨finishes.1, found, cache, narrowed, resolved, narrows, finishes.2⟩

theorem ensures_quantizeWithSharedScale (kept : Kept start state) :
    (quantizeWithSharedScale policy).Ensures state (fun after => start.Evolves after.graph)
      fun changed after => Kept start after ∧
        if changed then JointState.QuantizesWithSharedScale policy state after
        else after = state := by
  unfold quantizeWithSharedScale
  rw [ensures_bind, ensures_get, ensures_bind]
  refine ensures_ofExcept kept.evolves fun outcome resolved => ?_
  cases outcome with
  | none => exact ⟨kept, rfl⟩
  | some shared =>
      unfold narrowToShares
      dsimp only
      rw [ensures_bind, ensures_bind, ensures_get]
      refine (ensures_foldlM_sequence
        (fun (entry : NodeId × QuantizationLimits α) left right =>
          JointState.NarrowsMember entry.1 shared.dequantization
            (if policy.updatePrecisions then shared.target.precision
              else (left.2.graph.elementType? entry.1).getD shared.restoredType)
            (shared.integerFor (entry.2.outputLow.getD 0 0))
            (shared.integerFor (entry.2.outputHigh.getD 0 0)) left right)
        (fun _ after => Kept start after) kept ?_).mono (fun _ bad => bad) ?_
      · rintro ⟨id, limits⟩ cache middle _ kept
        rw [ensures_bind, ensures_get]
        exact ensures_narrow kept
      · rintro cache narrowed ⟨kept, narrows⟩
        refine ensures_bind.mpr ((ensures_finish kept).mono (fun _ bad => bad) ?_)
        exact fun _ after finishes =>
          ⟨finishes.1, shared, cache, narrowed, resolved, narrows, finishes.2⟩

end JointRevision

namespace RunState

theorem subgraphAround?_eq_some {state : RunState α} {registry : Registry} {concat : NodeId}
    {subgraph : Subgraph} (found : state.subgraphAround? registry concat = some subgraph) :
    Subgraph.around? registry state.graph concat = some subgraph ∧
      ∀ layer ∈ subgraph.layers, state.isHandled layer = false := by
  simp only [subgraphAround?, Option.bind_eq_bind, Option.bind_eq_some_iff,
    Option.guard_eq_some'] at found
  obtain ⟨around, isAround, _, unhandled, equal⟩ := found
  cases equal
  exact ⟨isAround, by simpa using unhandled⟩

variable [Scalar α]

/-- The surroundings of a Concat have been quantized, with one scale for each channel
or with one scale. -/
def QuantizesSubgraph (subgraph : Subgraph) (policy : Policy) (perChannel : Bool)
    (before after : RunState α) : Prop :=
  ∃ final : JointState α, final.toRunState = after ∧
    if perChannel then
      JointState.QuantizesPerChannel policy { toRunState := before, subgraph := subgraph } final
    else
      JointState.QuantizesWithSharedScale policy { toRunState := before, subgraph := subgraph }
        final

end RunState

namespace RunRevision

open QuantGraph.Graph Revision

variable {start : Graph α} {state : RunState α} {registry : Registry} {policy : Policy}
  {id : NodeId}

theorem ensures_onSubgraph {subgraph : Subgraph} {revision : JointRevision α β}
    {failed : RunState α → Prop} {done : β → RunState α → Prop} :
    (onSubgraph subgraph revision).Ensures state failed done ↔
      revision.Ensures { toRunState := state, subgraph := subgraph }
        (fun joint => failed joint.toRunState) fun value joint => done value joint.toRunState :=
  ensures_onPart

/-- A subgraph that has been discovered can be revised. -/
theorem kept_of_discovers {joint : JointState α} (wellFormed : joint.graph.WellFormed)
    (evolves : start.Evolves joint.graph)
    (discovers : Subgraph.Discovers joint.graph [] joint.subgraph) :
    JointRevision.Kept start joint := by
  refine ⟨wellFormed, evolves, fun layer member other isKind => ?_⟩
  rcases discovers.layer_kind layer member with ⟨found, _⟩ | ⟨found, _⟩ | ⟨pool, found, between⟩
  · rw [found] at isKind
    cases isKind
    rfl
  · rw [found] at isKind
    cases isKind
    rfl
  · rw [found] at isKind
    cases isKind
    revert between
    cases other <;> decide

theorem kept_of_subgraphAround? (wellFormed : state.graph.WellFormed)
    (evolves : start.Evolves state.graph) (kind : state.graph.kind? id = some .concat)
    {subgraph : Subgraph} (found : state.subgraphAround? registry id = some subgraph) :
    JointRevision.Kept start { toRunState := state, subgraph := subgraph } :=
  kept_of_discovers wellFormed evolves
    (Subgraph.discovers_around? kind (RunState.subgraphAround?_eq_some found).1).1

variable [Scalar α]

theorem ensures_quantizeConcat (wellFormed : state.graph.WellFormed)
    (evolves : start.Evolves state.graph) (kind : state.graph.kind? id = some .concat) :
    (quantizeConcat registry policy id).Ensures state (fun after => start.Evolves after.graph)
      fun changed after => (after.graph.WellFormed ∧ start.Evolves after.graph) ∧
        if changed then ∃ subgraph, state.subgraphAround? registry id = some subgraph ∧
          RunState.QuantizesSubgraph subgraph policy false state after
        else after = state := by
  unfold quantizeConcat
  rw [ensures_bind, ensures_get]
  split
  case isTrue => exact ⟨⟨wellFormed, evolves⟩, rfl⟩
  case isFalse =>
    split
    case h_1 => exact ⟨⟨wellFormed, evolves⟩, rfl⟩
    case h_2 subgraph found =>
      rw [ensures_onSubgraph]
      refine (JointRevision.ensures_quantizeWithSharedScale
        (kept_of_subgraphAround? wellFormed evolves kind found)).mono (fun _ bad => bad) ?_
      rintro changed after ⟨kept, outcome⟩
      refine ⟨⟨kept.wellFormed, kept.evolves⟩, ?_⟩
      cases changed with
      | false => exact congrArg JointState.toRunState outcome
      | true => exact ⟨subgraph, found, after, rfl, outcome⟩

theorem ensures_quantizeConcatChannels (wellFormed : state.graph.WellFormed)
    (evolves : start.Evolves state.graph) (kind : state.graph.kind? id = some .concat) :
    (quantizeConcatChannels registry policy id).Ensures state
      (fun after => start.Evolves after.graph)
      fun changed after => (after.graph.WellFormed ∧ start.Evolves after.graph) ∧
        if changed then ∃ subgraph, state.subgraphAround? registry id = some subgraph ∧
          RunState.QuantizesSubgraph subgraph policy
            (state.graph.isMultiChannel subgraph.concats) state after
        else after = state := by
  unfold quantizeConcatChannels
  rw [ensures_bind, ensures_get]
  split
  case isTrue => exact ⟨⟨wellFormed, evolves⟩, rfl⟩
  case isFalse =>
    split
    case h_1 => exact ⟨⟨wellFormed, evolves⟩, rfl⟩
    case h_2 subgraph found =>
      have kept := kept_of_subgraphAround? wellFormed evolves kind found
      split
      case isTrue multi =>
        rw [ensures_onSubgraph]
        refine (JointRevision.ensures_quantizePerChannel kept).mono (fun _ bad => bad) ?_
        rintro changed after ⟨kept, outcome⟩
        refine ⟨⟨kept.wellFormed, kept.evolves⟩, ?_⟩
        cases changed with
        | false => exact congrArg JointState.toRunState outcome
        | true => exact ⟨subgraph, found, after, rfl, by rw [multi]; exact outcome⟩
      case isFalse single =>
        rw [ensures_onSubgraph]
        refine (JointRevision.ensures_quantizeWithSharedScale kept).mono (fun _ bad => bad) ?_
        rintro changed after ⟨kept, outcome⟩
        refine ⟨⟨kept.wellFormed, kept.evolves⟩, ?_⟩
        cases changed with
        | false => exact congrArg JointState.toRunState outcome
        | true =>
            refine ⟨subgraph, found, after, rfl, ?_⟩
            rw [Bool.eq_false_iff.mpr single]
            exact outcome

end RunRevision

end QuantGraph
