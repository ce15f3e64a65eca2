import Mathlib
import QuantGraph.Proofs.Joint.ErrorBound

/-! One scale of either sign. A negative scale turns the order of the raw values round, which does
no harm as long as no maximum is taken of them. -/

namespace QuantGraph

namespace JointState

open QuantGraph.Graph

variable {registry : Registry} {concat : NodeId} {policy : Policy} {state final : JointState Rat}
  {shared : SharedScale Rat} {levels : Nat} {narrowings : List (Narrowing Rat)}
  {moved : NodeId → NodeId} {chains : NodeId → Option DequantizationChain}
  {feeds : Assignment Rat}

theorem scale_ne_zero_of_forSubgraph
    (resolves : SharedScale.forSubgraph state.graph state.subgraph policy = .ok (some shared)) :
    shared.scale ≠ 0 := by
  obtain ⟨_, _, _, _, _, _, union⟩ := ofUnion?_of_forSubgraph resolves
  exact SharedScale.scale_ne_zero_of_ofUnion? union

/-- What is read from the subgraph elsewhere stays near, whatever the sign of the scale, unless a
maximum is taken where places are in the opposite order. -/
theorem SharesScale.readsRestored
    (shares : state.SharesScale policy shared levels narrowings moved chains final)
    (resolves : SharedScale.forSubgraph state.graph state.subgraph policy = .ok (some shared))
    (wellFormed : state.graph.WellFormed) (constants : state.graph.ConstantsReadNothing)
    (ordered : shared.KeepsMaxima state.graph state.subgraph)
    (real : state.subgraph.IsReal state.graph) (apart : state.subgraph.IsApart state.graph)
    (shapes : state.graph.HasConsistentShapes feeds) :
    state.subgraph.ReadsRestored state.graph final.graph feeds fun _ _ scale difference =>
      scale = shared.scale ∧
        |difference| ≤ ((if policy.updatePrecisions then 1 else 1 / 2) + 1 / 10 ^ 6) * |scale| := by
  obtain ⟨cache, narrowed, chained, quantizes⟩ := shares.quantizes
  have restoring := isReal_restoredType resolves real
  have nonzero := scale_ne_zero_of_forSubgraph resolves
  intro consumer outside position output value read isLayer has
  have works := constants.works_of_read wellFormed read
  obtain ⟨raw, hasRaw, follows⟩ := shares.exists_raw_of_keepsMaxima quantizes wellFormed ordered
    real restoring apart shapes has (Or.inl (shares.discovers.layer_works isLayer))
  obtain ⟨scale, restored, applies, hasRestored, shape_eq, near⟩ :=
    quantizes.exists_restored_source wellFormed shares.discovers apart shapes shares.values_eq
      restoring nonzero works outside (List.mem_of_getElem? read) isLayer has hasRaw follows
  refine ⟨_, scale, restored, ?_, applies, hasRestored, shape_eq, fun index holds => ?_⟩
  · rw [quantizes.inputs_of_outside shares.discovers works outside, List.getElem?_map, read,
      Option.map_some]
  · obtain ⟨scale_eq, bound⟩ := near index holds
    exact ⟨scale_eq, scale_eq ▸ bound⟩

end JointState

namespace Transformation

/-- Two pixels, quantized with an output interval that runs downwards, the brighter one of both, and
a Concat of it. -/
def mirroredPair : List (Draft Rat) :=
  let zero := (NodeId.mk 1).output
  let full := (NodeId.mk 2).output
  [{ op := .parameter, name := "pixels"
     declared := some { elementType := .f32, shape := [1, 1, 1, 2] } },
    (Op.constant (.scalar .f32 0)).draft "zero",
    (Op.constant (.scalar .f32 255)).draft "full",
    ((Op.fakeQuantize 256).draft "mirrored").readOutputs
      [(NodeId.mk 0).output, zero, full, full, zero],
    ((Op.maxPool { height := 1, width := 2 }).draft "brightest").readAll [NodeId.mk 3],
    ((Op.concat 1).draft "joined").readAll [NodeId.mk 4],
    (Op.result.draft "output").readAll [NodeId.mk 5]]

/-- One scale for all. -/
def scaleTogether : Transformation := { rule := .concat, policy := {} }

set_option synthInstance.maxSize 4096 in
/-- With a scale of -1, a maximum of the raw values is the minimum of what they stand for. -/
theorem exists_mirroredPair_ne :
    ∃ graph feeds, Graph.empty.addAll mirroredPair = .ok graph ∧
      (graph.evaluateResults feeds).map (List.map NDArray.toList) = .ok [[255]] ∧
      ∀ transformation ∈ [scaleTogether, scaleChannels], ∃ after,
        (transformation.apply (.all {}) (NodeId.mk 5)).runOn (.ofGraph graph) = (.ok true, after) ∧
        after.graph.inputNode? (NodeId.mk 6) 0 = some (NodeId.mk 13) ∧
        after.graph.isKind (NodeId.mk 13) .multiply = true ∧
        after.graph.inputNode? (NodeId.mk 13) 1 = some (NodeId.mk 12) ∧
        (after.graph.constant? (NodeId.mk 12)).map Tensor.toList = some [-1] ∧
        (after.graph.evaluateResults feeds).map (List.map NDArray.toList) = .ok [[0]] := by
  let feeds : Assignment Rat := Assignment.none.set (NodeId.mk 0)
    { shape := [1, 1, 1, 2], data := #[0, 255], size_data := rfl }
  have made : (Graph.empty.addAll mirroredPair).map (fun graph =>
      ((graph.evaluateResults feeds).map (List.map NDArray.toList),
        [scaleTogether, scaleChannels].map fun transformation =>
          let applied := (transformation.apply (.all {}) (NodeId.mk 5)).runOn (.ofGraph graph)
          (applied.1, applied.2.graph.inputNode? (NodeId.mk 6) 0,
            applied.2.graph.isKind (NodeId.mk 13) .multiply,
            applied.2.graph.inputNode? (NodeId.mk 13) 1,
            (applied.2.graph.constant? (NodeId.mk 12)).map Tensor.toList,
            (applied.2.graph.evaluateResults feeds).map (List.map NDArray.toList)))) =
      .ok (.ok [[255]], List.replicate 2 (.ok true, some (NodeId.mk 13), true,
        some (NodeId.mk 12), some [-1], .ok [[0]])) := by decide +kernel
  obtain ⟨graph, added, facts⟩ := Outcome.map_eq_ok.mp made
  obtain ⟨valued, ran⟩ := Prod.mk.inj facts
  refine ⟨graph, feeds, added, valued, fun transformation member => ?_⟩
  have applied := List.eq_of_mem_replicate (ran ▸ List.mem_map_of_mem member)
  simp only [Prod.mk.injEq] at applied
  obtain ⟨changed, facts⟩ := applied
  exact ⟨_, Prod.ext changed rfl, facts⟩

end Transformation

end QuantGraph
