import Mathlib
import QuantGraph.Proofs.Graph.Construction
import QuantGraph.Proofs.Graph.Ends
import QuantGraph.Proofs.Graph.Order
import QuantGraph.Proofs.Registry
import QuantGraph.Proofs.Run.Apply
import QuantGraph.Proofs.Run.Calls
import QuantGraph.Scalar.Exact

/-! A run keeps its graph well-formed, in every state from the first to the last and
whether or not it gives up. Only a transformation for result nodes could break that, and
a registry that is built from the rules for other nodes has none. -/

namespace QuantGraph

namespace Graph

/-- A graph is well-formed, its nodes can be put in order, and it has the parameters and
results of the graph from which it arose. -/
structure Continues (start graph : Graph α) : Prop where
  wellFormed : graph.WellFormed
  ordered : ∃ order, graph.topologicalOrder = .ok order
  ends : start.KeepsEnds graph
  results_eq : graph.results = start.results

theorem Evolves.continues {start graph : Graph α} (evolves : start.Evolves graph)
    (wellFormed : start.WellFormed) : start.Continues graph where
  wellFormed := evolves.wellFormed wellFormed
  ordered := (evolves.wellFormed wellFormed).exists_topologicalOrder
  ends := evolves.keepsEnds wellFormed
  results_eq := (evolves.keepsEnds wellFormed).results_eq

end Graph

namespace Registry

variable [Scalar α] {registry : Registry} {graph : Graph α}

/-- In a traversal the graph evolves from call to call. -/
theorem keeps_evolves (keyed : registry.IsKeyed) (spares : registry.find .result = [])
    (wellFormed : graph.WellFormed) {select : OpKind → List Transformation}
    (member : select ∈ (RunRevision.traversals registry).map Prod.snd) :
    RunRevision.Keeps registry select fun state => graph.Evolves state.graph := by
  intro kind transformation selected id state evolves found
  obtain ⟨matched, known⟩ := keyed.selected member selected
  have not_result : transformation.matchedKind ≠ .result := by
    intro equal
    rw [← matched, equal, spares] at known
    cases known
  refine (Transformation.ensures_apply (evolves.wellFormed wellFormed) evolves
    (found.trans (congrArg some matched.symm)) not_result).mono (fun _ bad => bad) ?_
  rintro changed after ⟨kept, outcome⟩
  refine ⟨kept, ?_⟩
  rintro rfl
  exact outcome

theorem evolves_of_mem_calls (keyed : registry.IsKeyed) (spares : registry.find .result = [])
    (wellFormed : graph.WellFormed) {state : RunState α} (member : state ∈ registry.calls graph) :
    graph.Evolves state.graph := by
  unfold calls at member
  split at member
  case isTrue => cases member
  case isFalse =>
    exact RunRevision.invariant_of_mem_callsThrough
      (fun select known => keeps_evolves keyed spares wellFormed known)
      (evolves_relaxed wellFormed) state member

theorem evolves_transform (keyed : registry.IsKeyed) (spares : registry.find .result = [])
    (wellFormed : graph.WellFormed) : graph.Evolves (registry.transform graph).2 := by
  cases present : (registry.general .fakeQuantize).isEmpty with
  | true =>
      rw [transform, if_pos present]
      exact Relation.ReflTransGen.refl
  | false =>
      rw [graph_transform wellFormed present]
      exact RunRevision.invariant_getLastD
        (fun state => graph.Evolves state.graph) (evolves_relaxed wellFormed)
        fun after => evolves_of_mem_calls keyed spares wellFormed

/-- Whatever a registry without transformations for results does to a well-formed graph,
and whether or not it gives up on the way: the graph continues after every call of a
transformation, and when the run ends. -/
theorem continues_of_mem_calls (built : registry.IsBuilt) (spares : registry.find .result = [])
    (wellFormed : graph.WellFormed) :
    (∀ state ∈ relaxed graph :: registry.calls graph, graph.Continues state.graph) ∧
      graph.Continues (registry.transform graph).2 := by
  constructor
  · intro state member
    rcases List.mem_cons.mp member with rfl | member
    · exact (evolves_relaxed wellFormed).continues wellFormed
    · exact (evolves_of_mem_calls built.isKeyed spares wellFormed member).continues wellFormed
  · exact (evolves_transform built.isKeyed spares wellFormed).continues wellFormed

/-- A fake quantization of an input and a pooling of what it gives. -/
def pooledInput : List (Draft Rat) :=
  let low := (NodeId.mk 1).output
  let high := (NodeId.mk 2).output
  [{ op := .parameter, name := "input"
     declared := some { elementType := .f32, shape := [1, 2, 4, 4] } },
    (Op.constant (.scalar .f32 0)).draft "low",
    (Op.constant (.scalar .f32 (51 / 10))).draft "high",
    ((Op.fakeQuantize 256).draft "quantized").readOutputs
      [(NodeId.mk 0).output, low, high, low, high],
    ((Op.maxPool { height := 2, width := 2 }).draft "pooled").readOutputs [(NodeId.mk 3).output],
    (Op.result.draft "output").readOutputs [(NodeId.mk 4).output]]

/-- A run over the pooled input revises it four times, in eight calls. -/
theorem run_pooledInput :
    (Graph.empty.addAll pooledInput).map (fun graph =>
      (((all {}).transform graph).1.map RunReport.totalRevisions, ((all {}).calls graph).length)) =
      .ok (.ok 4, 8) := by decide +kernel

theorem continues_pooledInput :
    ∃ graph, Graph.empty.addAll pooledInput = .ok graph ∧ (all {}).IsBuilt ∧
      (all {}).find .result = [] ∧ graph.WellFormed ∧ ((all {}).calls graph).length = 8 ∧
      (∀ state ∈ relaxed graph :: (all {}).calls graph, graph.Continues state.graph) ∧
      graph.Continues ((all {}).transform graph).2 := by
  have spares : (all {}).find .result = [] := by rfl
  have ordered : ∀ draft ∈ pooledInput, draft.IsInOrder := by decide
  obtain ⟨graph, added, facts⟩ := Outcome.map_eq_ok.mp run_pooledInput
  obtain ⟨_, called⟩ := Prod.mk.inj facts
  have wellFormed := Graph.wellFormed_empty.addAll ordered added
  exact ⟨graph, added, isBuilt_all {}, spares, wellFormed, called,
    continues_of_mem_calls (isBuilt_all {}) spares wellFormed⟩

/-- An input times two. -/
def doubledInput : List (Draft Rat) :=
  [{ op := .parameter, name := "input"
     declared := some { elementType := .f32, shape := [4] } },
    (Op.constant (.scalar .f32 2)).draft "factor",
    (Op.multiply.draft "doubled").readOutputs [(NodeId.mk 0).output, (NodeId.mk 1).output],
    (Op.result.draft "output").readOutputs [(NodeId.mk 2).output]]

/-- The default transformations and one that moves dequantizations past results. -/
def movingPastResults : Registry := (all {}).addGeneral { rule := .layout .result, policy := {} }

/-- A transformation that moves dequantizations past results adds a second result. -/
theorem exists_results_ne :
    movingPastResults.IsBuilt ∧
      ∃ graph, Graph.empty.addAll doubledInput = .ok graph ∧ graph.WellFormed ∧
        graph.results = [NodeId.mk 3] ∧
        ∃ state ∈ movingPastResults.calls graph,
          state.graph.results = [NodeId.mk 3, NodeId.mk 4] := by
  have ordered : ∀ draft ∈ doubledInput, draft.IsInOrder := by decide
  have made : (Graph.empty.addAll doubledInput).map (fun graph => (graph.results,
      ((movingPastResults.calls graph).map fun state => state.graph.results)[1]?)) =
        .ok ([NodeId.mk 3], some [NodeId.mk 3, NodeId.mk 4]) := by decide +kernel
  obtain ⟨graph, added, results⟩ := Outcome.map_eq_ok.mp made
  obtain ⟨before, found⟩ := Prod.mk.inj results
  obtain ⟨state, called, after⟩ := List.mem_map.mp (List.mem_of_getElem? found)
  exact ⟨.addGeneral (isBuilt_all {}) _, graph, added,
    Graph.wellFormed_empty.addAll ordered added, before, state, called, after⟩

end Registry

end QuantGraph
