import QuantGraph.Proofs.Graph.Mutation
import QuantGraph.Proofs.Revision.Ensures
import QuantGraph.Run

/-! The first phase of a run lets nodes accept an output precision. It never gives up,
and it leaves parameters and results alone. -/

namespace QuantGraph

namespace RunRevision

open Revision

variable {id : NodeId} {state : RunState α}

/-- A node that is relaxed is neither a parameter nor a result. -/
theorem ensures_relaxNode {start : Graph α} (wellFormed : state.graph.WellFormed)
    (evolves : start.Evolves state.graph) :
    (relaxNode id).Ensures state (fun _ => False) fun _ after =>
      start.Evolves after.graph := by
  unfold relaxNode
  rw [ensures_bind, ensures_get]
  dsimp only
  split
  case h_1 kind found =>
    split
    case isTrue relaxes =>
      rw [ensures_bind, ensures_modify, ensures_pure]
      have relaxed : relaxedKinds.contains kind = true := (Bool.and_eq_true _ _ ▸ relaxes).1
      have unfixed : state.graph.Unfixed id := by
        intro other equal
        cases found.symm.trans equal
        revert relaxed
        cases kind <;> decide
      have redeclared (node : Node α) : Graph.IsRedeclared node { node with relaxed := true } :=
        ⟨rfl, rfl, rfl, rfl⟩
      exact evolves.tail
        (.declare unfixed redeclared (Graph.declares_modify wellFormed redeclared))
    case isFalse => exact evolves
  case h_2 => exact evolves

theorem ensures_relaxNodes (state : RunState α) (wellFormed : state.graph.WellFormed) :
    (relaxNodes : RunRevision α Nat).Ensures state (fun _ => False) fun _ after =>
      state.graph.Evolves after.graph := by
  unfold relaxNodes
  rw [ensures_bind, ensures_get]
  refine ensures_foldlM (fun _ _ (after : RunState α) => state.graph.Evolves after.graph)
    Relation.ReflTransGen.refl ?_
  intro id rest relaxed after evolves
  refine ensures_bind.mpr ((ensures_relaxNode (evolves.wellFormed wellFormed) evolves).mono
    (fun _ bad => bad) fun changed last kept => ?_)
  cases changed <;> exact kept

/-- Nothing is assumed of the graph here. -/
theorem ensures_relaxNodes_makes (allowed : OpKind → Prop) (state : RunState α) :
    (relaxNodes : RunRevision α Nat).Ensures state (fun _ => False) fun _ after =>
      state.graph.Makes allowed 0 after.graph ∧ after.graph.edges = state.graph.edges := by
  unfold relaxNodes
  rw [ensures_bind, ensures_get]
  refine ensures_foldlM (fun _ _ (after : RunState α) =>
    state.graph.Makes allowed 0 after.graph ∧ after.graph.edges = state.graph.edges)
    ⟨.none, rfl⟩ ?_
  rintro id rest relaxed middle ⟨makes, edges_eq⟩
  have edges (id : NodeId) : (middle.graph.relax id).edges = middle.graph.edges := by
    unfold Graph.relax Graph.modify
    split <;> rfl
  rw [ensures_bind]
  unfold relaxNode
  rw [ensures_bind, ensures_get]
  dsimp only
  split
  case h_1 kind found =>
    split
    case isTrue =>
      have performed : middle.graph.perform (.relax id) = .ok (middle.graph.relax id) := rfl
      exact ⟨makes.perform performed (Graph.retains_modify _ _ fun _ => ⟨rfl, rfl⟩),
        (edges id).trans edges_eq⟩
    case isFalse => exact ⟨makes, edges_eq⟩
  case h_2 => exact ⟨makes, edges_eq⟩

end RunRevision

end QuantGraph
