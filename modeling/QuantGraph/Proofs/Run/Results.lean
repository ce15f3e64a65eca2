import Mathlib
import QuantGraph.Proofs.Rules.Shapes
import QuantGraph.Run

/-! The results of a graph before and after a run. -/

namespace QuantGraph

namespace Registry

set_option synthInstance.maxSize 512 in
theorem exists_transform_values_ne :
    ∃ graph after feeds report, Graph.empty.addAll GraphRevision.scaledProduct = .ok graph ∧
      (all {}).transform graph = (.ok report, after) ∧
      (graph.evaluateResults feeds).map (List.map fun value => (value.shape, value.toList)) =
        .ok [([2, 1], [6, 14])] ∧
      (after.evaluateResults feeds).map (List.map fun value => (value.shape, value.toList)) =
        .ok [([2, 2], [6, 6, 14, 14])] := by
  let feeds : Assignment Rat := Assignment.none.set (NodeId.mk 0)
    { shape := [2, 2], data := #[1, 2, 3, 4], size_data := rfl }
  have made : (Graph.empty.addAll GraphRevision.scaledProduct).map (fun graph =>
      let run := (all {}).transform graph
      (run.1.map RunReport.totalRevisions,
        (graph.evaluateResults feeds).map (List.map fun value => (value.shape, value.toList)),
        (run.2.evaluateResults feeds).map (List.map fun value => (value.shape, value.toList)))) =
      .ok (.ok 2, .ok [([2, 1], [6, 14])], .ok [([2, 2], [6, 6, 14, 14])]) := by decide +kernel
  obtain ⟨graph, added, facts⟩ := Outcome.map_eq_ok.mp made
  simp only [Prod.mk.injEq] at facts
  obtain ⟨reported, values⟩ := facts
  obtain ⟨report, ran, _⟩ := Outcome.map_eq_ok.mp reported
  exact ⟨graph, _, feeds, report, added, Prod.ext ran rfl, values⟩

end Registry

end QuantGraph
