import Mathlib
import QuantGraph.Proofs.Joint.Isolation

/-! The values behind a joint quantization. -/

namespace QuantGraph

namespace Transformation

/-- A fake quantization with one scale for each of two rows, of which a pooling makes one, and a
Concat of the row. -/
def pooledRows : List (Draft Rat) :=
  let low := (NodeId.mk 1).output
  let high := (NodeId.mk 2).output
  let limit (values : NDArray Rat) : Op Rat := .constant { elementType := .f32, values := values }
  [{ op := .parameter, name := "rows"
     declared := some { elementType := .f32, shape := [1, 1, 2, 1] } },
    (limit (.scalar 0)).draft "low",
    (limit (.ofFn [1, 1, 2, 1] fun index => if index.getD 2 0 = 0 then 255 else 510)).draft "high",
    ((Op.fakeQuantize 256).draft "quantized").readOutputs
      [(NodeId.mk 0).output, low, high, low, high],
    ((Op.maxPool { height := 2, width := 1 }).draft "pooled").readAll [NodeId.mk 3],
    ((Op.concat 2).draft "joined").readAll [NodeId.mk 4],
    (Op.result.draft "output").readAll [NodeId.mk 4]]

set_option synthInstance.maxSize 4096 in
theorem exists_pooledRows_ne :
    ∃ graph after feeds, Graph.empty.addAll pooledRows = .ok graph ∧
      (scaleChannels.apply (.all {}) (NodeId.mk 5)).runOn (.ofGraph graph) = (.ok true, after) ∧
      graph.isMultiChannel [NodeId.mk 5] = true ∧
      graph.inputNode? (NodeId.mk 6) 0 = some (NodeId.mk 4) ∧
      (graph.evaluateResults feeds).map (List.map fun value => (value.shape, value.toList)) =
        .ok [([1, 1, 1, 1], [100])] ∧
      (after.graph.evaluateResults feeds).map (List.map fun value => (value.shape, value.toList)) =
        .ok [([1, 1, 2, 1], [100, 200])] := by
  let feeds : Assignment Rat := Assignment.none.set (NodeId.mk 0)
    { shape := [1, 1, 2, 1], data := #[100, 20], size_data := rfl }
  have made : (Graph.empty.addAll pooledRows).map (fun graph =>
      let applied := (scaleChannels.apply (.all {}) (NodeId.mk 5)).runOn (.ofGraph graph)
      (applied.1, graph.isMultiChannel [NodeId.mk 5], graph.inputNode? (NodeId.mk 6) 0,
        (graph.evaluateResults feeds).map (List.map fun value => (value.shape, value.toList)),
        (applied.2.graph.evaluateResults feeds).map
          (List.map fun value => (value.shape, value.toList)))) =
      .ok (.ok true, true, some (NodeId.mk 4), .ok [([1, 1, 1, 1], [100])],
        .ok [([1, 1, 2, 1], [100, 200])]) := by decide +kernel
  obtain ⟨graph, added, facts⟩ := Outcome.map_eq_ok.mp made
  simp only [Prod.mk.injEq] at facts
  obtain ⟨changed, facts⟩ := facts
  exact ⟨graph, _, feeds, added, Prod.ext changed rfl, facts⟩

end Transformation

end QuantGraph
