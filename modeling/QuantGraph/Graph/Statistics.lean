import QuantGraph.Graph

namespace QuantGraph

/-! Counts over a graph and their report. -/

structure GraphStatistics where
  totalNodes : Nat
  totalEdges : Nat
  /-- How many nodes there are of each kind. -/
  count : OpKind → Nat

namespace Graph

def nodeCount (graph : Graph α) : Nat := graph.nodeIds.length

def edgeCount (graph : Graph α) : Nat := graph.edges.length

def statistics (graph : Graph α) : GraphStatistics where
  totalNodes := graph.nodeCount
  totalEdges := graph.edgeCount
  count kind := (graph.nodesOfKind kind).length

end Graph

namespace GraphStatistics

/-- The kinds that occur, the most frequent first, kinds of the same count in
their order. -/
def occurring (statistics : GraphStatistics) : List OpKind :=
  (StableSort.sortBy statistics.count
    ((OpKind.all.filter fun kind => statistics.count kind ≠ 0).reverse)).reverse

/-- The report, one count a line. -/
def text (statistics : GraphStatistics) : String :=
  let line (label : String) (count : Nat) := "  " ++ label ++ ": " ++ toString count ++ "\n"
  "Graph Statistics:\n" ++
    line "Total nodes" statistics.totalNodes ++
    line "Total edges" statistics.totalEdges ++
    line "Parameters" (statistics.count .parameter) ++
    line "Results" (statistics.count .result) ++
    line "Constants" (statistics.count .constant) ++
    "  Operation types:\n" ++
    String.join (statistics.occurring.map fun kind =>
      "  " ++ line kind.name (statistics.count kind))

end GraphStatistics

end QuantGraph
