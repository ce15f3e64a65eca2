import QuantGraph.Graph.Order

namespace QuantGraph

/-! The nodes that a value reaches through operations of given kinds. -/

namespace Graph

/-- Work off a stack of nodes: look through nodes of the transparent kinds at
their readers, collect all others. The collected nodes come last one first. -/
def reach (graph : Graph α) (transparent : List OpKind) (stack visited found : List NodeId) :
    List NodeId :=
  match stack with
  | [] => found
  | id :: rest =>
      if _ : id ∈ visited then reach graph transparent rest visited found
      else
        match _ : graph.kind? id with
        | none => reach graph transparent rest visited found
        | some kind =>
            if kind ∈ transparent then
              reach graph transparent (graph.consumerNodes id ++ rest) (id :: visited) found
            else reach graph transparent rest (id :: visited) (id :: found)
termination_by (graph.unentered visited).length * (graph.edges.length + 1) + stack.length
decreasing_by
  · exact Nat.add_lt_add_left (Nat.lt_succ_self _) _
  · exact Nat.add_lt_add_left (Nat.lt_succ_self _) _
  · have bound := graph.length_consumerNodes_le id
    refine mul_add_lt_mul_add (length_unentered_cons_lt (contains_of_kind? ‹_›) ‹_›) ?_
    simp only [List.length_append, List.length_cons]
    omega
  · refine mul_add_lt_mul_add (length_unentered_cons_lt (contains_of_kind? ‹_›) ‹_›) ?_
    simp only [List.length_cons]
    omega

/-- The first nodes of other than the transparent kinds that read a node,
directly or through transparent nodes, in the order of discovery. -/
def downstream (graph : Graph α) (transparent : List OpKind) (id : NodeId) : List NodeId :=
  (graph.reach transparent (graph.consumerNodes id) [] []).reverse

end Graph

end QuantGraph
