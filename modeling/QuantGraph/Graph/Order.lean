import QuantGraph.Graph.Error

namespace QuantGraph

/-! The order in which a graph is traversed. A depth-first search lists every
node before the nodes that read it; the list is accepted only when that holds
for every edge, so an accepted order is sound by construction. -/

namespace Graph

/-- What is still to do in a depth-first search. -/
inductive Step where
  | enter (id : NodeId)
  | leave (id : NodeId)
  deriving DecidableEq, Repr

/-- The nodes that a search has not entered yet. -/
def unentered (graph : Graph α) (entered : List NodeId) : List NodeId :=
  graph.nodeIds.filter fun id => decide (id ∉ entered)

theorem length_unentered_lt {graph : Graph α} {before after : List NodeId} {id : NodeId}
    (kept : ∀ other ∈ before, other ∈ after) (live : graph.contains id = true)
    (fresh : id ∉ before) (entered : id ∈ after) :
    (graph.unentered after).length < (graph.unentered before).length := by
  have narrowed : graph.unentered after =
      (graph.unentered before).filter fun other => decide (other ∉ after) := by
    unfold unentered
    rw [List.filter_filter]
    refine congrArg (fun keep => List.filter keep _) ?_
    funext other
    by_cases member : other ∈ after
    · simp [member]
    · have earlier : other ∉ before := fun found => member (kept other found)
      simp [member, earlier]
  rw [narrowed]
  exact List.length_filter_lt_length_iff_exists.mpr
    ⟨id, List.mem_filter.mpr ⟨mem_nodeIds.mpr live, by simpa using fresh⟩, by simpa using entered⟩

theorem length_unentered_cons_lt {graph : Graph α} {entered : List NodeId} {id : NodeId}
    (live : graph.contains id = true) (fresh : id ∉ entered) :
    (graph.unentered (id :: entered)).length < (graph.unentered entered).length :=
  length_unentered_lt (fun _ => List.mem_cons_of_mem id) live fresh List.mem_cons_self

/-- Less is left to do when a node is entered, whatever is scheduled for it: the measure of a
traversal, one number so that the kernel can run it on a given graph. -/
theorem mul_add_lt_mul_add {fewer more bound after before : Nat} (entered : fewer < more)
    (scheduled : after < bound + before) : fewer * bound + after < more * bound + before :=
  calc fewer * bound + after
    _ < fewer * bound + (bound + before) := Nat.add_lt_add_left scheduled _
    _ = (fewer + 1) * bound + before := by rw [Nat.succ_mul, Nat.add_assoc]
    _ ≤ more * bound + before := Nat.add_le_add_right (Nat.mul_le_mul_right _ entered) _

/-- Carry out a depth-first search. Entering a node schedules its readers, that
of its oldest edge first, and then its own leaving; the nodes are collected as
they are left, the last one first. -/
def search (graph : Graph α) (steps : List Step) (entered left : List NodeId) :
    List NodeId × List NodeId :=
  match steps with
  | [] => (entered, left)
  | .leave id :: rest => search graph rest entered (id :: left)
  | .enter id :: rest =>
      if _ : graph.contains id = true ∧ id ∉ entered then
        search graph ((graph.successors id).reverse.map Step.enter ++ .leave id :: rest)
          (id :: entered) left
      else search graph rest entered left
termination_by (graph.unentered entered).length * (graph.edges.length + 2) + steps.length
decreasing_by
  · exact Nat.add_lt_add_left (Nat.lt_succ_self _) _
  · rename_i fresh
    have bound := graph.length_successors_le id
    refine mul_add_lt_mul_add (length_unentered_cons_lt fresh.1 fresh.2) ?_
    simp only [List.length_append, List.length_map, List.length_reverse, List.length_cons]
    omega
  · exact Nat.add_lt_add_left (Nat.lt_succ_self _) _

/-- The nodes as a depth-first search from each of them in turn leaves them,
the last one first. -/
def searchOrder (graph : Graph α) : List NodeId :=
  (graph.search (graph.nodeIds.map Step.enter) [] []).2

/-- Every edge between listed nodes leads from an earlier to a later one. -/
def IsForward (graph : Graph α) (order : List NodeId) : Prop :=
  ∀ edge ∈ graph.edges, order.idxOf edge.source.node < order.idxOf edge.target

instance (graph : Graph α) (order : List NodeId) : Decidable (graph.IsForward order) :=
  inferInstanceAs (Decidable (∀ edge ∈ graph.edges, _))

/-- The nodes in an order in which every node comes before those that read it;
there is none when the graph has a cycle. -/
def topologicalOrder (graph : Graph α) : Except GraphError (List NodeId) :=
  let order := graph.searchOrder
  if graph.IsForward order then .ok order else .error .cyclic

theorem isForward_of_topologicalOrder {graph : Graph α} {order : List NodeId}
    (found : graph.topologicalOrder = .ok order) : graph.IsForward order := by
  unfold topologicalOrder at found
  dsimp only at found
  split at found
  case isTrue forward =>
    cases found
    exact forward
  case isFalse => cases found

end Graph

end QuantGraph
