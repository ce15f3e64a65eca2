import QuantGraph.Graph.Error

namespace QuantGraph

/-! Changes to the wiring and the declared types of a graph, and removal of
nodes. -/

namespace Graph

/-! ## Rewiring -/

/-- Let a node read another output on one of its input slots. The new edge
becomes the newest. -/
def setInput (graph : Graph α) (consumer : NodeId) (slot : UInt8) (source : Output) :
    Except GraphError (Graph α) :=
  if !graph.contains source.node then .error (.missingSource source.node)
  else if graph.edges.any fun edge => edge.target = consumer ∧ edge.inputSlot = slot then
    let kept := graph.edges.eraseP fun edge => edge.target = consumer ∧ edge.inputSlot = slot
    .ok ({ graph with edges := kept }.connect
      { source := source, target := consumer, inputSlot := slot })
  else .error (.missingSlot (graph.name consumer) slot)

/-- The edges that move when the readers of one node are to read another: those
out of the first, except one into the second. -/
def Moves (old new : NodeId) (edge : Edge) : Prop := edge.source.node = old ∧ edge.target ≠ new

instance (old new : NodeId) (edge : Edge) : Decidable (Moves old new edge) :=
  inferInstanceAs (Decidable (_ ∧ _))

/-- Let every reader of `old` read the same output of `new`. Each moved edge is
added anew, the newest first. -/
def redirect (graph : Graph α) (old new : NodeId) : Graph α :=
  let moved := (graph.edges.filter fun edge => decide (Moves old new edge)).map fun edge =>
    { edge with source := { edge.source with node := new } }
  { graph with
    edges := moved.reverse ++ graph.edges.filter fun edge => !decide (Moves old new edge) }

/-! ## Removal -/

/-- The nodes of these kinds stay even when nothing reads them. -/
def isFixedKind (kind : OpKind) : Bool := kind == .parameter || kind == .result

/-- The node exists, may be removed, and nothing reads it. -/
def isDead (graph : Graph α) (id : NodeId) : Bool :=
  match graph.kind? id with
  | some kind => !isFixedKind kind && graph.consumerCount id == 0
  | none => false

theorem contains_of_isDead {graph : Graph α} {id : NodeId} (dead : graph.isDead id = true) :
    graph.contains id = true := by
  unfold isDead at dead
  cases found : graph.kind? id with
  | none => simp [found] at dead
  | some kind => exact contains_of_kind? found

/-- Work off a stack of nodes: remove each dead one and look at its producers
next, that of its oldest edge first. Gives the removed nodes too. -/
def pruneAll (graph : Graph α) (stack removed : List NodeId) : List NodeId × Graph α :=
  match stack with
  | [] => (removed, graph)
  | id :: rest =>
      if _ : graph.isDead id = true then
        pruneAll (graph.erase id) ((graph.producers id).reverse ++ rest) (id :: removed)
      else pruneAll graph rest removed
termination_by graph.edges.length + graph.nodeIds.length + stack.length
decreasing_by
  · have live : graph.contains id = true := contains_of_isDead ‹_›
    have edges := length_edges_erase_add_le live
    have nodes := length_nodeIds_erase_lt live
    simp only [List.length_append, List.length_reverse, List.length_cons]
    omega
  · exact Nat.add_lt_add_left (Nat.lt_succ_self _) _

/-- Remove a node that nothing reads, and then every producer that nothing
reads any more. -/
def prune (graph : Graph α) (id : NodeId) : List NodeId × Graph α := graph.pruneAll [id] []

/-- Let every reader of `old` read `new`, then prune `old`. -/
def replace (graph : Graph α) (old new : NodeId) : Except GraphError (Graph α) :=
  if old = new then .ok graph
  else if graph.contains old && graph.contains new then
    .ok ((graph.redirect old new).prune old).2
  else .error (.missingReplacement old new)

/-- Remove a node that nothing reads. -/
def remove (graph : Graph α) (id : NodeId) : Except GraphError (Graph α) :=
  if !graph.contains id then .error (.missingNode id)
  else if graph.consumerCount id ≠ 0 then .error (.stillConsumed (graph.name id))
  else .ok (graph.erase id)

/-! ## Precisions -/

/-- Let a node accept an output precision. -/
def relax (graph : Graph α) (id : NodeId) : Graph α :=
  graph.modify id fun node => { node with relaxed := true }

/-- Declare the output precision of a node: as the precision asked for when the
node is relaxed, as its own output type otherwise. -/
def setPrecision (graph : Graph α) (id : NodeId) (precision : ElementType) :
    Except GraphError (Graph α) :=
  if graph.contains id then
    .ok (graph.modify id fun node =>
      if node.relaxed then { node with precision := some precision }
      else { node with outputType := precision })
  else .error (.missingNode id)

/-- Ask a relaxed node for an output precision. -/
def overridePrecision (graph : Graph α) (id : NodeId) (precision : ElementType) :
    Except GraphError (Graph α) :=
  match graph.node? id with
  | none => .error (.missingNode id)
  | some node =>
      if node.relaxed then
        .ok (graph.modify id fun node => { node with precision := some precision })
      else .error (.noPrecisionOverride node.name)

/-- Give a node another operation and leave everything else as it is. -/
def setOp (graph : Graph α) (id : NodeId) (op : Op α) : Graph α :=
  graph.modify id fun node => { node with op := op }

end Graph

end QuantGraph
