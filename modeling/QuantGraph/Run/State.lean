import QuantGraph.Revision

namespace QuantGraph

/-! The state of a run: the graph, and the identity numbers of the nodes that
have been dealt with. -/

structure RunState (α : Type) where
  graph : Graph α
  handled : List Nat

/-- A revision in the course of a run. -/
abbrev RunRevision (α β : Type) := Revision (RunState α) β

namespace RunState

def ofGraph (graph : Graph α) : RunState α := { graph := graph, handled := [] }

/-- Note that a node has been dealt with; a missing node is not noted. -/
def markHandled (state : RunState α) (id : NodeId) : RunState α :=
  match state.graph.uid? id with
  | some uid =>
      if state.handled.contains uid then state else { state with handled := uid :: state.handled }
  | none => state

def isHandled (state : RunState α) (id : NodeId) : Bool :=
  match state.graph.uid? id with
  | some uid => state.handled.contains uid
  | none => false

end RunState

namespace RunRevision

/-- A revision of the graph of a run. -/
def onGraph (revision : GraphRevision α β) : RunRevision α β :=
  Revision.onPart RunState.graph (fun graph state => { state with graph := graph }) revision

def markHandled (id : NodeId) : RunRevision α Unit := modify fun state => state.markHandled id

end RunRevision

end QuantGraph
