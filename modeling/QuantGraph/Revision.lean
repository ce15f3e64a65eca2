import QuantGraph.Graph.Build
import QuantGraph.Graph.Edit
import QuantGraph.Revision.Error

namespace QuantGraph

/-! Revisions of a state that may fail half-way. What a revision has changed up to
then stays. -/

/-- A computation that changes a state and may give up. -/
abbrev Revision (σ β : Type) := ExceptT RevisionError (StateM σ) β

/-- A revision of a graph. -/
abbrev GraphRevision (α β : Type) := Revision (Graph α) β

namespace Revision

/-- Run a revision; gives the outcome and the state it leaves. -/
def runOn (revision : Revision σ β) (state : σ) : Except RevisionError β × σ :=
  (ExceptT.run revision).run state

/-- The outcome of a computation that changes nothing. -/
def ofExcept (outcome : Except RevisionError β) : Revision σ β := ExceptT.mk (pure outcome)

/-- A revision of a part of the state. -/
def onPart (get : σ → τ) (put : τ → σ → σ) (revision : Revision τ β) : Revision σ β :=
  ExceptT.mk fun state =>
    let (outcome, part) := revision.runOn (get state)
    (outcome, put part state)

end Revision

namespace GraphRevision

/-- A change of the graph that may be refused. -/
def change (change : Graph α → Except GraphError (Graph α)) : GraphRevision α Unit := do
  match change (← get) with
  | .ok graph => set graph
  | .error error => throw (.graph (.graph error))

/-- An addition to the graph that may be refused. -/
def extend (extension : Graph α → Except GraphError (NodeId × Graph α)) :
    GraphRevision α NodeId := do
  match extension (← get) with
  | .ok (id, graph) =>
      set graph
      return id
  | .error error => throw (.graph (.graph error))

/-- Add a node. -/
def add (draft : Draft α) : GraphRevision α NodeId := extend fun graph => graph.add draft

/-- Add a constant. -/
def addConstant (tensor : Tensor α) (name : String) : GraphRevision α NodeId :=
  add ((Op.constant tensor).draft name)

/-- Add a copy of a node that reads other outputs. -/
def addCopy (id : NodeId) (outputs : List Output) : GraphRevision α NodeId :=
  extend fun graph => graph.addCopy id outputs

/-- Let every reader of `old` read `new`, and remove what nothing reads then. -/
def replace (old new : NodeId) : GraphRevision α Unit := change fun graph => graph.replace old new

def setInput (consumer : NodeId) (slot : UInt8) (source : Output) : GraphRevision α Unit :=
  change fun graph => graph.setInput consumer slot source

def setPrecision (id : NodeId) (precision : ElementType) : GraphRevision α Unit :=
  change fun graph => graph.setPrecision id precision

def overridePrecision (id : NodeId) (precision : ElementType) : GraphRevision α Unit :=
  change fun graph => graph.overridePrecision id precision

def prune (id : NodeId) : GraphRevision α Unit := modify fun graph => (graph.prune id).2

/-- The result of folding constants. -/
def folded (result : Except BroadcastError β) : GraphRevision α β :=
  Revision.ofExcept (result.mapError fun error => .graph (.broadcast error))

end GraphRevision

end QuantGraph
