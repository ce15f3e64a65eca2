import QuantGraph.Graph.Statistics
import QuantGraph.Run.Apply
import QuantGraph.Run.Report

namespace QuantGraph

/-! A run over a graph. It goes through phases; in each phase the nodes that
were there at its start are visited once, in topological order, and the
transformations of the phase are tried on each until one changes the graph. -/

namespace RunRevision

variable [Scalar α]

/-- Try transformations on a node until one changes the graph. -/
def tryInTurn (registry : Registry) (id : NodeId) : List Transformation → RunRevision α Bool
  | [] => return false
  | transformation :: rest => do
      if ← transformation.apply registry id then return true
      else tryInTurn registry id rest

/-- Visit a node with the identity number it had at the start of the phase. A
node that is gone, or whose index now belongs to another node, is passed over. -/
def visit (registry : Registry) (select : OpKind → List Transformation)
    (id : NodeId) (uid : Nat) : RunRevision α Bool := do
  let graph := (← get).graph
  if graph.uid? id ≠ some uid then return false
  match graph.kind? id with
  | some kind => tryInTurn registry id (select kind)
  | none => return false

/-- The nodes in topological order with their identity numbers. -/
def snapshot (graph : Graph α) : Except RevisionError (List (NodeId × Nat)) :=
  match graph.topologicalOrder with
  | .ok order => .ok (order.filterMap fun id => (graph.uid? id).map fun uid => (id, uid))
  | .error error => .error (.graph (.graph error))

/-- Visit all nodes. `select` gives the transformations for each kind. Gives the
number of revisions. -/
def traverse (registry : Registry) (select : OpKind → List Transformation) :
    RunRevision α Nat := do
  let nodes ← Revision.ofExcept (snapshot (← get).graph)
  nodes.foldlM (fun revisions (id, uid) => do
    if ← visit registry select id uid then return revisions + 1
    else return revisions) 0

/-- The kinds of operation whose nodes accept an output precision. -/
def relaxedKinds : List OpKind :=
  [.add, .avgPool, .concat, .convolution, .fakeQuantize, .groupConvolution, .interpolate,
    .multiply, .subtract]

/-- Let a node accept an output precision if its kind does. Tells whether it did
not before. -/
def relaxNode (id : NodeId) : RunRevision α Bool := do
  let graph := (← get).graph
  match graph.kind? id with
  | some kind =>
      if relaxedKinds.contains kind && !graph.isRelaxed id then
        modify fun state => { state with graph := state.graph.relax id }
        return true
      else return false
  | none => return false

/-- Let all nodes of the relaxed kinds accept an output precision. -/
def relaxNodes : RunRevision α Nat := do
  (← get).graph.nodeIds.foldlM (fun relaxed id => do
    if ← relaxNode id then return relaxed + 1 else return relaxed) 0

/-- Run a phase and report on it. -/
def phase (name : String) (body : RunRevision α Nat) : RunRevision α PhaseReport := do
  let nodesBefore := (← get).graph.nodeCount
  let revisions ← body
  return {
    name := name
    revisions := revisions
    nodesBefore := nodesBefore
    nodesAfter := (← get).graph.nodeCount }

/-- The traversals of a run in their order. Each has a name, and the transformations
that it tries on the nodes of each kind. -/
def traversals (registry : Registry) : List (String × (OpKind → List Transformation)) :=
  let quantizing (kind : OpKind) : List Transformation :=
    if kind = .fakeQuantize then registry.general kind else []
  let only (transformation : Transformation) (kind : OpKind) : List Transformation :=
    if kind = transformation.matchedKind then [transformation] else []
  [("BranchSpecific", registry.branchSpecific),
    ("FakeQuantize", quantizing),
    ("General", registry.general),
    ("Cleanup", registry.cleanup)] ++
    registry.standaloneCleanup.map fun transformation =>
      ("StandaloneCleanup(" ++ transformation.name ++ ")", only transformation)

/-- All phases of a run in their order. -/
def phases (registry : Registry) : List (RunRevision α PhaseReport) :=
  phase "TypeRelaxation" relaxNodes ::
    (traversals registry).map fun (name, select) => phase name (traverse registry select)

/-- Run all phases. -/
def all (registry : Registry) : RunRevision α RunReport := do
  let initial := (← get).graph
  let reports ← (phases registry).mapM id
  let final := (← get).graph
  return {
    initialNodes := initial.nodeCount
    finalNodes := final.nodeCount
    initialEdges := initial.edgeCount
    finalEdges := final.edgeCount
    phases := reports }

end RunRevision

namespace Registry

/-- Transform a graph. Without a transformation for fake quantizations the graph
is left alone; after any other error it stays as it was when the error came
up. -/
def transform [Scalar α] (registry : Registry) (graph : Graph α) :
    Except RevisionError RunReport × Graph α :=
  if (registry.general .fakeQuantize).isEmpty then
    (.error .missingFakeQuantizeTransformation, graph)
  else
    let (outcome, state) := (RunRevision.all registry).runOn (.ofGraph graph)
    (outcome, state.graph)

end Registry

end QuantGraph
