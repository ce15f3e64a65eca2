import QuantGraph.Graph.Downstream
import QuantGraph.Registry
import QuantGraph.Revision.Error

namespace QuantGraph

/-! The nodes around a Concat that have to be quantized together: Concats that
share an input or read each other, the fake quantizations that feed them, and
the pooling in between. -/

structure Subgraph where
  /-- The fake quantizations. -/
  quantizers : List NodeId := []
  concats : List NodeId := []
  /-- All members in the order of discovery. -/
  layers : List NodeId := []
  deriving DecidableEq, Repr, Inhabited

namespace Subgraph

def contains (subgraph : Subgraph) (id : NodeId) : Bool := subgraph.layers.contains id

/-- Add a member of no particular role. -/
def addLayer (subgraph : Subgraph) (id : NodeId) : Subgraph :=
  { subgraph with layers := subgraph.layers ++ [id] }

def addQuantizer (subgraph : Subgraph) (id : NodeId) : Subgraph :=
  { subgraph.addLayer id with quantizers := subgraph.quantizers ++ [id] }

def addConcat (subgraph : Subgraph) (id : NodeId) : Subgraph :=
  { subgraph.addLayer id with concats := subgraph.concats ++ [id] }

/-- Put one node in the place of a member. -/
def replace (subgraph : Subgraph) (old new : NodeId) : Subgraph :=
  let renamed (ids : List NodeId) := ids.map fun id => if id = old then new else id
  { quantizers := renamed subgraph.quantizers
    concats := renamed subgraph.concats
    layers := renamed subgraph.layers }

/-! ## Discovery -/

/-- What is still to do in the discovery of a subgraph. -/
inductive Visit where
  | concat (id : NodeId)
  /-- A node whose value reaches a Concat. -/
  | parent (id : NodeId)
  /-- The readers of a member. -/
  | readers (id : NodeId)
  deriving DecidableEq, Repr

/-- Operations that may stand between a fake quantization and a Concat. -/
def isIntermediate (kind : OpKind) : Bool := kind == .avgPool || kind == .maxPool

/-- The Concats that read a member and are no members yet, the last first. -/
def newConcats (graph : Graph α) (subgraph : Subgraph) (id : NodeId) : List NodeId :=
  ((graph.consumerNodes id).filter fun reader =>
    !subgraph.contains reader && graph.isKind reader .concat).reverse

/-- More visits than a visit gives rise to without a new member. -/
def Visit.weight (graph : Graph α) : Visit → Nat
  | .concat _ => 1
  | .parent _ => 2
  | .readers id => (graph.consumerNodes id).length + 1

private theorem length_unentered_addLayer_lt {graph : Graph α} {layers : List NodeId}
    {id : NodeId} (live : graph.contains id = true) (fresh : id ∉ layers) :
    (graph.unentered (layers ++ [id])).length < (graph.unentered layers).length :=
  Graph.length_unentered_lt (fun _ => List.mem_append_left [id]) live fresh (by simp)

private theorem length_newConcats_le (graph : Graph α) (subgraph : Subgraph) (id : NodeId) :
    (subgraph.newConcats graph id).length ≤ (graph.consumerNodes id).length := by
  unfold newConcats
  rw [List.length_reverse]
  exact List.length_filter_le _ _

/-- How much is at most to be visited before another node is entered. -/
def Visit.total (graph : Graph α) (visits : List Visit) : Nat :=
  visits.foldr (fun visit rest => visit.weight graph + rest) 0

@[simp] theorem Visit.total_cons (graph : Graph α) (visit : Visit) (visits : List Visit) :
    Visit.total graph (visit :: visits) = visit.weight graph + Visit.total graph visits := rfl

private theorem total_concats (graph : Graph α) (ids : List NodeId) (visits : List Visit) :
    Visit.total graph (ids.map .concat ++ visits) = ids.length + Visit.total graph visits := by
  induction ids with
  | nil => simp
  | cons head tail induction =>
      rw [List.map_cons, List.cons_append, Visit.total_cons, induction, List.length_cons,
        Visit.weight]
      omega

private theorem total_parents (graph : Graph α) (sources : List Output) (visits : List Visit) :
    Visit.total graph (sources.map (fun output => .parent output.node) ++ visits) =
      2 * sources.length + Visit.total graph visits := by
  induction sources with
  | nil => simp
  | cons head tail induction =>
      rw [List.map_cons, List.cons_append, Visit.total_cons, induction, List.length_cons,
        Visit.weight]
      omega

/-- Carry out the visits in their order. Gives the members found up to the end,
or up to the first obstacle. -/
def explore (registry : Registry) (graph : Graph α) (visits : List Visit)
    (subgraph : Subgraph) : Except SubgraphObstacle Unit × Subgraph :=
  match visits with
  | [] => (.ok (), subgraph)
  | .concat id :: rest =>
      if _ : graph.contains id = true ∧ id ∉ subgraph.layers then
        explore registry graph
          ((graph.inputs id).map (fun output => .parent output.node) ++ .readers id :: rest)
          (subgraph.addConcat id)
      else explore registry graph rest subgraph
  | .readers id :: rest =>
      explore registry graph ((subgraph.newConcats graph id).map .concat ++ rest) subgraph
  | .parent id :: rest =>
      if _ : id ∈ subgraph.layers then explore registry graph rest subgraph
      else
        match _ : graph.kind? id with
        | none => (.error (.foreignInput (graph.name id) none), subgraph)
        | some kind =>
            if kind = .fakeQuantize then
              explore registry graph (.readers id :: rest) (subgraph.addQuantizer id)
            else if kind = .concat then explore registry graph (.concat id :: rest) subgraph
            else if isIntermediate kind && registry.preservesPrecision graph id then
              match graph.inputNode? id 0 with
              | none => (.error (.noDataInput (graph.name id)), subgraph.addLayer id)
              | some parent =>
                  explore registry graph (.parent parent :: .readers id :: rest)
                    (subgraph.addLayer id)
            else (.error (.foreignInput (graph.name id) (some kind)), subgraph)
termination_by
  (graph.unentered subgraph.layers).length * (3 * graph.edges.length + 2) +
    Visit.total graph visits
decreasing_by
  · rename_i fresh
    have parents := graph.length_inputs_le id
    have readers := graph.length_consumerNodes_le id
    refine Graph.mul_add_lt_mul_add (length_unentered_addLayer_lt fresh.1 fresh.2) ?_
    simp only [total_parents, Visit.total_cons, Visit.weight]
    omega
  · exact Nat.add_lt_add_left (by simp [Visit.weight]) _
  · refine Nat.add_lt_add_left ?_ _
    have bound := length_newConcats_le graph subgraph id
    rw [total_concats, Visit.total_cons, Visit.weight]
    omega
  · exact Nat.add_lt_add_left (by simp [Visit.weight]) _
  · have readers := graph.length_consumerNodes_le id
    refine Graph.mul_add_lt_mul_add
      (length_unentered_addLayer_lt (Graph.contains_of_kind? ‹_›) ‹_›) ?_
    simp only [Visit.total_cons, Visit.weight]
    omega
  · exact Nat.add_lt_add_left (by simp [Visit.weight]) _
  · have readers := graph.length_consumerNodes_le id
    refine Graph.mul_add_lt_mul_add
      (length_unentered_addLayer_lt (Graph.contains_of_kind? ‹_›) ‹_›) ?_
    simp only [Visit.total_cons, Visit.weight]
    omega

/-- Collect the subgraph around a Concat into what has been found before. -/
def explored (registry : Registry) (graph : Graph α) (concat : NodeId) (subgraph : Subgraph) :
    Except SubgraphObstacle Unit × Subgraph :=
  if graph.contains concat || subgraph.contains concat then
    explore registry graph [.concat concat] subgraph
  else (.ok (), subgraph.addConcat concat)

/-- The whole subgraph around a Concat, if nothing stands in the way and a fake
quantization feeds it. -/
def around? (registry : Registry) (graph : Graph α) (concat : NodeId) : Option Subgraph :=
  match explored registry graph concat {} with
  | (.ok (), subgraph) => if subgraph.quantizers.isEmpty then none else some subgraph
  | (.error _, _) => none

end Subgraph

/-! ## Downstream of a Concat -/

/-- Operations through which a Convolution is still seen. -/
def transparentKinds : List OpKind := [.avgPool, .interpolate, .maxPool]

/-- No Concat reaches a Convolution through pooling and resampling alone. -/
def Graph.isMultiChannel (graph : Graph α) (concats : List NodeId) : Bool :=
  concats.all fun concat =>
    (graph.downstream transparentKinds concat).all fun reader =>
      !graph.isKind reader .convolution

end QuantGraph
