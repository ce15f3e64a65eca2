import QuantGraph.Op
import QuantGraph.StableSort

namespace QuantGraph

/-! Graphs of operations. A node keeps its index for as long as it lives; the
index of a removed node is given to a later one, and the identity number of a
node never is. An edge carries the output of one node into an input slot of
another. Edges are listed from the newest to the oldest, which is the order in
which a node's neighbours are visited. -/

/-- The place of a node in its graph. -/
structure NodeId where
  index : Nat
  deriving DecidableEq, Repr, Inhabited

/-- The place with a given number. Places are numbered with 32 bits. -/
def NodeId.ofNat (number : Nat) : NodeId := { index := number % 4294967296 }

def NodeId.text (id : NodeId) : String := "NodeIndex(" ++ toString id.index ++ ")"

/-- One output of a node. -/
structure Output where
  node : NodeId
  slot : UInt8
  deriving DecidableEq, Repr, Inhabited

/-- The first output of a node. -/
def NodeId.output (id : NodeId) : Output := { node := id, slot := 0 }

/-- The element type and shape of a value. -/
structure ValueType where
  elementType : ElementType
  shape : Shape
  deriving DecidableEq, Repr

structure Node (α : Type) where
  name : String
  op : Op α
  outputType : ElementType
  shape : Shape
  /-- The node accepts another output precision than its own. -/
  relaxed : Bool
  /-- The precision asked for; it counts only while the node is relaxed. -/
  precision : Option ElementType
  uid : Nat
  deriving Repr, DecidableEq

namespace Node

def kind (node : Node α) : OpKind := node.op.kind

/-- The element type of the output, a precision asked for taken into account. -/
def elementType (node : Node α) : ElementType :=
  if node.relaxed then node.precision.getD node.outputType else node.outputType

def valueType (node : Node α) : ValueType :=
  { elementType := node.elementType, shape := node.shape }

def constant? (node : Node α) : Option (Tensor α) := node.op.constant?

end Node

structure Edge where
  source : Output
  target : NodeId
  inputSlot : UInt8
  deriving DecidableEq, Repr

@[ext] structure Graph (α : Type) where
  nodes : Array (Option (Node α))
  /-- From the newest to the oldest. -/
  edges : List Edge
  /-- Indices without a node, the one to be given out next first. -/
  vacant : List NodeId
  nextUid : Nat
  deriving Repr, DecidableEq

namespace Graph

def empty : Graph α := { nodes := #[], edges := [], vacant := [], nextUid := 0 }

instance : Inhabited (Graph α) := ⟨empty⟩

/-! ## Looking at nodes -/

def node? (graph : Graph α) (id : NodeId) : Option (Node α) := (graph.nodes[id.index]?).join

def contains (graph : Graph α) (id : NodeId) : Bool := (graph.node? id).isSome

/-- The nodes in increasing index. -/
def nodeIds (graph : Graph α) : List NodeId :=
  ((List.range graph.nodes.size).map NodeId.mk).filter graph.contains

def kind? (graph : Graph α) (id : NodeId) : Option OpKind := (graph.node? id).map Node.kind

def isKind (graph : Graph α) (id : NodeId) (kind : OpKind) : Bool := graph.kind? id == some kind

/-- The name of a node; of a removed one, the empty text. -/
def name (graph : Graph α) (id : NodeId) : String :=
  match graph.node? id with
  | some node => node.name
  | none => ""

def elementType? (graph : Graph α) (id : NodeId) : Option ElementType :=
  (graph.node? id).map Node.elementType

def shape? (graph : Graph α) (id : NodeId) : Option Shape := (graph.node? id).map Node.shape

def uid? (graph : Graph α) (id : NodeId) : Option Nat := (graph.node? id).map Node.uid

def constant? (graph : Graph α) (id : NodeId) : Option (Tensor α) :=
  (graph.node? id).bind Node.constant?

def isConstant (graph : Graph α) (id : NodeId) : Bool := (graph.constant? id).isSome

def isRelaxed (graph : Graph α) (id : NodeId) : Bool :=
  match graph.node? id with
  | some node => node.relaxed
  | none => false

/-- The first node of a name. -/
def find? (graph : Graph α) (name : String) : Option NodeId :=
  graph.nodeIds.find? fun id => graph.name id == name

/-- The nodes of a kind in increasing index. -/
def nodesOfKind (graph : Graph α) (kind : OpKind) : List NodeId :=
  graph.nodeIds.filter fun id => graph.isKind id kind

def parameters (graph : Graph α) : List NodeId := graph.nodesOfKind .parameter

def results (graph : Graph α) : List NodeId := graph.nodesOfKind .result

/-! ## Looking at edges -/

/-- The edges into a node, the newest first. -/
def incoming (graph : Graph α) (id : NodeId) : List Edge :=
  graph.edges.filter fun edge => edge.target = id

/-- The edges out of a node, the newest first. -/
def outgoing (graph : Graph α) (id : NodeId) : List Edge :=
  graph.edges.filter fun edge => edge.source.node = id

/-- The outputs that a node reads, by increasing input slot; of several on one
slot, the newest first. -/
def inputs (graph : Graph α) (id : NodeId) : List Output :=
  (StableSort.sortBy (fun edge => edge.inputSlot.toNat) (graph.incoming id)).map Edge.source

def inputCount (graph : Graph α) (id : NodeId) : Nat := (graph.incoming id).length

/-- The output read on an input slot; of several, the newest. -/
def input? (graph : Graph α) (id : NodeId) (slot : Nat) : Option Output :=
  ((graph.incoming id).find? fun edge => edge.inputSlot.toNat == slot).map Edge.source

def inputNode? (graph : Graph α) (id : NodeId) (slot : Nat) : Option NodeId :=
  (graph.input? id slot).map Output.node

/-- The nodes that a node reads, once for every edge, the newest edge first. -/
def producers (graph : Graph α) (id : NodeId) : List NodeId :=
  (graph.incoming id).map fun edge => edge.source.node

/-- The nodes that read a node, once for every edge, the newest edge first. -/
def successors (graph : Graph α) (id : NodeId) : List NodeId :=
  (graph.outgoing id).map Edge.target

/-- The readers of a node with the input slot on which they read it, by
increasing index and slot. -/
def consumers (graph : Graph α) (id : NodeId) : List (NodeId × UInt8) :=
  StableSort.sortBy (fun consumer => consumer.1.index * 256 + consumer.2.toNat)
    ((graph.outgoing id).map fun edge => (edge.target, edge.inputSlot))

/-- The readers of a node, each once, by increasing index. -/
def consumerNodes (graph : Graph α) (id : NodeId) : List NodeId :=
  StableSort.dropRepeats ((graph.consumers id).map Prod.fst)

def consumerCount (graph : Graph α) (id : NodeId) : Nat := (graph.outgoing id).length

/-! ## Elementary changes -/

/-- The index that the next new node gets. -/
def nextId (graph : Graph α) : NodeId :=
  match graph.vacant with
  | id :: _ => id
  | [] => { index := graph.nodes.size }

/-- Place a node at the next index. -/
def place (graph : Graph α) (node : Node α) : Graph α :=
  match graph.vacant with
  | id :: rest =>
      { graph with nodes := graph.nodes.setIfInBounds id.index (some node), vacant := rest }
  | [] => { graph with nodes := graph.nodes.push (some node) }

/-- Add an edge, which becomes the newest. -/
def connect (graph : Graph α) (edge : Edge) : Graph α :=
  { graph with edges := edge :: graph.edges }

/-- Change a node where it stands; without such a node, nothing changes. -/
def modify (graph : Graph α) (id : NodeId) (change : Node α → Node α) : Graph α :=
  match graph.node? id with
  | some node => { graph with nodes := graph.nodes.setIfInBounds id.index (some (change node)) }
  | none => graph

/-- Take a node out together with its edges. Its index is the next to be given
out. Without such a node, nothing changes. -/
def erase (graph : Graph α) (id : NodeId) : Graph α :=
  if graph.contains id then
    { graph with
      nodes := graph.nodes.setIfInBounds id.index none
      edges := graph.edges.filter fun edge => edge.source.node ≠ id ∧ edge.target ≠ id
      vacant := id :: graph.vacant }
  else graph

/-! ## What the elementary changes do -/

theorem contains_eq_true_iff {graph : Graph α} {id : NodeId} :
    graph.contains id = true ↔ ∃ node, graph.node? id = some node := by
  simp [contains, Option.isSome_iff_exists]

theorem contains_of_kind? {graph : Graph α} {id : NodeId} {kind : OpKind}
    (found : graph.kind? id = some kind) : graph.contains id = true := by
  obtain ⟨node, present, _⟩ := Option.map_eq_some_iff.mp found
  exact contains_eq_true_iff.mpr ⟨node, present⟩

theorem lt_size_of_contains {graph : Graph α} {id : NodeId}
    (live : graph.contains id = true) : id.index < graph.nodes.size := by
  obtain ⟨node, found⟩ := contains_eq_true_iff.mp live
  by_cases inside : id.index < graph.nodes.size
  · exact inside
  · simp [node?, Array.getElem?_eq_none (Nat.le_of_not_lt inside)] at found

@[simp] theorem mem_nodeIds {graph : Graph α} {id : NodeId} :
    id ∈ graph.nodeIds ↔ graph.contains id = true := by
  constructor
  · intro member
    exact (List.mem_filter.mp member).2
  · intro live
    refine List.mem_filter.mpr ⟨List.mem_map.mpr ⟨id.index, ?_, rfl⟩, live⟩
    exact List.mem_range.mpr (lt_size_of_contains live)

theorem node?_erase (graph : Graph α) (id other : NodeId) :
    (graph.erase id).node? other = if other = id then none else graph.node? other := by
  unfold erase
  split
  case isTrue live =>
    by_cases equal : other = id
    · subst equal
      simp [node?, lt_size_of_contains live]
    · have different : id.index ≠ other.index := fun same => equal (by
        cases id; cases other; exact congrArg NodeId.mk same.symm)
      simp [node?, different, equal]
  case isFalse dead =>
    by_cases equal : other = id
    · subst equal
      simpa [contains] using dead
    · simp [equal]

theorem contains_erase (graph : Graph α) (id other : NodeId) :
    (graph.erase id).contains other = (decide (other ≠ id) && graph.contains other) := by
  unfold contains
  rw [node?_erase]
  by_cases equal : other = id <;> simp [equal]

theorem nodeIds_erase (graph : Graph α) (id : NodeId) :
    (graph.erase id).nodeIds = graph.nodeIds.filter fun other => decide (other ≠ id) := by
  have size_nodes : (graph.erase id).nodes.size = graph.nodes.size := by
    unfold erase
    split <;> simp
  unfold nodeIds
  rw [size_nodes, List.filter_filter]
  refine congrArg (fun keep => List.filter keep _) ?_
  funext other
  exact contains_erase graph id other

theorem length_nodeIds_erase_lt {graph : Graph α} {id : NodeId}
    (live : graph.contains id = true) :
    (graph.erase id).nodeIds.length < graph.nodeIds.length := by
  rw [nodeIds_erase]
  exact List.length_filter_lt_length_iff_exists.mpr
    ⟨id, mem_nodeIds.mpr live, by simp⟩

theorem length_inputs_le (graph : Graph α) (id : NodeId) :
    (graph.inputs id).length ≤ graph.edges.length := by
  rw [inputs, List.length_map, StableSort.length_sortBy]
  exact List.length_filter_le _ _

theorem length_successors_le (graph : Graph α) (id : NodeId) :
    (graph.successors id).length ≤ graph.edges.length := by
  rw [successors, List.length_map]
  exact List.length_filter_le _ _

theorem length_consumerNodes_le (graph : Graph α) (id : NodeId) :
    (graph.consumerNodes id).length ≤ graph.edges.length := by
  refine Nat.le_trans (StableSort.length_dropRepeats_le _) ?_
  rw [List.length_map, consumers, StableSort.length_sortBy, List.length_map]
  exact List.length_filter_le _ _

/-- With a node go at least the edges on which it reads. -/
theorem length_edges_erase_add_le {graph : Graph α} {id : NodeId}
    (live : graph.contains id = true) :
    (graph.erase id).edges.length + (graph.producers id).length ≤ graph.edges.length := by
  rw [erase, if_pos live, producers, List.length_map, incoming]
  induction graph.edges with
  | nil => exact Nat.le_refl _
  | cons edge rest induction =>
      by_cases read : edge.target = id <;> by_cases isSource : edge.source.node = id <;>
        simp [read, isSource] at induction ⊢ <;> omega

end Graph

end QuantGraph
