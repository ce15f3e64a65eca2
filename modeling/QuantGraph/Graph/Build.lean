import QuantGraph.Graph.Error

namespace QuantGraph

/-! Adding nodes. A draft describes a node that is not in a graph yet; adding
it infers its output unless the draft declares one. -/

/-- An output to be read on an input slot. -/
structure Connection where
  source : Output
  inputSlot : UInt8
  deriving DecidableEq, Repr

structure Draft (α : Type) where
  op : Op α
  /-- The empty text asks for a name made from the kind and identity number. -/
  name : String := ""
  connections : List Connection := []
  declared : Option ValueType := none
  relaxed : Bool := false
  precision : Option ElementType := none

namespace Draft

/-- Read an output on a slot. -/
def input (draft : Draft α) (source : Output) (inputSlot : UInt8) : Draft α :=
  { draft with connections := draft.connections ++ [{ source := source, inputSlot := inputSlot }] }

/-- Read the first output of each node, on the slots that follow the inputs so
far. Slots are counted modulo 256. -/
def readAll (draft : Draft α) (sources : List NodeId) : Draft α :=
  sources.foldl (fun draft source =>
    draft.input source.output (UInt8.ofNat draft.connections.length)) draft

/-- Read outputs on the slots from zero on, counted modulo 256. -/
def readOutputs (draft : Draft α) (outputs : List Output) : Draft α :=
  outputs.zipIdx.foldl (fun draft (output, position) =>
    draft.input output (UInt8.ofNat position)) draft

/-- Let the node accept an output precision. -/
def relax (draft : Draft α) : Draft α := { draft with relaxed := true }

/-- Ask for an output precision. -/
def withPrecision (draft : Draft α) (precision : ElementType) : Draft α :=
  { draft with relaxed := true, precision := some precision }

/-- Ask for an output precision if there is one. -/
def withPrecision? (draft : Draft α) (precision : Option ElementType) : Draft α :=
  match precision with
  | some precision => draft.withPrecision precision
  | none => draft

end Draft

namespace Op

/-- A draft of a node with this operation and no inputs. -/
def draft (op : Op α) (name : String) : Draft α := { op := op, name := name }

end Op

namespace Graph

/-- The connections of a draft by increasing input slot. -/
def orderedConnections (draft : Draft α) : List Connection :=
  StableSort.sortBy (fun connection => connection.inputSlot.toNat) draft.connections

/-- The type and shape that a drafted node gets. -/
def draftedType (graph : Graph α) (draft : Draft α) : Except GraphError ValueType :=
  match draft.declared with
  | some declared => .ok declared
  | none =>
      let inputs := (orderedConnections draft).filterMap fun connection =>
        (graph.node? connection.source.node).map Node.valueType
      (draft.op.infer inputs).mapError .inference

/-- Add a drafted node whose output is known. Its edges are added in the order
of the input slots. -/
def insert (graph : Graph α) (draft : Draft α) (output : ValueType) : NodeId × Graph α :=
  let id := graph.nextId
  let node : Node α :=
    { name :=
        if draft.name = "" then draft.op.kind.name ++ "_" ++ toString graph.nextUid
        else draft.name
      op := draft.op
      outputType := output.elementType
      shape := output.shape
      relaxed := draft.relaxed
      precision := draft.precision
      uid := graph.nextUid }
  let placed := { graph.place node with nextUid := graph.nextUid + 1 }
  (id, (orderedConnections draft).foldl (fun graph connection =>
    graph.connect
      { source := connection.source, target := id, inputSlot := connection.inputSlot }) placed)

/-- Add a drafted node. -/
def add (graph : Graph α) (draft : Draft α) : Except GraphError (NodeId × Graph α) :=
  match (orderedConnections draft).find? fun connection =>
      !graph.contains connection.source.node with
  | some missing => .error (.missingInputNode missing.source.node)
  | none => (graph.draftedType draft).map (graph.insert draft)

/-- The draft of a copy of a node that reads other outputs. -/
def copyDraft (node : Node α) (outputs : List Output) : Draft α :=
  let draft := (node.op.draft node.name).readOutputs outputs
  (if node.relaxed then draft.relax else draft).withPrecision? node.precision

/-- Add a copy of a node that reads other outputs. -/
def addCopy (graph : Graph α) (id : NodeId) (outputs : List Output) :
    Except GraphError (NodeId × Graph α) :=
  match graph.node? id with
  | some node => graph.add (copyDraft node outputs)
  | none => .error (.missingNode id)

end Graph

end QuantGraph
