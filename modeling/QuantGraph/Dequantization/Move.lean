import QuantGraph.Dequantization.Simplify

namespace QuantGraph

/-! Moving a dequantization from the input of an operation to its output. -/

namespace Graph

/-- The first input slot on which a node reads another. -/
def slotReading (graph : Graph α) (parent child : NodeId) : Except RevisionError Nat :=
  match (graph.consumers parent).find? fun (consumer, _) => consumer = child with
  | some (_, slot) => .ok slot.toNat
  | none =>
      .error (.unexpectedOperation (.notAnInput (graph.name parent) (graph.name child)))

end Graph

/-- What is needed to move a chain past an operation. -/
structure ChainMove where
  name : String
  multiply : NodeId
  scale : NodeId
  shift : Option NodeId
  /-- The output that the operation is to read instead of the chain. -/
  source : Output
  /-- The inputs of the operation once it reads past the chain. -/
  inputs : List Output
  deriving Repr, DecidableEq

namespace Graph

/-- Plan to move a chain past an operation. Unless the Subtract moves too, the
operation goes on reading it. -/
def chainMove (graph : Graph α) (id : NodeId) (chain : DequantizationChain)
    (moveSubtract : Bool) : Except RevisionError ChainMove := do
  let name := graph.name id
  match chain.multiply, chain.multiplyConstant? graph with
  | some multiply, some scale =>
      let slot ← graph.slotReading multiply id
      let source := match moveSubtract, chain.subtract with
        | false, some subtract => subtract.output
        | _, _ => chain.data
      return {
        name := name
        multiply := multiply
        scale := scale
        shift := if moveSubtract then chain.subtractConstant? graph else none
        source := source
        inputs := (graph.inputs id).set slot source }
  | _, _ => throw (.dequantizationNotFound name)

end Graph

namespace GraphRevision

variable [Scalar α]

/-- Declare the precision of the input that an operation reads as its own. -/
def adoptPrecision (id : NodeId) (source : Output) (name : String) : GraphRevision α Unit := do
  let graph ← get
  if !graph.isRelaxed id then
    throw (.precisionOverrideUnsupported name)
  match graph.elementType? source.node with
  | some precision => overridePrecision id precision
  | none => throw (.graph (.lostInput name))

/-- Put a Convert after a node whose type is not that of the Multiply of a
chain. -/
def convertLike (id : NodeId) (chain : DequantizationChain) (plan : ChainMove) :
    GraphRevision α NodeId := do
  let graph ← get
  match graph.elementType? plan.multiply with
  | none => throw (.graph (.lostDequantization plan.name))
  | some multiplyType =>
      if graph.elementType? id = some multiplyType then return id
      else
        let destination := (chain.convert.bind graph.elementType?).getD multiplyType
        add (((Op.convert destination).draft (plan.name ++ "_Convert")).readAll [id])

/-- Put the Subtract of a chain, if it moves, after a node. -/
def shiftLike (id : NodeId) (plan : ChainMove) : GraphRevision α NodeId := do
  match plan.shift with
  | some shift => add ((Op.subtract.draft (plan.name ++ "_Subtract")).readAll [id, shift])
  | none => return id

/-- Move a chain from the input of an operation to its output. The operation is
copied onto the data of the chain, and the chain is built anew after the copy.
Gives the copy and the end of the new chain. The operation has to commute with
what is moved. -/
def moveChainAfter (id : NodeId) (chain : DequantizationChain)
    (updatePrecision moveSubtract : Bool) : GraphRevision α (NodeId × NodeId) := do
  let plan ← Revision.ofExcept ((← get).chainMove id chain moveSubtract)
  let copy ← addCopy id plan.inputs
  if updatePrecision then
    adoptPrecision copy plan.source plan.name
  let converted ← convertLike copy chain plan
  let shifted ← shiftLike converted plan
  let tail ← add ((Op.multiply.draft (plan.name ++ "_Multiply")).readAll [shifted, plan.scale])
  replace id tail
  match moveSubtract, chain.convert, chain.subtract with
  | false, some _, some subtract => do
      let _ ← subtractBeforeConvert subtract
      return (copy, tail)
  | _, _, _ => return (copy, tail)

end GraphRevision

end QuantGraph
