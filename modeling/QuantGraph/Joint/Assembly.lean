import QuantGraph.Dequantization.Decomposition
import QuantGraph.Joint.Cache
import QuantGraph.Joint.Subgraph
import QuantGraph.Run.State

namespace QuantGraph

/-! Putting dequantization behind a subgraph whose fake quantizations have been
narrowed. The dequantization of a Concat is laid together from those of its
inputs, and pooling passes that of its input on. -/

/-- The state while a subgraph is revised. -/
structure JointState (α : Type) extends RunState α where
  subgraph : Subgraph

/-- A revision of a subgraph. -/
abbrev JointRevision (α β : Type) := Revision (JointState α) β

namespace JointRevision

def onRun (revision : RunRevision α β) : JointRevision α β :=
  Revision.onPart JointState.toRunState
    (fun run state => { state with toRunState := run }) revision

def onGraph (revision : GraphRevision α β) : JointRevision α β :=
  onRun (RunRevision.onGraph revision)

end JointRevision

/-! ## The dequantization of a Concat -/

namespace Dequantization

variable [Scalar α]

/-- The shape of rank `rank` that extends along one axis only. -/
def axisShape (rank axis extent : Nat) : Shape := (List.replicate rank 1).set axis extent

/-- One value for each channel along an axis. -/
def perChannel (tensor : Tensor α) (channels axis rank : Nat) : Except RevisionError (List α) :=
  if tensor.size = 1 then .ok (List.replicate channels (tensor.first?.getD 0))
  else if tensor.shape.StretchesTo (axisShape rank axis channels) then
    .ok (tensor.values.stretch (axisShape rank axis channels)).toList
  else .error (.unsupported (.notPerChannel tensor.shape axis))

/-- The dequantization of a Concat, from those of its inputs and their extents
along the axis. An input without a shift counts as one with zeros. -/
def concatenate (parts : List (Dequantization α × Nat)) (axis rank : Nat) :
    Except RevisionError (Dequantization α) := do
  match parts with
  | [] => throw (.dequantizationNotFound "empty Concat")
  | (first, _) :: _ =>
      let channelValues ← parts.mapM fun (values, channels) => do
        let scale ← perChannel values.scale channels axis rank
        let shift ←
          match values.shift with
          | some shift => perChannel shift channels axis rank
          | none => pure (List.replicate channels 0)
        return (scale, shift)
      let shape := axisShape rank axis ((parts.map Prod.snd).foldl (· + ·) 0)
      let tensor (values : List α) : Except RevisionError (Tensor α) :=
        (Tensor.ofList first.restoredType shape values).mapError fun error =>
          .graph (.tensor error)
      let scale ← tensor (channelValues.flatMap Prod.fst)
      let shift ←
        if parts.any fun (values, _) => values.shift.isSome then do
          let shift ← tensor (channelValues.flatMap Prod.snd)
          pure ((shiftUnlessZero shift).map Tensor.collapse)
        else pure none
      return { first with shift := shift, scale := scale.collapse }

end Dequantization

namespace Graph

variable [Scalar α]

/-- The dequantization that a layer needs, from those kept for the fake
quantizations before it. `path` holds the layers that led here. -/
def carriedDequantization (graph : Graph α) (cache : DequantizationCache α)
    (path : List NodeId) (id : NodeId) : Except RevisionError (Dequantization α) :=
  match cache.get? id with
  | some values => .ok values
  | none =>
      let notFound : RevisionError := .dequantizationNotFound (graph.name id)
      if _ : graph.contains id = true ∧ id ∉ path then
        match (graph.node? id).map Node.op with
        | some (.concat axis) => do
            let parts ← (graph.inputs id).mapM fun source => do
              match (graph.shape? source.node).bind fun shape => shape[axis]? with
              | none => throw notFound
              | some channels =>
                  let values ← carriedDequantization graph cache (id :: path) source.node
                  return (values, channels)
            Dequantization.concatenate parts axis ((graph.shape? id).getD []).length
        | some (.fakeQuantize _) | none => .error notFound
        | some _ =>
            match graph.inputNode? id 0 with
            | none => .error notFound
            | some parent => carriedDequantization graph cache (id :: path) parent
      else .error notFound
termination_by (graph.unentered path).length
decreasing_by
  all_goals
    rename_i fresh
    exact length_unentered_cons_lt fresh.1 fresh.2

end Graph

/-! ## Insertion behind the layers -/

namespace GraphRevision

variable [Scalar α]

/-- Put a dequantization behind a layer for its readers outside of the
subgraph. -/
def dequantizeLayer (subgraph : Subgraph) (cache : DequantizationCache α) (withConvert : Bool)
    (layer : NodeId) : GraphRevision α Unit := do
  let graph ← get
  let outside := (graph.consumers layer).filter fun (consumer, _) => !subgraph.contains consumer
  if outside.isEmpty then return
  let values ← Revision.ofExcept (graph.carriedDequantization cache [] layer)
  let chain ← values.attach layer.output (graph.name layer) withConvert
  outside.forM fun (consumer, slot) => setInput consumer slot chain.tail

/-- Put a dequantization behind every layer that is read outside of the
subgraph. -/
def dequantizeLayers (subgraph : Subgraph) (cache : DequantizationCache α)
    (withConvert : Bool) : GraphRevision α Unit :=
  subgraph.layers.forM (dequantizeLayer subgraph cache withConvert)

end GraphRevision

namespace JointRevision

variable [Scalar α]

/-- Narrow a fake quantization and put the new node in its place, in the
subgraph and in the cache. -/
def narrow (cache : DequantizationCache α) (id : NodeId) (values : Dequantization α)
    (precision : ElementType) (min max : α) : JointRevision α (DequantizationCache α) := do
  let narrowed ← onGraph (GraphRevision.narrowFakeQuantize id precision min max)
  modify fun state => { state with subgraph := state.subgraph.replace id narrowed }
  onRun (RunRevision.markHandled narrowed)
  return (cache.insert id values).rekey id narrowed

/-- Declare the precision of a layer, unless it is a fake quantization, which
has its own, and note that the layer has been dealt with. -/
def finishLayer (precision : ElementType) (updatePrecisions : Bool) (layer : NodeId) :
    JointRevision α Unit := do
  let state ← get
  if updatePrecisions && !state.graph.isKind layer .fakeQuantize then
    onGraph (GraphRevision.setPrecision layer precision)
  onRun (RunRevision.markHandled layer)

/-- Put the dequantization behind the subgraph and declare the precision of its
layers. -/
def finish (cache : DequantizationCache α) (precision : ElementType) (updatePrecisions : Bool) :
    JointRevision α Unit := do
  let subgraph := (← get).subgraph
  onGraph (GraphRevision.dequantizeLayers subgraph cache updatePrecisions)
  subgraph.layers.forM (finishLayer precision updatePrecisions)

end JointRevision

end QuantGraph
