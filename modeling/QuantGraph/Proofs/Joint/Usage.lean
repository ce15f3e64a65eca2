import QuantGraph.Proofs.Joint.Creation
import QuantGraph.Proofs.Joint.Insertion
import QuantGraph.Proofs.Rules.Usage

/-! The rules for the surroundings of a Concat leave a graph in which everything is used when
they start from one. A layer that loses its readers outside of the subgraph keeps one: the
chain that they read instead. -/

namespace QuantGraph

namespace Graph

variable {middle attached after : Graph α} {source : Output} {subgraph : Subgraph}
  {layer : NodeId} {values : Dequantization α} {data : Output} {withConvert : Bool}
  {chain : DequantizationChain}

theorem HoldsChain.exists_reader (holds : attached.HoldsChain values data withConvert chain) :
    ∃ node ∈ chain.stages, attached.Reads data.node node := by
  have convert := holds.convert
  have subtract := holds.subtract
  obtain ⟨node, isMultiply, _, constant, inputs, _⟩ := holds.multiply
  unfold HoldsConvert at convert
  unfold HoldsSubtract at subtract
  split at convert
  case isTrue =>
    obtain ⟨convert, isConvert, _, inputs⟩ := convert
    exact ⟨convert, by simp [DequantizationChain.stages, isConvert],
      reads_of_mem_inputs (by simp [inputs])⟩
  case isFalse =>
    rw [convert] at subtract inputs
    split at subtract
    case h_1 =>
      obtain ⟨subtract, isSubtract, _, constant, inputs, _⟩ := subtract
      exact ⟨subtract, by simp [DequantizationChain.stages, isSubtract],
        reads_of_mem_inputs (by simp [inputs, stageOutput])⟩
    case h_2 =>
      rw [subtract] at inputs
      exact ⟨node, by simp [DequantizationChain.stages, isMultiply],
        reads_of_mem_inputs (by simp [inputs, stageOutput])⟩

/-- The source takes over the readers outside, and new nodes go on reading the layer. -/
theorem UsedBut.rereads (used : attached.UsedBut [source.node]) (wellFormed : middle.WellFormed)
    (grows : middle.Grows attached)
    (rereads : attached.Rereads (middle.outsideReaders subgraph layer) source after)
    (nonempty : middle.outsideReaders subgraph layer ≠ [])
    (kept : ∃ reader, middle.contains reader = false ∧ attached.Reads layer reader) :
    after.AllUsed := by
  have inputs_old {reader : NodeId} (live : middle.contains reader = true) :=
    rereads.inputs_of_outside wellFormed (grows.inputs_eq live)
  have inputs_new {reader : NodeId} (fresh : middle.contains reader = false) :
      after.inputs reader = attached.inputs reader := by
    refine (rereads.sameAt (Or.inr fun slot listed => ?_)).2
    have live := (wellFormed.consistent.reads_live (reads_of_mem_outsideReaders listed).1).2
    rw [fresh] at live
    cases live
  intro id removable
  by_cases isSource : id = source.node
  · obtain ⟨⟨reader, slot⟩, listed⟩ := List.exists_mem_of_ne_nil _ nonempty
    obtain ⟨reads, outside⟩ := reads_of_mem_outsideReaders listed
    obtain ⟨output, member, isLayer⟩ := reads_iff_mem_inputs.mp reads
    refine ⟨reader, reads_iff_mem_inputs.mpr ⟨source, ?_, isSource.symm⟩⟩
    rw [inputs_old (wellFormed.consistent.reads_live reads).2, if_neg (by simp [outside])]
    exact List.mem_map.mpr ⟨output, member, if_pos isLayer⟩
  · by_cases isLayer : id = layer
    · obtain ⟨reader, fresh, reads⟩ := kept
      obtain ⟨output, member, equal⟩ := reads_iff_mem_inputs.mp reads
      exact ⟨reader, reads_iff_mem_inputs.mpr
        ⟨output, (inputs_new fresh).symm ▸ member, equal.trans isLayer.symm⟩⟩
    · obtain ⟨reader, reads⟩ := used id (removable_of_node_eq (rereads.node_eq id) removable)
        (by simpa using isSource)
      obtain ⟨output, member, rfl⟩ := reads_iff_mem_inputs.mp reads
      refine ⟨reader, reads_iff_mem_inputs.mpr ⟨output, ?_, rfl⟩⟩
      cases live : middle.contains reader with
      | false => exact (inputs_new live).symm ▸ member
      | true =>
          rw [grows.inputs_eq live] at member
          rw [inputs_old live]
          split
          case isTrue => exact member
          case isFalse => exact List.mem_map.mpr ⟨output, member, if_neg isLayer⟩

end Graph

namespace GraphRevision

open QuantGraph.Graph Revision

variable {graph : Graph α} {id : NodeId}

theorem ensures_setPrecision_tidy {precision : ElementType} {done : PUnit → Graph α → Prop}
    (tidy : graph.IsTidy) (ok : ∀ after, after.IsTidy → done PUnit.unit after) :
    (GraphRevision.setPrecision id precision).Ensures graph (fun _ => True) done := by
  refine ensures_change.mpr ?_
  unfold Graph.setPrecision
  by_cases live : graph.contains id = true
  · rw [if_pos live]
    have redeclared := isRedeclared_declaring (α := α) precision
    exact ok _ (tidy.declares (declares_modify tidy.wellFormed redeclared) redeclared)
  · rw [if_neg live]
    trivial

variable [Scalar α] {subgraph : Subgraph} {cache : DequantizationCache α} {withConvert : Bool}

theorem ensures_dequantizeLayer_tidy {layer : NodeId} (tidy : graph.IsTidy) :
    (dequantizeLayer subgraph cache withConvert layer).Ensures graph (fun _ => True)
      fun _ after => after.IsTidy := by
  unfold dequantizeLayer
  rw [ensures_bind, ensures_get]
  dsimp only
  change Ensures (if (graph.outsideReaders subgraph layer).isEmpty = true then _ else _) _ _ _
  split
  case isTrue => exact tidy
  case isFalse some_outside =>
    have nonempty : graph.outsideReaders subgraph layer ≠ [] := fun equal =>
      some_outside (List.isEmpty_iff.mpr equal)
    obtain ⟨first, member⟩ := List.exists_mem_of_ne_nil _ nonempty
    rw [ensures_bind]
    refine ensures_ofExcept trivial fun values _ => ?_
    have waits : (values.attach layer.output (graph.name layer) withConvert).Ensures graph
        (fun _ => True) fun chain after => graph.Prepares after [chain.tail.node] :=
      ensures_attach_waiting (tidy.used.prepares tidy.wellFormed) (by simp)
        fun _ _ prepares => prepares
    refine ensures_bind.mpr (((Dequantization.ensures_attach
      (supports_outsideReaders tidy.wellFormed member) .refl (by simp [NodeId.output])).and
        waits).mono (fun _ _ => trivial) ?_)
    rintro chain attached ⟨⟨attaches, supports, _⟩, prepares⟩
    refine (ensures_forM_setInput supports.wellFormed .refl fun entry listed =>
      (attaches.supports (supports_outsideReaders tidy.wellFormed listed)).independent _
        List.mem_cons_self).mono (fun _ _ => trivial) ?_
    rintro _ after ⟨_, rereads⟩
    obtain ⟨extends_chain, holds⟩ := attaches.extends tidy.wellFormed
    obtain ⟨reader, isStage, reads⟩ := holds.exists_reader
    exact ⟨rereads.wellFormed, prepares.used.rereads tidy.wellFormed prepares.grows rereads
      nonempty ⟨reader, extends_chain.fresh reader isStage, reads⟩⟩

end GraphRevision

namespace JointRevision

open QuantGraph.Graph Revision

variable {state : JointState α} {cache : DequantizationCache α} {precision : ElementType}

theorem ensures_narrow_tidy {id : NodeId} {values : Dequantization α} {min max : α}
    (tidy : state.graph.IsTidy) :
    (narrow cache id values precision min max).Ensures state (fun _ => True)
      fun _ after => after.graph.IsTidy := by
  unfold narrow
  simp only [ensures_bind, ensures_onGraph, ensures_modify, ensures_markHandled, ensures_pure]
  refine ((GraphRevision.ensures_narrowFakeQuantize tidy.wellFormed .refl).and
    (GraphRevision.ensures_narrowFakeQuantize_used tidy.wellFormed tidy.used)).mono
    (fun _ _ => trivial) ?_
  rintro narrowed after ⟨⟨evolves, _⟩, used⟩
  rw [RunState.graph_markHandled]
  exact ⟨evolves.wellFormed tidy.wellFormed, used⟩

variable [Scalar α]

theorem ensures_finish_tidy {updatePrecisions : Bool} (tidy : state.graph.IsTidy) :
    (finish cache precision updatePrecisions).Ensures state (fun _ => True)
      fun _ after => after.graph.IsTidy := by
  unfold finish
  rw [ensures_bind, ensures_get, ensures_bind, ensures_onGraph]
  refine (ensures_forM IsTidy tidy fun layer graph tidy =>
    GraphRevision.ensures_dequantizeLayer_tidy tidy).mono (fun _ _ => trivial) ?_
  intro _ dequantized tidy
  refine ensures_forM (fun after : JointState α => after.graph.IsTidy) tidy ?_
  intro layer middle tidy
  unfold finishLayer
  rw [ensures_bind, ensures_get]
  refine ensures_ite_bind (fun after : JointState α => after.graph.IsTidy) (fun _ => ?_)
    (fun _ => tidy) ?_
  · rw [ensures_onGraph]
    exact GraphRevision.ensures_setPrecision_tidy tidy fun _ tidy => tidy
  · intro after tidy
    rw [ensures_markHandled, RunState.graph_markHandled]
    exact tidy

theorem ensures_quantizePerChannel_tidy {policy : Policy} (tidy : state.graph.IsTidy) :
    (quantizePerChannel policy).Ensures state (fun _ => True)
      fun _ after => after.graph.IsTidy := by
  unfold quantizePerChannel
  rw [ensures_bind, ensures_get, ensures_bind]
  refine ensures_ofExcept trivial fun outcome _ => ?_
  split
  case h_1 => exact tidy
  case h_2 found _ =>
    unfold narrowToTargets
    rw [ensures_bind, ensures_bind, ensures_get]
    refine (ensures_foldlM (fun _ _ (after : JointState α) => after.graph.IsTidy) tidy ?_).mono
      (fun _ bad => bad) fun cache narrowed tidy => ensures_bind.mpr (ensures_finish_tidy tidy)
    rintro ⟨id, target⟩ rest cache middle tidy
    rw [ensures_bind, ensures_get, ensures_bind]
    exact ensures_ofExcept trivial fun values _ => ensures_narrow_tidy tidy

theorem ensures_quantizeWithSharedScale_tidy {policy : Policy} (tidy : state.graph.IsTidy) :
    (quantizeWithSharedScale policy).Ensures state (fun _ => True)
      fun _ after => after.graph.IsTidy := by
  unfold quantizeWithSharedScale
  rw [ensures_bind, ensures_get, ensures_bind]
  refine ensures_ofExcept trivial fun outcome _ => ?_
  split
  case h_1 => exact tidy
  case h_2 shared _ =>
    unfold narrowToShares
    rw [ensures_bind, ensures_bind, ensures_get]
    refine (ensures_foldlM (fun _ _ (after : JointState α) => after.graph.IsTidy) tidy ?_).mono
      (fun _ bad => bad) fun cache narrowed tidy => ensures_bind.mpr (ensures_finish_tidy tidy)
    rintro ⟨id, limits⟩ rest cache middle tidy
    rw [ensures_bind, ensures_get]
    exact ensures_narrow_tidy tidy

end JointRevision

end QuantGraph
