import QuantGraph.Joint.Assembly
import QuantGraph.Proofs.Dequantization.Decomposition
import QuantGraph.Proofs.Joint.Subgraph
import QuantGraph.Proofs.Run.State

/-! Putting dequantization behind a subgraph, as relations between the states before
and after. -/

namespace QuantGraph

namespace Graph

variable {before middle after start : Graph α} {id : NodeId} {source : Output}

/-! ## Reading another output on several slots -/

/-- Some nodes read another output, each on one of its slots. -/
structure Rereads (before : Graph α) (entries : List (NodeId × UInt8)) (source : Output)
    (after : Graph α) : Prop where
  node_eq : ∀ id, after.node? id = before.node? id
  inputs_eq : ∀ id, after.inputs id = (before.inputs id).mapIdx fun position output =>
    if (id, UInt8.ofNat position) ∈ entries then source else output
  wellFormed : after.WellFormed

theorem Rereads.refl (wellFormed : before.WellFormed) (source : Output) :
    before.Rereads [] source before where
  node_eq := fun _ => rfl
  inputs_eq := by
    intro id
    simp [List.mapIdx_eq_zipIdx_map, List.zipIdx_map_fst]
  wellFormed := wellFormed

theorem Resources.rereads {consumer : NodeId} {slot : UInt8} {entries : List (NodeId × UInt8)}
    (resources : before.Resources consumer slot source middle)
    (rereads : middle.Rereads entries source after) (wellFormed : before.WellFormed) :
    before.Rereads ((consumer, slot) :: entries) source after where
  node_eq := fun id => (rereads.node_eq id).trans (resources.node_eq id)
  inputs_eq := by
    intro id
    have bound : (before.inputs id).length ≤ 256 := by
      rw [length_inputs]
      exact (wellFormed.exact id).inputCount_le
    rw [rereads.inputs_eq, resources.inputs_eq]
    by_cases equal : id = consumer
    · subst equal
      rw [if_pos rfl]
      apply List.ext_getElem
      · simp
      · intro position inside _
        rw [List.length_mapIdx, List.length_set] at inside
        rw [List.getElem_mapIdx, List.getElem_mapIdx, List.getElem_set]
        have slot_eq : UInt8.ofNat position = slot ↔ slot.toNat = position := by
          rw [← UInt8.toNat_inj, UInt8.toNat_ofNat', Nat.mod_eq_of_lt (by omega)]
          exact eq_comm
        by_cases later : (id, UInt8.ofNat position) ∈ entries
        · simp [later]
        · simp only [later, if_false, List.mem_cons, Prod.mk.injEq, true_and, or_false, slot_eq]
    · rw [if_neg equal]
      simp [equal]
  wellFormed := rereads.wellFormed

/-- What the old output may reach, the new one may reach too, when neither depends on
a node. -/
theorem rereads_of_sequence {entries : List (NodeId × UInt8)} (wellFormed : before.WellFormed)
    (sequence : Revision.Sequence (fun (entry : NodeId × UInt8) (before after : Graph α) =>
      before.Resources entry.1 entry.2 source after) entries before after) :
    before.Rereads entries source after := by
  induction sequence with
  | nil => exact .refl wellFormed source
  | cons first _ induction => exact first.rereads (induction first.wellFormed) wellFormed

end Graph

namespace GraphRevision

open QuantGraph.Graph Revision

variable {start graph : Graph α} {source : Output}

theorem ensures_forM_setInput {entries : List (NodeId × UInt8)} (wellFormed : graph.WellFormed)
    (evolves : start.Evolves graph)
    (independent : ∀ entry ∈ entries, graph.Independent entry.1 source.node) :
    (entries.forM fun (consumer, slot) => setInput consumer slot source).Ensures graph
      start.Evolves fun _ after =>
        start.Evolves after ∧ graph.Rereads entries source after := by
  refine (ensures_forM_sequence
    (fun entry before after => before.Resources entry.1 entry.2 source after)
    (fun state => state.WellFormed ∧ start.Evolves state ∧
      ∀ entry ∈ entries, state.Independent entry.1 source.node)
    ⟨wellFormed, evolves, independent⟩ ?_).mono (fun _ bad => bad) ?_
  · rintro ⟨consumer, slot⟩ state member ⟨wellFormed, evolves, independent⟩
    refine ensures_setInput wellFormed evolves (independent _ member) fun after resources
      evolves => ?_
    refine ⟨⟨resources.wellFormed, evolves, fun entry listed => ?_⟩, resources⟩
    exact (independent entry listed).of_resources resources (independent entry listed)
  · rintro _ after ⟨⟨_, evolves, _⟩, sequence⟩
    exact ⟨evolves, rereads_of_sequence wellFormed sequence⟩

end GraphRevision

namespace Graph

variable [Scalar α] {graph : Graph α}

/-- The readers of a layer outside of a subgraph, with their slots. -/
def outsideReaders (graph : Graph α) (subgraph : Subgraph) (layer : NodeId) :
    List (NodeId × UInt8) :=
  (graph.consumers layer).filter fun (consumer, _) => !subgraph.contains consumer

/-- The readers of a layer outside of the subgraph read its dequantization. -/
def DequantizesLayer (before : Graph α) (subgraph : Subgraph) (cache : DequantizationCache α)
    (withConvert : Bool) (layer : NodeId) (after : Graph α) : Prop :=
  (before.outsideReaders subgraph layer = [] ∧ after = before) ∨
  ∃ values chain attached, before.outsideReaders subgraph layer ≠ [] ∧
    before.carriedDequantization cache [] layer = .ok values ∧
    before.Attaches values layer.output (before.name layer) withConvert chain attached ∧
    attached.Rereads (before.outsideReaders subgraph layer) chain.tail after

end Graph

namespace GraphRevision

open QuantGraph.Graph Revision

variable [Scalar α] {start graph : Graph α} {subgraph : Subgraph} {cache : DequantizationCache α}
  {withConvert : Bool} {layer : NodeId}

omit [Scalar α] in
theorem supports_outsideReaders (wellFormed : graph.WellFormed) {entry : NodeId × UInt8}
    (member : entry ∈ graph.outsideReaders subgraph layer) : graph.Supports entry.1 [layer] := by
  obtain ⟨edge, listed, source, target, _⟩ := mem_consumers.mp (List.mem_filter.mp member).1
  have reads : graph.Reads layer entry.1 := ⟨edge, listed, source, target⟩
  exact ⟨wellFormed, live_of_reads wellFormed reads, by
    simp [independent_of_reads wellFormed reads]⟩

theorem ensures_dequantizeLayer (wellFormed : graph.WellFormed) (evolves : start.Evolves graph) :
    (dequantizeLayer subgraph cache withConvert layer).Ensures graph start.Evolves fun _ after =>
      (after.WellFormed ∧ start.Evolves after) ∧
        graph.DequantizesLayer subgraph cache withConvert layer after := by
  unfold dequantizeLayer
  rw [ensures_bind, ensures_get]
  dsimp only
  change Ensures (if (graph.outsideReaders subgraph layer).isEmpty = true then _ else _) _ _ _
  split
  case isTrue none_outside =>
    exact ⟨⟨wellFormed, evolves⟩, Or.inl ⟨List.isEmpty_iff.mp none_outside, rfl⟩⟩
  case isFalse some_outside =>
    have nonempty : graph.outsideReaders subgraph layer ≠ [] := fun equal =>
      some_outside (List.isEmpty_iff.mpr equal)
    obtain ⟨first, first_member⟩ := List.exists_mem_of_ne_nil _ nonempty
    rw [ensures_bind]
    refine ensures_ofExcept evolves fun values carried => ?_
    refine ensures_bind.mpr ((Dequantization.ensures_attach
      (supports_outsideReaders wellFormed first_member) evolves
      (by simp [NodeId.output])).mono (fun _ bad => bad) ?_)
    rintro chain attached ⟨attaches, attached_supports, evolves⟩
    refine (ensures_forM_setInput attached_supports.wellFormed evolves fun entry member =>
      (attaches.supports (supports_outsideReaders wellFormed member)).independent _ List.mem_cons_self).mono
      (fun _ bad => bad) ?_
    rintro _ after ⟨evolves, rereads⟩
    exact ⟨⟨rereads.wellFormed, evolves⟩,
      Or.inr ⟨values, chain, attached, nonempty, carried, attaches, rereads⟩⟩

theorem ensures_dequantizeLayers (wellFormed : graph.WellFormed) (evolves : start.Evolves graph) :
    (dequantizeLayers subgraph cache withConvert).Ensures graph start.Evolves fun _ after =>
      (after.WellFormed ∧ start.Evolves after) ∧
        Sequence (fun layer (before after : Graph α) =>
          before.DequantizesLayer subgraph cache withConvert layer after)
          subgraph.layers graph after :=
  ensures_forM_sequence
    (fun layer (before after : Graph α) =>
      before.DequantizesLayer subgraph cache withConvert layer after)
    (fun after => after.WellFormed ∧ start.Evolves after) ⟨wellFormed, evolves⟩
    fun _ _ _ kept => ensures_dequantizeLayer kept.1 kept.2

end GraphRevision

/-! ## Members -/

namespace JointState

variable [Scalar α]

/-- A fake quantization of a subgraph has been narrowed, and the new node has taken its
place in the subgraph and in the cache. -/
def NarrowsMember (id : NodeId) (values : Dequantization α) (precision : ElementType)
    (min max : α) (before after : DequantizationCache α × JointState α) : Prop :=
  ∃ narrowed, before.2.graph.Narrows id precision min max narrowed after.2.graph ∧
    after.1 = (before.1.insert id values).rekey id narrowed ∧
    after.2.subgraph = before.2.subgraph.replace id narrowed

/-- The precision of a layer has been declared unless it is a fake quantization. -/
def FinishesLayer (precision : ElementType) (updatePrecisions : Bool) (layer : NodeId)
    (before after : JointState α) : Prop :=
  after.subgraph = before.subgraph ∧
    if updatePrecisions && !before.graph.isKind layer .fakeQuantize then
      before.graph.contains layer = true ∧
        before.graph.Declares layer (GraphRevision.declaring precision) after.graph
    else after.graph = before.graph

/-- The dequantization has been put behind the layers, and then their precision has been
declared. -/
def Finishes (cache : DequantizationCache α) (precision : ElementType)
    (updatePrecisions : Bool) (before after : JointState α) : Prop :=
  ∃ middle : JointState α, middle.subgraph = before.subgraph ∧
    Revision.Sequence (fun layer (left right : Graph α) =>
      left.DequantizesLayer before.subgraph cache updatePrecisions layer right)
      before.subgraph.layers before.graph middle.graph ∧
    Revision.Sequence (FinishesLayer precision updatePrecisions) before.subgraph.layers
      middle after

end JointState

namespace JointRevision

open QuantGraph.Graph Revision

variable {start : Graph α} {state : JointState α}

/-- What holds of a state while a subgraph is revised. -/
structure Kept (start : Graph α) (state : JointState α) : Prop where
  wellFormed : state.graph.WellFormed
  evolves : start.Evolves state.graph
  unfixed : ∀ id ∈ state.subgraph.layers, state.graph.Unfixed id

@[simp] theorem ensures_onGraph {revision : GraphRevision α β} {failed : JointState α → Prop}
    {done : β → JointState α → Prop} :
    (onGraph revision).Ensures state failed done ↔
      revision.Ensures state.graph (fun graph => failed { state with graph := graph })
        fun value graph => done value { state with graph := graph } := by
  unfold onGraph onRun
  rw [ensures_onPart, RunRevision.ensures_onGraph]

@[simp] theorem ensures_markHandled {id : NodeId} {failed : JointState α → Prop}
    {done : PUnit → JointState α → Prop} :
    (onRun (RunRevision.markHandled id)).Ensures state failed done ↔
      done PUnit.unit { state with toRunState := state.toRunState.markHandled id } := Iff.rfl

theorem ensures_narrow {cache : DequantizationCache α} {id : NodeId} {values : Dequantization α}
    {precision : ElementType} {min max : α} (kept : Kept start state) :
    (narrow cache id values precision min max).Ensures state (fun after => start.Evolves after.graph)
      fun result after => Kept start after ∧
        JointState.NarrowsMember id values precision min max (cache, state) (result, after) := by
  unfold narrow
  simp only [ensures_bind, ensures_onGraph, ensures_modify, ensures_markHandled, ensures_pure]
  refine (GraphRevision.ensures_narrowFakeQuantize kept.wellFormed .refl).mono
    (fun _ evolves => kept.evolves.trans evolves) ?_
  rintro narrowed after ⟨evolves, narrows⟩
  refine ⟨⟨?_, ?_, ?_⟩, narrowed, ?_, rfl, rfl⟩
  · simpa using evolves.wellFormed kept.wellFormed
  · simpa using kept.evolves.trans evolves
  · intro member listed
    rw [RunState.graph_markHandled]
    obtain ⟨layer, earlier, rfl⟩ := List.mem_map.mp listed
    split
    case isTrue =>
      obtain ⟨view, low, high, withLow, withHigh, withNarrowed, _, _, _, adds, replaces⟩ := narrows
      have unfixed : withNarrowed.Unfixed narrowed := by
        intro kind found
        obtain ⟨type, _, present⟩ := adds.node_new
        rw [kind?, present, Option.map_some, Option.some.injEq] at found
        rw [← found]
        rfl
      exact unfixed_of_node_eq unfixed fun live => replaces.node_eq live
    case isFalse => exact evolves.unfixed (kept.unfixed layer earlier)
  · simpa using narrows

theorem ensures_finishLayer {precision : ElementType} {updatePrecisions : Bool} {layer : NodeId}
    (kept : Kept start state) (unfixed : state.graph.Unfixed layer) :
    (finishLayer precision updatePrecisions layer).Ensures state
      (fun after => start.Evolves after.graph) fun _ after => Kept start after ∧
        JointState.FinishesLayer precision updatePrecisions layer state after := by
  unfold finishLayer
  rw [ensures_bind, ensures_get]
  dsimp only
  refine ensures_ite_bind
    (fun after => Kept start after ∧ after.subgraph = state.subgraph ∧
      if updatePrecisions && !state.graph.isKind layer .fakeQuantize then
        state.graph.contains layer = true ∧
          state.graph.Declares layer (GraphRevision.declaring precision) after.graph
      else after.graph = state.graph)
    (fun declared => ?_) (fun declared => ?_) fun after finished => ?_
  · rw [ensures_onGraph]
    have ensures : (GraphRevision.setPrecision layer precision).Ensures state.graph
        state.graph.Evolves fun _ after => state.graph.Evolves after ∧
          state.graph.contains layer = true ∧
            state.graph.Declares layer (GraphRevision.declaring precision) after :=
      GraphRevision.ensures_setPrecision kept.wellFormed .refl unfixed
        fun after live declares evolves => ⟨evolves, live, declares⟩
    refine ensures.mono (fun _ evolves => kept.evolves.trans evolves) ?_
    rintro _ after ⟨evolves, live, declares⟩
    rw [if_pos declared]
    exact ⟨⟨declares.wellFormed, kept.evolves.trans evolves, fun member listed =>
      evolves.unfixed (kept.unfixed member listed)⟩, rfl, live, declares⟩
  · rw [if_neg declared]
    exact ⟨kept, rfl, rfl⟩
  · obtain ⟨kept, subgraph_eq, outcome⟩ := finished
    rw [ensures_markHandled]
    refine ⟨⟨?_, ?_, ?_⟩, subgraph_eq, ?_⟩
    · simpa using kept.wellFormed
    · simpa using kept.evolves
    · simpa using kept.unfixed
    · simpa using outcome

variable [Scalar α]

theorem ensures_finish {cache : DequantizationCache α} {precision : ElementType}
    {updatePrecisions : Bool} (kept : Kept start state) :
    (finish cache precision updatePrecisions).Ensures state
      (fun after => start.Evolves after.graph) fun _ after => Kept start after ∧
        JointState.Finishes cache precision updatePrecisions state after := by
  unfold finish
  rw [ensures_bind, ensures_get]
  dsimp only
  rw [ensures_bind, ensures_onGraph]
  refine (GraphRevision.ensures_dequantizeLayers kept.wellFormed .refl).mono
    (fun _ evolves => kept.evolves.trans evolves) ?_
  rintro _ dequantized ⟨⟨wellFormed, evolves⟩, dequantizes⟩
  have unfixed (layer : NodeId) (member : layer ∈ state.subgraph.layers) :
      dequantized.Unfixed layer := evolves.unfixed (kept.unfixed layer member)
  have kept : Kept start { state with graph := dequantized } :=
    ⟨wellFormed, kept.evolves.trans evolves, unfixed⟩
  refine (ensures_forM_sequence
    (JointState.FinishesLayer precision updatePrecisions)
    (fun after : JointState α => Kept start after ∧ after.subgraph = state.subgraph)
    ⟨kept, rfl⟩ ?_).mono (fun _ bad => bad) ?_
  · rintro layer middle member ⟨kept, subgraph_eq⟩
    refine (ensures_finishLayer kept (kept.unfixed layer (subgraph_eq ▸ member))).mono
      (fun _ bad => bad) ?_
    rintro _ after ⟨kept, finishes⟩
    exact ⟨⟨kept, finishes.1.trans subgraph_eq⟩, finishes⟩
  · rintro _ after ⟨⟨kept, _⟩, finishes⟩
    exact ⟨kept, { state with graph := dequantized }, rfl, dequantizes, finishes⟩

end JointRevision

end QuantGraph
