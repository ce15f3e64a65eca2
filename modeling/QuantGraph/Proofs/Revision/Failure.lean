import QuantGraph.Dequantization.Move
import QuantGraph.Proofs.Evaluation.Derivation
import QuantGraph.Proofs.Graph.Usage
import QuantGraph.Proofs.Revision.Creation

/-! What a revision leaves when it gives up. As long as it has only added nodes, and removed some
that it had added, the graph that there was at first is still there, edge for edge and value for
value. -/

namespace QuantGraph

namespace Graph

variable {start graph after : Graph α} {id reader : NodeId} {draft : Draft α}

/-- The nodes of a graph are left as they were, and what is new is read by new nodes only. -/
structure LeavesIntact [Scalar α] (start after : Graph α) : Prop where
  node_eq : ∀ id, start.contains id = true → after.node? id = start.node? id
  incoming_eq : ∀ id, start.contains id = true → after.incoming id = start.incoming id
  reader_new : ∀ source reader, start.contains source = false → after.Reads source reader →
    start.contains reader = false ∧ after.contains reader = true
  hasValue_iff : ∀ feeds id value, start.contains id = true →
    (after.HasValue feeds id value ↔ start.HasValue feeds id value)
  values_eq : ∀ feeds values values', start.evaluate feeds = .ok values →
    after.evaluate feeds = .ok values' → ∀ id, start.contains id = true → values' id = values id

/-- Nodes have been added, and the bookkeeping is in order. -/
structure GrowsSoundly (start graph : Graph α) : Prop where
  consistent : graph.IsConsistent
  grows : start.Grows graph

namespace GrowsSoundly

theorem refl (consistent : graph.IsConsistent) : graph.GrowsSoundly graph :=
  ⟨consistent, .refl graph⟩

theorem fresh_nextId (sound : start.GrowsSoundly graph) :
    start.contains graph.nextId = false := by
  refine Bool.eq_false_iff.mpr fun live => ?_
  have dead := contains_nextId sound.consistent
  rw [sound.grows.live live] at dead
  cases dead

theorem add (sound : start.GrowsSoundly graph) (added : graph.add draft = .ok (id, after)) :
    start.GrowsSoundly after ∧ start.contains id = false := by
  obtain ⟨live, _, _, rfl, rfl⟩ := add_eq_ok added
  exact ⟨⟨isConsistent_insert sound.consistent live,
    sound.grows.trans (grows_insert sound.consistent)⟩, sound.fresh_nextId⟩

theorem modify {change : Node α → Node α} (sound : start.GrowsSoundly graph)
    (fresh : start.contains id = false)
    (redeclared : ∀ node, IsRedeclared node (change node)) :
    start.GrowsSoundly (graph.modify id change) := by
  refine ⟨isConsistent_modify sound.consistent redeclared, fun other live => ?_, ?_⟩
  · rw [node?_modify, if_neg (ne_of_contains live fresh)]
    exact sound.grows.node_eq other live
  · rw [edges_modify]
    exact sound.grows.edges_eq

theorem leavesIntact [Scalar α] (sound : start.GrowsSoundly after)
    (consistent : start.IsConsistent) : start.LeavesIntact after := by
  have hasValue {feeds : Assignment α} {id : NodeId} {value : NDArray α}
      (live : start.contains id = true) :
      after.HasValue feeds id value ↔ start.HasValue feeds id value := by
    refine ⟨fun has => ?_, fun has => sound.grows.hasValue consistent has⟩
    refine has.congr (fun id => start.contains id = true) ?_ ?_ live
    · exact fun id live => ⟨(sound.grows.node_eq id live).symm, (sound.grows.inputs_eq live).symm⟩
    · intro id live output member
      rw [sound.grows.inputs_eq live] at member
      exact (consistent.reads_live (reads_of_mem_inputs member)).1
  refine
    { node_eq := sound.grows.node_eq
      incoming_eq := fun id live => sound.grows.incoming_eq live
      reader_new := ?_
      hasValue_iff := fun feeds id value live => hasValue live
      values_eq := ?_ }
  · intro source reader new reads
    refine ⟨Bool.eq_false_iff.mpr fun live => ?_, (sound.consistent.reads_live reads).2⟩
    have old := (consistent.reads_live ((sound.grows.reads_iff live).mp reads)).1
    rw [new] at old
    cases old
  · intro feeds values values' evaluated evaluated' id live
    obtain ⟨value, isValue, _⟩ := evaluateNode_of_evaluate evaluated live
    have has := (hasValue live).mpr (hasValue_of_evaluate evaluated isValue)
    rw [isValue, has.value_eq evaluated']

end GrowsSoundly

/-! ## Removing what is new -/

/-- What new nodes read of the old ones, an old node reads as well. -/
def SharesReads (start graph : Graph α) : Prop :=
  ∀ source reader, start.contains source = true → start.contains reader = false →
    graph.Reads source reader → ∃ other, start.Reads source other

theorem SharesReads.refl (graph : Graph α) : graph.SharesReads graph := by
  intro source reader _ new reads
  exact ⟨reader, reads⟩

theorem SharesReads.add (shares : start.SharesReads graph)
    (added : graph.add draft = .ok (id, after))
    (old : ∀ connection ∈ draft.connections, start.contains connection.source.node = true →
      ∃ other, start.Reads connection.source.node other) : start.SharesReads after := by
  obtain ⟨_, _, _, rfl, rfl⟩ := add_eq_ok added
  rintro source reader live new ⟨edge, member, rfl, rfl⟩
  rw [edges_insert, List.mem_append, mem_draftEdges] at member
  rcases member with ⟨_, member⟩ | member
  · exact old _ member live
  · exact shares _ _ live new ⟨edge, member, rfl, rfl⟩

/-- A removal that starts at a new node stops at the old ones: those that are asked for are still
read. -/
private theorem grows_pruneAll (consistent : start.IsConsistent) (stack removed : List NodeId)
    (graph : Graph α) (grows : start.Grows graph) (shares : start.SharesReads graph)
    (read : ∀ id ∈ stack, start.contains id = true → ∃ other, start.Reads id other) :
    start.Grows (graph.pruneAll stack removed).2 := by
  induction graph, stack, removed using Graph.pruneAll.induct with
  | case1 graph removed =>
      rw [Graph.pruneAll]
      exact grows
  | case2 graph removed id rest dead induction =>
      have live := contains_of_isDead dead
      have fresh : start.contains id = false := by
        refine Bool.eq_false_iff.mpr fun old => ?_
        obtain ⟨other, edge, member, source, _⟩ := read id List.mem_cons_self old
        exact source_ne_of_isDead dead (grows.mem_edges member) source
      rw [Graph.pruneAll, dif_pos dead]
      refine induction (grows.erase_of_fresh consistent live fresh) ?_ ?_
      · rintro source reader old new ⟨edge, member, rfl, rfl⟩
        rw [edges_erase live, List.mem_filter] at member
        exact shares _ _ old new ⟨edge, member.1, rfl, rfl⟩
      · intro other member old
        rcases List.mem_append.mp member with member | member
        · rw [List.mem_reverse, producers, List.mem_map] at member
          obtain ⟨edge, entering, rfl⟩ := member
          obtain ⟨kept, target⟩ := mem_incoming.mp entering
          exact shares _ id old fresh ⟨edge, kept, rfl, target⟩
        · exact read other (List.mem_cons_of_mem id member) old
  | case3 graph removed id rest alive induction =>
      rw [Graph.pruneAll, dif_neg alive]
      exact induction grows shares fun other member => read other (List.mem_cons_of_mem id member)

theorem GrowsSoundly.prune (sound : start.GrowsSoundly graph) (consistent : start.IsConsistent)
    (shares : start.SharesReads graph) (fresh : start.contains id = false) :
    start.GrowsSoundly (graph.prune id).2 := by
  refine ⟨(sheds_prune sound.consistent id).consistent,
    grows_pruneAll consistent [id] [] graph sound.grows shares fun other member old => ?_⟩
  rw [List.mem_singleton.mp member, fresh] at old
  cases old

end Graph

namespace GraphRevision

open QuantGraph.Graph Revision

variable {start graph : Graph α} {id : NodeId}

/-- When the revision gives up, the nodes that there were are left as they were. -/
def FailsIntact [Scalar α] (revision : GraphRevision α β) (graph : Graph α) : Prop :=
  ∀ error after, revision.runOn graph = (.error error, after) → graph.LeavesIntact after

theorem failsIntact_of_ensures [Scalar α] {revision : GraphRevision α β}
    (consistent : graph.IsConsistent)
    (ensures : revision.Ensures graph graph.GrowsSoundly fun _ _ => True) :
    FailsIntact revision graph :=
  fun _ _ ran => (ensures.of_runOn_error ran).leavesIntact consistent

/-! ## Steps that only add -/

section Steps

variable (sound : start.GrowsSoundly graph)

include sound

theorem ensures_add_sound {draft : Draft α} {done : NodeId → Graph α → Prop}
    (ok : ∀ id after, graph.add draft = .ok (id, after) → start.GrowsSoundly after →
      start.contains id = false → done id after) :
    (GraphRevision.add draft).Ensures graph start.GrowsSoundly done := by
  refine ensures_extend.mpr ?_
  cases added : graph.add draft with
  | error => exact sound
  | ok result => exact ok _ _ added (sound.add added).1 (sound.add added).2

theorem ensures_addConstant_sound {tensor : Tensor α} {name : String}
    {done : NodeId → Graph α → Prop}
    (ok : ∀ id after, graph.add ((Op.constant tensor).draft name) = .ok (id, after) →
      start.GrowsSoundly after → start.contains id = false → done id after) :
    (GraphRevision.addConstant tensor name).Ensures graph start.GrowsSoundly done :=
  ensures_add_sound sound ok

theorem ensures_addCopy_sound {outputs : List Output} {done : NodeId → Graph α → Prop}
    (ok : ∀ copy after, graph.contains id = true → start.GrowsSoundly after →
      start.contains copy = false → done copy after) :
    (GraphRevision.addCopy id outputs).Ensures graph start.GrowsSoundly done := by
  refine ensures_extend.mpr ?_
  unfold Graph.addCopy
  cases found : graph.node? id with
  | none => exact sound
  | some node =>
      dsimp only
      cases added : graph.add (copyDraft node outputs) with
      | error => exact sound
      | ok result =>
          exact ok _ _ (contains_of_node? found) (sound.add added).1 (sound.add added).2

theorem ensures_setPrecision_sound {precision : ElementType} {done : PUnit → Graph α → Prop}
    (fresh : start.contains id = false)
    (ok : ∀ after, start.GrowsSoundly after → done PUnit.unit after) :
    (GraphRevision.setPrecision id precision).Ensures graph start.GrowsSoundly done := by
  refine ensures_change.mpr ?_
  unfold Graph.setPrecision
  by_cases live : graph.contains id = true
  · rw [if_pos live]
    exact ok _ (sound.modify fresh (isRedeclared_declaring precision))
  · rw [if_neg live]
    exact sound

theorem ensures_overridePrecision_sound {precision : ElementType}
    {done : PUnit → Graph α → Prop} (fresh : start.contains id = false)
    (ok : ∀ after, start.GrowsSoundly after → done PUnit.unit after) :
    (GraphRevision.overridePrecision id precision).Ensures graph start.GrowsSoundly done := by
  refine ensures_change.mpr ?_
  unfold Graph.overridePrecision
  cases graph.node? id with
  | none => exact sound
  | some node =>
      by_cases relaxed : node.relaxed = true
      · simp only [relaxed, if_true]
        exact ok _ (sound.modify fresh fun node => ⟨rfl, rfl, rfl, rfl⟩)
      · simp only [relaxed, Bool.false_eq_true, if_false]
        exact sound

/-- A replacement that is refused changes nothing. -/
theorem ensures_replace_sound {old new : NodeId} {done : PUnit → Graph α → Prop}
    (ok : ∀ after, graph.replace old new = .ok after → done PUnit.unit after) :
    (GraphRevision.replace old new).Ensures graph start.GrowsSoundly done := by
  refine ensures_change.mpr ?_
  cases replaced : graph.replace old new with
  | error => exact sound
  | ok after => exact ok after replaced

end Steps

end GraphRevision

end QuantGraph
