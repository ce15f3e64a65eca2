import QuantGraph.Proofs.Graph.WellFormed

/-! Adding a node. The new node takes a fresh index, reads what its draft reads,
and is read by nothing; everything else stays as it was. -/

namespace QuantGraph

namespace StableSort

theorem sortBy_of_pairwise {key : β → Nat} {entries : List β}
    (sorted : entries.Pairwise fun left right => key left ≤ key right) :
    sortBy key entries = entries := by
  induction entries with
  | nil => rfl
  | cons head tail induction =>
      have parts := List.pairwise_cons.mp sorted
      change insertBy key head (sortBy key tail) = head :: tail
      rw [induction parts.2]
      cases tail with
      | nil => rfl
      | cons next rest => rw [insertBy, if_pos (parts.1 next List.mem_cons_self)]

end StableSort

namespace Draft

/-- A draft reads outputs on the slots from zero on, of which there are enough. -/
structure ReadsInOrder (draft : Draft α) (outputs : List Output) : Prop where
  connections_eq : draft.connections =
    outputs.zipIdx.map fun entry => { source := entry.1, inputSlot := UInt8.ofNat entry.2 }
  length_le : outputs.length ≤ 256

namespace ReadsInOrder

variable {draft : Draft α} {outputs : List Output}

theorem mem_connections (reads : draft.ReadsInOrder outputs) {connection : Connection} :
    connection ∈ draft.connections ↔
      outputs[connection.inputSlot.toNat]? = some connection.source := by
  rw [reads.connections_eq, List.mem_map]
  constructor
  · rintro ⟨⟨output, position⟩, member, rfl⟩
    have found := List.mem_zipIdx_iff_getElem?.mp member
    have inside := (List.getElem?_eq_some_iff.mp found).1
    have bound := reads.length_le
    have position_eq : (UInt8.ofNat position).toNat = position := by
      rw [UInt8.toNat_ofNat']
      exact Nat.mod_eq_of_lt (by omega)
    simpa [position_eq] using found
  · intro found
    refine ⟨(connection.source, connection.inputSlot.toNat),
      List.mem_zipIdx_iff_getElem?.mpr found, ?_⟩
    simp

theorem map_slots (reads : draft.ReadsInOrder outputs) :
    draft.connections.map (fun connection => connection.inputSlot.toNat) =
      List.range draft.connections.length := by
  have bound := reads.length_le
  rw [reads.connections_eq, List.map_map]
  apply List.ext_getElem
  · simp
  · intro position inside _
    simp only [List.length_map, List.length_zipIdx] at inside
    simp only [List.getElem_map, List.getElem_zipIdx, Function.comp_apply, List.getElem_range]
    rw [UInt8.toNat_ofNat', Nat.zero_add]
    exact Nat.mod_eq_of_lt (by omega)

end ReadsInOrder

theorem readOutputs_eq (draft : Draft α) (outputs : List Output) :
    draft.readOutputs outputs =
      { draft with
        connections := draft.connections ++ outputs.zipIdx.map fun entry =>
          { source := entry.1, inputSlot := UInt8.ofNat entry.2 } } := by
  have general : ∀ (entries : List (Output × Nat)) (start : Draft α),
      entries.foldl (fun (draft : Draft α) (entry : Output × Nat) =>
        draft.input entry.1 (UInt8.ofNat entry.2)) start =
        { start with
          connections := start.connections ++ entries.map fun entry =>
            { source := entry.1, inputSlot := UInt8.ofNat entry.2 } } := by
    intro entries
    induction entries with
    | nil => simp
    | cons head tail induction =>
        intro start
        rw [List.foldl_cons, induction]
        simp [input]
  exact general outputs.zipIdx draft

theorem readOutputs_readsInOrder (draft : Draft α) (outputs : List Output)
    (empty : draft.connections = []) (bound : outputs.length ≤ 256) :
    (draft.readOutputs outputs).ReadsInOrder outputs := by
  refine ⟨?_, bound⟩
  rw [readOutputs_eq, empty, List.nil_append]

end Draft

namespace Graph

/-- The node that a draft becomes when its output is known. -/
def draftNode (graph : Graph α) (draft : Draft α) (output : ValueType) : Node α where
  name :=
    if draft.name = "" then draft.op.kind.name ++ "_" ++ toString graph.nextUid
    else draft.name
  op := draft.op
  outputType := output.elementType
  shape := output.shape
  relaxed := draft.relaxed
  precision := draft.precision
  uid := graph.nextUid

/-- The edges of a drafted node, the newest first. -/
def draftEdges (draft : Draft α) (id : NodeId) : List Edge :=
  ((orderedConnections draft).map fun connection =>
    { source := connection.source, target := id, inputSlot := connection.inputSlot }).reverse

variable {graph : Graph α} {draft : Draft α} {output : ValueType}

theorem foldl_connect (connections : List Connection) (id : NodeId) (graph : Graph α) :
    connections.foldl (fun graph connection =>
      graph.connect
        { source := connection.source, target := id, inputSlot := connection.inputSlot }) graph =
      { graph with
        edges := (connections.map fun connection =>
          ({ source := connection.source, target := id
             inputSlot := connection.inputSlot } : Edge)).reverse ++ graph.edges } := by
  induction connections generalizing graph with
  | nil => rfl
  | cons head tail induction =>
      rw [List.foldl_cons, induction]
      simp [connect]

theorem insert_eq (graph : Graph α) (draft : Draft α) (output : ValueType) :
    graph.insert draft output =
      (graph.nextId,
        { graph.place (graph.draftNode draft output) with
          nextUid := graph.nextUid + 1
          edges := draftEdges draft graph.nextId ++ graph.edges }) := by
  have edges_place : (graph.place (graph.draftNode draft output)).edges = graph.edges := by
    unfold place
    split <;> rfl
  unfold insert
  dsimp only
  rw [foldl_connect]
  simp only [draftEdges, draftNode] at edges_place ⊢
  rw [edges_place]

theorem node?_place (consistent : graph.IsConsistent) (node : Node α) (other : NodeId) :
    (graph.place node).node? other =
      if other = graph.nextId then some node else graph.node? other := by
  have index_ne {left right : NodeId} (different : left ≠ right) : left.index ≠ right.index :=
    fun same => different (by cases left; cases right; exact congrArg NodeId.mk same)
  unfold place nextId
  split
  case h_1 id rest vacant =>
    have inside := consistent.vacant_inside id (vacant ▸ List.mem_cons_self)
    by_cases equal : other = id
    · subst equal
      simp [node?, inside]
    · simp [node?, equal, (index_ne equal).symm]
  case h_2 vacant =>
    by_cases equal : other.index = graph.nodes.size
    · have same : other = { index := graph.nodes.size } := by
        cases other
        exact congrArg NodeId.mk equal
      simp [node?, same]
    · have different : other ≠ { index := graph.nodes.size } := fun same =>
        equal (congrArg NodeId.index same)
      simp [node?, Array.getElem?_push, equal, different]

theorem node?_insert (consistent : graph.IsConsistent) (other : NodeId) :
    (graph.insert draft output).2.node? other =
      if other = graph.nextId then some (graph.draftNode draft output)
      else graph.node? other := by
  rw [insert_eq]
  exact node?_place consistent _ other

theorem edges_insert (graph : Graph α) (draft : Draft α) (output : ValueType) :
    (graph.insert draft output).2.edges = draftEdges draft graph.nextId ++ graph.edges := by
  rw [insert_eq]

theorem mem_draftEdges {id : NodeId} {edge : Edge} :
    edge ∈ draftEdges draft id ↔
      edge.target = id ∧ ⟨edge.source, edge.inputSlot⟩ ∈ draft.connections := by
  simp only [draftEdges, List.mem_reverse, List.mem_map, orderedConnections,
    StableSort.mem_sortBy]
  constructor
  · rintro ⟨connection, member, rfl⟩
    exact ⟨rfl, member⟩
  · rintro ⟨target, member⟩
    exact ⟨_, member, by cases edge; cases target; rfl⟩

/-! ## What stays as it was -/

/-- Nodes may have been added, and none of those there were before reads one. -/
structure Grows (before after : Graph α) : Prop where
  node_eq : ∀ id, before.contains id = true → after.node? id = before.node? id
  edges_eq : ∃ added, after.edges = added ++ before.edges ∧
    ∀ edge ∈ added, before.contains edge.target = false

namespace Grows

variable {before middle after : Graph α}

theorem refl (graph : Graph α) : graph.Grows graph :=
  ⟨fun _ _ => rfl, [], rfl, by simp⟩

theorem live (grows : before.Grows after) {id : NodeId} (live : before.contains id = true) :
    after.contains id = true :=
  (contains_congr (grows.node_eq id live)).trans live

theorem trans (left : before.Grows middle) (right : middle.Grows after) : before.Grows after := by
  refine ⟨fun id live => (right.node_eq id (left.live live)).trans (left.node_eq id live), ?_⟩
  obtain ⟨first, edges_first, fresh_first⟩ := left.edges_eq
  obtain ⟨second, edges_second, fresh_second⟩ := right.edges_eq
  refine ⟨second ++ first, by rw [edges_second, edges_first, List.append_assoc], ?_⟩
  intro edge member
  rcases List.mem_append.mp member with member | member
  · refine Bool.eq_false_iff.mpr fun live => ?_
    exact Bool.eq_false_iff.mp (fresh_second edge member) (left.live live)
  · exact fresh_first edge member

theorem mem_edges (grows : before.Grows after) {edge : Edge} (member : edge ∈ before.edges) :
    edge ∈ after.edges := by
  obtain ⟨added, edges, _⟩ := grows.edges_eq
  rw [edges]
  exact List.mem_append_right added member

theorem incoming_eq (grows : before.Grows after) {id : NodeId}
    (live : before.contains id = true) : after.incoming id = before.incoming id := by
  obtain ⟨added, edges, fresh⟩ := grows.edges_eq
  have none_added : added.filter (fun edge => decide (edge.target = id)) = [] := by
    refine List.filter_eq_nil_iff.mpr fun edge member => ?_
    have dead := fresh edge member
    intro target
    rw [of_decide_eq_true target, live] at dead
    cases dead
  rw [incoming, incoming, edges, List.filter_append, none_added, List.nil_append]

theorem inputs_eq (grows : before.Grows after) {id : NodeId}
    (live : before.contains id = true) : after.inputs id = before.inputs id := by
  rw [inputs, inputs, grows.incoming_eq live]

theorem input?_eq (grows : before.Grows after) {id : NodeId}
    (live : before.contains id = true) (slot : Nat) :
    after.input? id slot = before.input? id slot := by
  rw [input?, input?, grows.incoming_eq live]

theorem reads_iff (grows : before.Grows after) {source reader : NodeId}
    (live : before.contains reader = true) :
    after.Reads source reader ↔ before.Reads source reader := by
  rw [reads_iff_mem_inputs, reads_iff_mem_inputs, grows.inputs_eq live]

/-- No path between nodes there were before leads through an added one. -/
theorem reaches_iff (grows : before.Grows after) (consistent : before.IsConsistent)
    {source reader : NodeId} (live : before.contains reader = true) :
    after.Reaches source reader ↔ before.Reaches source reader := by
  constructor
  · intro reaches
    induction reaches using Relation.ReflTransGen.head_induction_on with
    | refl => exact Relation.ReflTransGen.refl
    | head reads _ induction =>
        have inner_live : ∀ {node : NodeId}, after.Reaches node reader →
            before.contains node = true := by
          intro node reaches
          induction reaches using Relation.ReflTransGen.head_induction_on with
          | refl => exact live
          | head reads _ induction =>
              exact (consistent.reads_live ((grows.reads_iff induction).mp reads)).1
        exact Relation.ReflTransGen.head ((grows.reads_iff (inner_live ‹_›)).mp reads) induction
  · exact Reaches.mono fun _ member => grows.mem_edges member

end Grows

/-! ## The graph with the new node -/

theorem contains_insert (consistent : graph.IsConsistent) (other : NodeId) :
    (graph.insert draft output).2.contains other =
      (decide (other = graph.nextId) || graph.contains other) := by
  unfold contains
  rw [node?_insert consistent]
  by_cases equal : other = graph.nextId <;> simp [equal]

theorem grows_insert (consistent : graph.IsConsistent) :
    graph.Grows (graph.insert draft output).2 := by
  have fresh := contains_nextId consistent
  refine ⟨fun id live => ?_, draftEdges draft graph.nextId, edges_insert graph draft output, ?_⟩
  · rw [node?_insert consistent, if_neg (ne_of_contains live fresh)]
  · intro edge member
    rw [(mem_draftEdges.mp member).1]
    exact fresh

theorem vacant_insert (graph : Graph α) (draft : Draft α) (output : ValueType) :
    (graph.insert draft output).2.vacant = graph.vacant.tail := by
  rw [insert_eq]
  unfold place
  split
  case h_1 id rest vacant => simp [vacant]
  case h_2 vacant => simp [vacant]

theorem size_nodes_insert (graph : Graph α) (draft : Draft α) (output : ValueType) :
    graph.nodes.size ≤ (graph.insert draft output).2.nodes.size := by
  rw [insert_eq]
  unfold place
  split <;> simp

theorem uid?_insert (consistent : graph.IsConsistent) (other : NodeId) :
    (graph.insert draft output).2.uid? other =
      if other = graph.nextId then some graph.nextUid else graph.uid? other := by
  unfold uid?
  rw [node?_insert consistent]
  by_cases equal : other = graph.nextId <;> simp [equal, draftNode]

theorem isConsistent_insert (consistent : graph.IsConsistent)
    (live : ∀ connection ∈ draft.connections, graph.contains connection.source.node = true) :
    (graph.insert draft output).2.IsConsistent where
  source_live := by
    intro edge member
    rw [contains_insert consistent, Bool.or_eq_true]
    rw [edges_insert, List.mem_append, mem_draftEdges] at member
    rcases member with ⟨_, member⟩ | member
    · exact Or.inr (live _ member)
    · exact Or.inr (consistent.source_live edge member)
  target_live := by
    intro edge member
    rw [contains_insert consistent, Bool.or_eq_true, decide_eq_true_iff]
    rw [edges_insert, List.mem_append, mem_draftEdges] at member
    rcases member with ⟨target, _⟩ | member
    · exact Or.inl target
    · exact Or.inr (consistent.target_live edge member)
  vacant_dead := by
    intro id member
    rw [vacant_insert] at member
    rw [contains_insert consistent, consistent.vacant_dead id (List.mem_of_mem_tail member)]
    simp only [Bool.or_false, decide_eq_false_iff_not]
    rintro rfl
    have nodup := consistent.vacant_nodup
    unfold nextId at member
    split at member
    case h_1 id rest vacant =>
      rw [vacant] at nodup member
      exact (List.nodup_cons.mp nodup).1 member
    case h_2 vacant => simp [vacant] at member
  vacant_inside := by
    intro id member
    rw [vacant_insert] at member
    exact Nat.lt_of_lt_of_le (consistent.vacant_inside id (List.mem_of_mem_tail member))
      (size_nodes_insert graph draft output)
  vacant_nodup := by
    rw [vacant_insert]
    exact consistent.vacant_nodup.tail
  uid_lt := by
    intro id uid found
    have next : (graph.insert draft output).2.nextUid = graph.nextUid + 1 := by rw [insert_eq]
    rw [uid?_insert consistent] at found
    rw [next]
    split at found
    · exact Option.some.inj found ▸ Nat.lt_succ_self _
    · exact Nat.lt_succ_of_lt (consistent.uid_lt id uid found)
  uid_unique := by
    intro left right uid leftFound rightFound
    rw [uid?_insert consistent] at leftFound rightFound
    split at leftFound <;> split at rightFound
    · exact ‹left = _›.trans ‹right = _›.symm
    · cases leftFound
      exact absurd (consistent.uid_lt right _ rightFound) (Nat.lt_irrefl _)
    · cases rightFound
      exact absurd (consistent.uid_lt left _ leftFound) (Nat.lt_irrefl _)
    · exact consistent.uid_unique left right uid leftFound rightFound

end Graph

end QuantGraph
