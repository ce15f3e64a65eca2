import QuantGraph.Proofs.Graph.Growth

/-! What is known about a graph after a node has been added to it. -/

namespace QuantGraph

namespace Graph

variable {graph : Graph α} {draft : Draft α} {outputs : List Output} {output : ValueType}

theorem incoming_insert_nextId (consistent : graph.IsConsistent) :
    (graph.insert draft output).2.incoming graph.nextId = draftEdges draft graph.nextId := by
  have all_new : (draftEdges draft graph.nextId).filter
      (fun edge => decide (edge.target = graph.nextId)) = draftEdges draft graph.nextId := by
    refine List.filter_eq_self.mpr fun edge member => ?_
    simp [(mem_draftEdges.mp member).1]
  have none_old := consistent.incoming_eq_nil (contains_nextId consistent)
  unfold incoming at none_old ⊢
  rw [edges_insert, List.filter_append, all_new, none_old, List.append_nil]

private theorem hasExactSlots_insert_nextId (consistent : graph.IsConsistent)
    (reads : draft.ReadsInOrder outputs) :
    (graph.insert draft output).2.HasExactSlots graph.nextId := by
  unfold HasExactSlots inputCount
  rw [incoming_insert_nextId consistent]
  unfold draftEdges orderedConnections
  simp only [List.map_reverse, List.map_map, List.length_reverse, List.length_map,
    StableSort.length_sortBy]
  refine (List.reverse_perm _).trans ?_
  rw [← reads.map_slots]
  exact (StableSort.sortBy_perm _ draft.connections).map _

private theorem inputs_insert_nextId (consistent : graph.IsConsistent)
    (reads : draft.ReadsInOrder outputs) :
    (graph.insert draft output).2.inputs graph.nextId = outputs := by
  apply List.ext_getElem?
  intro slot
  apply Option.ext
  intro source
  rw [(hasExactSlots_insert_nextId consistent reads).getElem?_inputs]
  have all_new {edge : Edge} : (edge ∈ (graph.insert draft output).2.edges ∧
      edge.target = graph.nextId) ↔ edge ∈ draftEdges draft graph.nextId := by
    rw [← mem_incoming, incoming_insert_nextId consistent]
  constructor
  · rintro ⟨edge, member, rfl, target, rfl⟩
    exact reads.mem_connections.mp (mem_draftEdges.mp (all_new.mp ⟨member, target⟩)).2
  · intro found
    have bound := reads.length_le
    have inside := (List.getElem?_eq_some_iff.mp found).1
    have slot_eq : (UInt8.ofNat slot).toNat = slot := by
      rw [UInt8.toNat_ofNat']
      exact Nat.mod_eq_of_lt (by omega)
    have connection : (⟨source, UInt8.ofNat slot⟩ : Connection) ∈ draft.connections :=
      reads.mem_connections.mpr (by rw [slot_eq]; exact found)
    have entry : (⟨source, graph.nextId, UInt8.ofNat slot⟩ : Edge) ∈
        draftEdges draft graph.nextId := mem_draftEdges.mpr ⟨rfl, connection⟩
    have member := all_new.mpr entry
    exact ⟨_, member.1, rfl, rfl, slot_eq⟩

/-- A node can be added when its sources are there and its type is known. -/
theorem add_eq_ok {id : NodeId} {after : Graph α} (added : graph.add draft = .ok (id, after)) :
    (∀ connection ∈ draft.connections, graph.contains connection.source.node = true) ∧
      ∃ type, graph.draftedType draft = .ok type ∧ id = graph.nextId ∧
        after = (graph.insert draft type).2 := by
  unfold add at added
  split at added
  case h_1 => cases added
  case h_2 none_missing =>
    constructor
    · intro connection member
      have present := List.find?_eq_none.mp none_missing connection
        (StableSort.mem_sortBy.mpr member)
      simpa using present
    · cases drafted : graph.draftedType draft with
      | error => rw [drafted] at added; cases added
      | ok type =>
          rw [drafted] at added
          have inserted : graph.insert draft type = (id, after) := Except.ok.inj added
          have id_eq := congrArg Prod.fst inserted
          rw [insert_eq] at id_eq
          exact ⟨type, rfl, id_eq.symm, (congrArg Prod.snd inserted).symm⟩

/-- A graph with one node more, which was drafted and reads the given outputs. Of the other
nodes, only the bookkeeping need be in order. -/
structure Gains (before : Graph α) (draft : Draft α) (outputs : List Output) (id : NodeId)
    (after : Graph α) : Prop where
  fresh : before.contains id = false
  sources_live : ∀ output ∈ outputs, before.contains output.node = true
  node_new : ∃ type, before.draftedType draft = .ok type ∧
    after.node? id = some (before.draftNode draft type)
  node_old : ∀ other, other ≠ id → after.node? other = before.node? other
  inputs_new : after.inputs id = outputs
  exact_new : after.HasExactSlots id
  grows : before.Grows after
  consistent : after.IsConsistent

theorem gains_of_add (consistent : graph.IsConsistent) (reads : draft.ReadsInOrder outputs)
    {id : NodeId} {after : Graph α} (added : graph.add draft = .ok (id, after)) :
    graph.Gains draft outputs id after := by
  obtain ⟨live, type, drafted, rfl, rfl⟩ := add_eq_ok added
  exact
    { fresh := contains_nextId consistent
      sources_live := by
        intro output member
        obtain ⟨slot, found⟩ := List.mem_iff_getElem?.mp member
        have inside := (List.getElem?_eq_some_iff.mp found).1
        have bound := reads.length_le
        have slot_eq : (UInt8.ofNat slot).toNat = slot := by
          rw [UInt8.toNat_ofNat']
          exact Nat.mod_eq_of_lt (by omega)
        exact live ⟨output, UInt8.ofNat slot⟩
          (reads.mem_connections.mpr (by rw [slot_eq]; exact found))
      node_new := ⟨type, drafted, by rw [node?_insert consistent, if_pos rfl]⟩
      node_old := by
        intro other different
        rw [node?_insert consistent, if_neg different]
      inputs_new := inputs_insert_nextId consistent reads
      exact_new := hasExactSlots_insert_nextId consistent reads
      grows := grows_insert consistent
      consistent := isConsistent_insert consistent live }

namespace Gains

variable {before after : Graph α} {id : NodeId}

theorem live (gains : before.Gains draft outputs id after) : after.contains id = true := by
  obtain ⟨type, _, found⟩ := gains.node_new
  exact contains_of_node? found

theorem op?_new (gains : before.Gains draft outputs id after) : after.op? id = some draft.op := by
  obtain ⟨type, _, present⟩ := gains.node_new
  rw [op?, present]
  rfl

theorem ne_of_live (gains : before.Gains draft outputs id after) {other : NodeId}
    (live : before.contains other = true) : other ≠ id :=
  ne_of_contains live gains.fresh

theorem contains_iff (gains : before.Gains draft outputs id after) {other : NodeId} :
    after.contains other = true ↔ other = id ∨ before.contains other = true := by
  by_cases equal : other = id
  · simp [equal, gains.live]
  · rw [contains_congr (gains.node_old other equal)]
    simp [equal]

/-- The edges into other nodes stay. -/
theorem incoming_old (gains : before.Gains draft outputs id after)
    (consistent : before.IsConsistent) {other : NodeId} (different : other ≠ id) :
    after.incoming other = before.incoming other := by
  by_cases old : before.contains other = true
  · exact gains.grows.incoming_eq old
  · have dead := Bool.not_eq_true _ ▸ old
    rw [consistent.incoming_eq_nil dead]
    exact gains.consistent.incoming_eq_nil
      ((contains_congr (gains.node_old other different)).trans dead)

theorem hasExactSlots (gains : before.Gains draft outputs id after)
    (consistent : before.IsConsistent) (exact : ∀ other, before.HasExactSlots other)
    (other : NodeId) : after.HasExactSlots other := by
  by_cases new : other = id
  · exact new ▸ gains.exact_new
  · unfold HasExactSlots inputCount
    rw [gains.incoming_old consistent new]
    exact exact other

theorem hasDistinctSlots (gains : before.Gains draft outputs id after)
    (consistent : before.IsConsistent) (distinct : ∀ other, before.HasDistinctSlots other)
    (other : NodeId) : after.HasDistinctSlots other := by
  by_cases new : other = id
  · exact new ▸ gains.exact_new.hasDistinctSlots
  · unfold HasDistinctSlots
    rw [gains.incoming_old consistent new]
    exact distinct other

theorem reads_old (gains : before.Gains draft outputs id after) {source reader : NodeId}
    (reads : after.Reads source reader) (different : reader ≠ id) : before.Reads source reader := by
  have live := (gains.consistent.reads_live reads).2
  exact (gains.grows.reads_iff ((gains.contains_iff.mp live).resolve_left different)).mp reads

/-- Nothing reads the new node. -/
theorem not_reads (gains : before.Gains draft outputs id after)
    (consistent : before.IsConsistent) (reader : NodeId) : ¬ after.Reads id reader := by
  intro reads
  by_cases new : reader = id
  · obtain ⟨output, member, isNew⟩ := reads_iff_mem_inputs.mp reads
    rw [new, gains.inputs_new] at member
    exact gains.ne_of_live (gains.sources_live output member) isNew
  · exact gains.ne_of_live (consistent.reads_live (gains.reads_old reads new)).1 rfl

/-- No path leads through the new node, which nothing reads. -/
theorem precedes_old (gains : before.Gains draft outputs id after)
    (consistent : before.IsConsistent) {source reader : NodeId}
    (precedes : after.Precedes source reader) (different : reader ≠ id) :
    before.Precedes source reader := by
  induction precedes with
  | single reads => exact Relation.TransGen.single (gains.reads_old reads different)
  | tail _ reads induction =>
      refine (induction fun isNew => ?_).tail (gains.reads_old reads different)
      exact gains.not_reads consistent _ (isNew ▸ reads)

theorem isAcyclic (gains : before.Gains draft outputs id after)
    (consistent : before.IsConsistent) (acyclic : before.IsAcyclic) : after.IsAcyclic := by
  intro other cycle
  obtain ⟨next, reads, _⟩ := Relation.TransGen.head'_iff.mp cycle
  have different : other ≠ id := fun isNew => gains.not_reads consistent next (isNew ▸ reads)
  exact acyclic other (gains.precedes_old consistent cycle different)

theorem wellFormed (gains : before.Gains draft outputs id after) (wellFormed : before.WellFormed) :
    after.WellFormed where
  consistent := gains.consistent
  exact := gains.hasExactSlots wellFormed.consistent wellFormed.exact
  acyclic := gains.isAcyclic wellFormed.consistent wellFormed.acyclic

end Gains

/-- A graph with one node more, which was drafted and reads the given outputs. -/
structure Adds (before : Graph α) (draft : Draft α) (outputs : List Output) (id : NodeId)
    (after : Graph α) : Prop where
  fresh : before.contains id = false
  sources_live : ∀ output ∈ outputs, before.contains output.node = true
  node_new : ∃ type, before.draftedType draft = .ok type ∧
    after.node? id = some (before.draftNode draft type)
  node_old : ∀ other, other ≠ id → after.node? other = before.node? other
  inputs_new : after.inputs id = outputs
  grows : before.Grows after
  wellFormed : after.WellFormed

namespace Adds

variable {before after : Graph α} {id : NodeId}

theorem gains (adds : before.Adds draft outputs id after) : before.Gains draft outputs id after where
  fresh := adds.fresh
  sources_live := adds.sources_live
  node_new := adds.node_new
  node_old := adds.node_old
  inputs_new := adds.inputs_new
  exact_new := adds.wellFormed.exact id
  grows := adds.grows
  consistent := adds.wellFormed.consistent

theorem live (adds : before.Adds draft outputs id after) : after.contains id = true :=
  adds.gains.live

theorem op?_new (adds : before.Adds draft outputs id after) : after.op? id = some draft.op :=
  adds.gains.op?_new

/-- A parameter is only added with a type that is declared. -/
theorem kind_ne_parameter (adds : before.Adds draft outputs id after)
    (undeclared : draft.declared = none) : draft.op.kind ≠ .parameter := by
  intro isParameter
  obtain ⟨type, drafted, _⟩ := adds.node_new
  have isOp : draft.op = .parameter := by
    cases equal : draft.op <;> rw [equal] at isParameter <;> cases isParameter
  rw [draftedType, undeclared, isOp] at drafted
  cases drafted

theorem ne_of_live (adds : before.Adds draft outputs id after) {other : NodeId}
    (live : before.contains other = true) : other ≠ id :=
  adds.gains.ne_of_live live

theorem contains_iff (adds : before.Adds draft outputs id after) {other : NodeId} :
    after.contains other = true ↔ other = id ∨ before.contains other = true :=
  adds.gains.contains_iff

theorem inputs_old (adds : before.Adds draft outputs id after) {other : NodeId}
    (live : before.contains other = true) : after.inputs other = before.inputs other :=
  adds.grows.inputs_eq live

end Adds

theorem adds_of_add (wellFormed : graph.WellFormed) (reads : draft.ReadsInOrder outputs)
    {id : NodeId} {after : Graph α} (added : graph.add draft = .ok (id, after)) :
    graph.Adds draft outputs id after := by
  have gains := gains_of_add wellFormed.consistent reads added
  exact
    { fresh := gains.fresh
      sources_live := gains.sources_live
      node_new := gains.node_new
      node_old := gains.node_old
      inputs_new := gains.inputs_new
      grows := gains.grows
      wellFormed := gains.wellFormed wellFormed }

end Graph

end QuantGraph
