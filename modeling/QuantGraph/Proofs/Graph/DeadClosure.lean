import Mathlib.Data.List.Nodup
import QuantGraph.Graph.Statistics
import QuantGraph.Proofs.Graph.Replacement

/-! Which nodes a removal takes: the least set that holds the node it starts at, if nothing reads
that, and with each of its members every producer that only members read. Cycles, nodes that are read
twice and producers that several members share make no difference. -/

namespace QuantGraph

namespace Graph

variable {before graph : Graph α} {start id other reader : NodeId}
  {stack rest removed gone : List NodeId} {condemned : NodeId → Prop}

/-! ## The dead closure -/

/-- What holds of the nodes that have to go when a removal starts at a node: the node itself goes
if nothing reads it, and so does each producer of a node that goes if it is read by no other ones.
Parameters and results stay. -/
structure Condemns (graph : Graph α) (start : NodeId) (condemned : NodeId → Prop) : Prop where
  start : graph.Removable start → (∀ reader, ¬ graph.Reads start reader) → condemned start
  producer : ∀ id reader, graph.Removable id → graph.Reads id reader → condemned reader →
    (∀ other, graph.Reads id other → condemned other) → condemned id

theorem Condemns.of_readers (condemns : graph.Condemns start condemned)
    (removable : graph.Removable id) (asked : id = start ∨ ∃ reader, graph.Reads id reader)
    (all : ∀ reader, graph.Reads id reader → condemned reader) : condemned id := by
  by_cases read : ∃ reader, graph.Reads id reader
  · obtain ⟨reader, reads⟩ := read
    exact condemns.producer id reader removable reads (all reader reads) all
  · obtain rfl := asked.resolve_right read
    exact condemns.start removable fun reader reads => read ⟨reader, reads⟩

/-! ## What is left -/

/-- A graph without some nodes. Their edges are gone and their indices are vacant, the last node
taken first; all else is as it was, in the same order. -/
structure Lacks (before : Graph α) (gone : List NodeId) (after : Graph α) : Prop where
  node_eq : ∀ id, after.node? id = if id ∈ gone then none else before.node? id
  edges_eq : after.edges =
    before.edges.filter fun edge => decide (edge.source.node ∉ gone ∧ edge.target ∉ gone)
  vacant_eq : after.vacant = gone ++ before.vacant
  nextUid_eq : after.nextUid = before.nextUid
  count_eq : after.nodeCount + gone.length = before.nodeCount

theorem nodup_nodeIds (graph : Graph α) : graph.nodeIds.Nodup := by
  refine List.Nodup.filter _ (List.Nodup.map ?_ List.nodup_range)
  intro left right equal
  exact congrArg NodeId.index equal

theorem nodeCount_erase (live : graph.contains id = true) :
    (graph.erase id).nodeCount + 1 = graph.nodeCount := by
  have member := mem_nodeIds.mpr live
  have erased : (graph.erase id).nodeIds = graph.nodeIds.erase id := by
    rw [nodeIds_erase, graph.nodup_nodeIds.erase_eq_filter]
    refine List.filter_congr fun other _ => ?_
    rw [decide_not, bne, beq_eq_decide]
  rw [nodeCount, nodeCount, erased, List.length_erase_of_mem member]
  exact Nat.sub_add_cancel (List.length_pos_of_mem member)

namespace Lacks

theorem refl (graph : Graph α) : graph.Lacks [] graph where
  node_eq := by simp
  edges_eq := by simp
  vacant_eq := rfl
  nextUid_eq := rfl
  count_eq := rfl

theorem not_mem_of_contains (lacks : before.Lacks gone graph) (live : graph.contains id = true) :
    id ∉ gone := by
  intro member
  rw [contains, lacks.node_eq, if_pos member] at live
  cases live

theorem mem_edges (lacks : before.Lacks gone graph) {edge : Edge} :
    edge ∈ graph.edges ↔ edge ∈ before.edges ∧ edge.source.node ∉ gone ∧ edge.target ∉ gone := by
  rw [lacks.edges_eq, List.mem_filter, decide_eq_true_iff]

theorem removable_iff (lacks : before.Lacks gone graph) :
    graph.Removable id ↔ id ∉ gone ∧ before.Removable id := by
  unfold Removable kind?
  rw [lacks.node_eq]
  by_cases member : id ∈ gone <;> simp [member]

theorem reads_iff (lacks : before.Lacks gone graph) :
    graph.Reads id reader ↔ before.Reads id reader ∧ id ∉ gone ∧ reader ∉ gone := by
  constructor
  · rintro ⟨edge, member, rfl, rfl⟩
    obtain ⟨earlier, stays⟩ := lacks.mem_edges.mp member
    exact ⟨⟨edge, earlier, rfl, rfl⟩, stays⟩
  · rintro ⟨⟨edge, earlier, rfl, rfl⟩, stays⟩
    exact ⟨edge, lacks.mem_edges.mpr ⟨earlier, stays⟩, rfl, rfl⟩

theorem erase (lacks : before.Lacks gone graph) (live : graph.contains id = true) :
    before.Lacks (id :: gone) (graph.erase id) where
  node_eq := by
    intro other
    rw [node?_erase, lacks.node_eq]
    by_cases equal : other = id <;> simp [equal]
  edges_eq := by
    rw [edges_erase live, lacks.edges_eq, List.filter_filter]
    refine List.filter_congr fun edge _ => ?_
    rw [← Bool.decide_and, decide_eq_decide, List.mem_cons, List.mem_cons]
    tauto
  vacant_eq := by
    rw [Graph.erase, if_pos live, lacks.vacant_eq, List.cons_append]
  nextUid_eq := by
    rw [Graph.erase, if_pos live, lacks.nextUid_eq]
  count_eq := by
    rw [← lacks.count_eq, ← nodeCount_erase live, List.length_cons]
    omega

end Lacks

theorem isDead_iff :
    graph.isDead id = true ↔ graph.Removable id ∧ ∀ reader, ¬ graph.Reads id reader := by
  constructor
  · intro dead
    obtain ⟨kind, found, unfixed, _⟩ := kind_of_isDead dead
    refine ⟨⟨kind, found, unfixed⟩, ?_⟩
    rintro reader ⟨edge, member, source, _⟩
    exact source_ne_of_isDead dead member source
  · rintro ⟨⟨kind, found, unfixed⟩, unread⟩
    exact isDead_of_not_reads found unfixed unread

/-! ## The removal -/

/-- What holds of a removal at any time. A node is looked at because the removal starts there or
because one of its readers is gone, and every such node that nothing reads is still to be looked
at. -/
structure Prunes (before : Graph α) (start : NodeId) (stack removed : List NodeId)
    (graph : Graph α) : Prop where
  lacks : before.Lacks removed graph
  nodup : removed.Nodup
  needed : ∀ condemned, before.Condemns start condemned → ∀ id ∈ removed, condemned id
  asked : ∀ id ∈ stack, id = start ∨ ∃ reader ∈ removed, before.Reads id reader
  pending : ∀ id, graph.isDead id = true →
    (id = start ∨ ∃ reader ∈ removed, before.Reads id reader) → id ∈ stack

namespace Prunes

theorem begin (graph : Graph α) (start : NodeId) : graph.Prunes start [start] [] graph where
  lacks := .refl graph
  nodup := List.nodup_nil
  needed := by simp
  asked := by simp
  pending := by simp

/-- A node that is read, or that stays in any case, is passed over. -/
theorem skip (prunes : before.Prunes start (id :: rest) removed graph)
    (alive : ¬ graph.isDead id = true) : before.Prunes start rest removed graph where
  lacks := prunes.lacks
  nodup := prunes.nodup
  needed := prunes.needed
  asked := fun other member => prunes.asked other (List.mem_cons_of_mem id member)
  pending := by
    intro other dead asked
    rcases List.mem_cons.mp (prunes.pending other dead asked) with rfl | member
    · exact absurd dead alive
    · exact member

/-- Every reader of a node that is taken is gone before it. -/
theorem mem_of_reads (prunes : before.Prunes start stack removed graph)
    (dead : graph.isDead id = true) (reads : before.Reads id reader) : reader ∈ removed := by
  by_contra stays
  have fresh := prunes.lacks.not_mem_of_contains (contains_of_isDead dead)
  exact (isDead_iff.mp dead).2 reader (prunes.lacks.reads_iff.mpr ⟨reads, fresh, stays⟩)

/-- A node that nothing reads is taken, and its producers are looked at next. -/
theorem take (prunes : before.Prunes start (id :: rest) removed graph)
    (dead : graph.isDead id = true) :
    before.Prunes start ((graph.producers id).reverse ++ rest) (id :: removed)
      (graph.erase id) where
  lacks := prunes.lacks.erase (contains_of_isDead dead)
  nodup := List.nodup_cons.mpr
    ⟨prunes.lacks.not_mem_of_contains (contains_of_isDead dead), prunes.nodup⟩
  needed := by
    intro condemned condemns other member
    rcases List.mem_cons.mp member with rfl | member
    · have removable := (prunes.lacks.removable_iff.mp (isDead_iff.mp dead).1).2
      refine condemns.of_readers removable ?_ fun reader reads =>
        prunes.needed condemned condemns reader (prunes.mem_of_reads dead reads)
      exact (prunes.asked other List.mem_cons_self).imp_right (Exists.imp fun _ => And.right)
    · exact prunes.needed condemned condemns other member
  asked := by
    intro other member
    rcases List.mem_append.mp member with producer | member
    · rw [List.mem_reverse, producers, List.mem_map] at producer
      obtain ⟨edge, entering, rfl⟩ := producer
      obtain ⟨present, target⟩ := mem_incoming.mp entering
      exact Or.inr ⟨id, List.mem_cons_self,
        edge, (prunes.lacks.mem_edges.mp present).1, rfl, target⟩
    · exact (prunes.asked other (List.mem_cons_of_mem id member)).imp_right
        (Exists.imp fun _ => And.imp_left (List.mem_cons_of_mem id))
  pending := by
    intro other left asked
    have lacks := prunes.lacks.erase (contains_of_isDead dead)
    have fresh := lacks.not_mem_of_contains (contains_of_isDead left)
    obtain ⟨different, outside⟩ := not_or.mp (mt List.mem_cons.mpr fresh)
    have removable := (lacks.removable_iff.mp (isDead_iff.mp left).1).2
    -- What loses its last reader only now was read by the node that goes.
    by_cases produces : graph.Reads other id
    · obtain ⟨edge, member, source, target⟩ := produces
      refine List.mem_append_left _ (List.mem_reverse.mpr (List.mem_map.mpr ⟨edge, ?_, source⟩))
      exact mem_incoming.mpr ⟨member, target⟩
    · have already : graph.isDead other = true := by
        refine isDead_iff.mpr ⟨prunes.lacks.removable_iff.mpr ⟨outside, removable⟩, ?_⟩
        intro reader reads
        obtain ⟨earlier, _, stays⟩ := prunes.lacks.reads_iff.mp reads
        have reader_ne : reader ≠ id := fun equal => produces (equal ▸ reads)
        exact (isDead_iff.mp left).2 reader
          (lacks.reads_iff.mpr ⟨earlier, fresh, by simp [reader_ne, stays]⟩)
      have askedBefore : other = start ∨ ∃ reader ∈ removed, before.Reads other reader := by
        refine asked.imp_right ?_
        rintro ⟨reader, member, reads⟩
        refine ⟨reader, (List.mem_cons.mp member).resolve_left ?_, reads⟩
        rintro rfl
        have stays := prunes.lacks.not_mem_of_contains (contains_of_isDead dead)
        exact produces (prunes.lacks.reads_iff.mpr ⟨reads, outside, stays⟩)
      have waits := prunes.pending other already askedBefore
      exact List.mem_append_right _ ((List.mem_cons.mp waits).resolve_left different)

theorem pruneAll (prunes : before.Prunes start stack removed graph) :
    before.Prunes start [] (graph.pruneAll stack removed).1
      (graph.pruneAll stack removed).2 := by
  induction graph, stack, removed using Graph.pruneAll.induct with
  | case1 graph removed =>
      rw [Graph.pruneAll]
      exact prunes
  | case2 graph removed id rest dead induction =>
      rw [Graph.pruneAll, dif_pos dead]
      exact induction (prunes.take dead)
  | case3 graph removed id rest alive induction =>
      rw [Graph.pruneAll, dif_neg alive]
      exact induction (prunes.skip alive)

/-- With nothing left to look at, all that has to go is gone. -/
theorem condemns (prunes : before.Prunes start [] removed graph) :
    before.Condemns start (· ∈ removed) := by
  have gone {id : NodeId} (removable : before.Removable id)
      (asked : id = start ∨ ∃ reader ∈ removed, before.Reads id reader)
      (all : ∀ reader, before.Reads id reader → reader ∈ removed) : id ∈ removed := by
    by_contra stays
    have dead : graph.isDead id = true := by
      refine isDead_iff.mpr ⟨prunes.lacks.removable_iff.mpr ⟨stays, removable⟩, ?_⟩
      intro reader reads
      obtain ⟨earlier, _, survives⟩ := prunes.lacks.reads_iff.mp reads
      exact survives (all reader earlier)
    exact List.not_mem_nil (prunes.pending id dead asked)
  refine ⟨fun removable unread => ?_, fun id reader removable reads member all => ?_⟩
  · exact gone removable (Or.inl rfl) fun reader reads => absurd reads (unread reader)
  · exact gone removable (Or.inr ⟨reader, member, reads⟩) all

end Prunes

/-- A removal lists each node that it takes once, it takes exactly the least set of nodes that have
to go, and it leaves everything else as it was. -/
theorem prune_exact (graph : Graph α) (start : NodeId) :
    (graph.prune start).1.Nodup ∧
    graph.Condemns start (· ∈ (graph.prune start).1) ∧
    (∀ condemned, graph.Condemns start condemned →
      ∀ id ∈ (graph.prune start).1, condemned id) ∧
    graph.Lacks (graph.prune start).1 (graph.prune start).2 := by
  have prunes := (Prunes.begin graph start).pruneAll
  exact ⟨prunes.nodup, prunes.condemns, prunes.needed, prunes.lacks⟩

end Graph

end QuantGraph
