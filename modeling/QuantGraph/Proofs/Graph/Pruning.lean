import QuantGraph.Proofs.Graph.WellFormed

/-! Removing nodes that nothing reads. What is left reads what it read before, and
every node that goes had a path to the node from which the removal started. -/

namespace QuantGraph

namespace Graph

variable {graph : Graph α} {id : NodeId}

/-! ## One node -/

theorem kind_of_isDead (dead : graph.isDead id = true) :
    ∃ kind, graph.kind? id = some kind ∧ isFixedKind kind = false ∧
      graph.consumerCount id = 0 := by
  unfold isDead at dead
  split at dead
  case h_1 kind found =>
    rw [Bool.and_eq_true] at dead
    exact ⟨kind, found, by simpa using dead.1, by simpa using dead.2⟩
  case h_2 => cases dead

theorem isDead_of_not_reads {kind : OpKind} (found : graph.kind? id = some kind)
    (unfixed : isFixedKind kind = false) (unread : ∀ reader, ¬ graph.Reads id reader) :
    graph.isDead id = true := by
  have none : graph.consumerCount id = 0 := by
    refine List.length_eq_zero_iff.mpr (List.eq_nil_iff_forall_not_mem.mpr fun edge member => ?_)
    exact unread edge.target ⟨edge, (mem_outgoing.mp member).1, (mem_outgoing.mp member).2, rfl⟩
  simp [isDead, found, unfixed, none]

theorem source_ne_of_isDead (dead : graph.isDead id = true) {edge : Edge}
    (member : edge ∈ graph.edges) : edge.source.node ≠ id := by
  obtain ⟨_, _, _, unread⟩ := kind_of_isDead dead
  intro source
  have outgoing : edge ∈ graph.outgoing id := mem_outgoing.mpr ⟨member, source⟩
  rw [List.length_eq_zero_iff.mp unread] at outgoing
  cases outgoing

theorem edges_erase (live : graph.contains id = true) :
    (graph.erase id).edges =
      graph.edges.filter fun edge => decide (edge.source.node ≠ id ∧ edge.target ≠ id) := by
  unfold erase
  rw [if_pos live]

theorem isConsistent_erase (consistent : graph.IsConsistent) (live : graph.contains id = true) :
    (graph.erase id).IsConsistent := by
  have uid_erase {other : NodeId} {uid : Nat} (found : (graph.erase id).uid? other = some uid) :
      graph.uid? other = some uid := by
    unfold uid? at found ⊢
    rw [node?_erase] at found
    split at found
    · cases found
    · exact found
  have vacant : (graph.erase id).vacant = id :: graph.vacant := by
    unfold erase
    rw [if_pos live]
  have next : (graph.erase id).nextUid = graph.nextUid := by
    unfold erase
    rw [if_pos live]
  have size : (graph.erase id).nodes.size = graph.nodes.size := by
    unfold erase
    rw [if_pos live]
    simp
  refine
    { source_live := ?_, target_live := ?_, vacant_dead := ?_, vacant_inside := ?_
      vacant_nodup := ?_, uid_lt := ?_, uid_unique := ?_ }
  · intro edge member
    rw [edges_erase live, List.mem_filter, decide_eq_true_iff] at member
    rw [contains_erase, consistent.source_live edge member.1]
    simpa using member.2.1
  · intro edge member
    rw [edges_erase live, List.mem_filter, decide_eq_true_iff] at member
    rw [contains_erase, consistent.target_live edge member.1]
    simpa using member.2.2
  · intro other member
    rw [vacant] at member
    rw [contains_erase]
    rcases List.mem_cons.mp member with equal | member
    · simp [equal]
    · simp [consistent.vacant_dead other member]
  · intro other member
    rw [vacant] at member
    rw [size]
    rcases List.mem_cons.mp member with equal | member
    · exact equal ▸ lt_size_of_contains live
    · exact consistent.vacant_inside other member
  · rw [vacant]
    refine List.nodup_cons.mpr ⟨fun member => ?_, consistent.vacant_nodup⟩
    rw [consistent.vacant_dead id member] at live
    cases live
  · intro other uid found
    rw [next]
    exact consistent.uid_lt other uid (uid_erase found)
  · intro left right uid leftFound rightFound
    exact consistent.uid_unique left right uid (uid_erase leftFound) (uid_erase rightFound)

/-! ## A cascade of removals -/

/-- Some nodes are gone, none of them of a fixed kind or read by one that is left,
and each of them with a path to `start`. -/
structure Sheds (before : Graph α) (start : NodeId) (after : Graph α) : Prop where
  node_eq : ∀ id, after.contains id = true → after.node? id = before.node? id
  edges_eq : after.edges = before.edges.filter fun edge => after.contains edge.target
  closed : ∀ edge ∈ before.edges,
    after.contains edge.target = true → after.contains edge.source.node = true
  removed : ∀ id kind, before.kind? id = some kind → after.contains id = false →
    isFixedKind kind = false ∧ before.Reaches id start
  consistent : after.IsConsistent

namespace Sheds

variable {before after : Graph α} {start : NodeId}

theorem refl (consistent : graph.IsConsistent) : graph.Sheds start graph where
  node_eq := fun _ _ => rfl
  edges_eq := (List.filter_eq_self.mpr fun edge member => consistent.target_live edge member).symm
  closed := fun edge member _ => consistent.source_live edge member
  removed := by
    intro id kind found dead
    rw [contains_of_kind? found] at dead
    cases dead
  consistent := consistent

theorem live (sheds : before.Sheds start after) {id : NodeId} (live : after.contains id = true) :
    before.contains id = true :=
  (contains_congr (sheds.node_eq id live)).symm.trans live

theorem mem_edges (sheds : before.Sheds start after) {edge : Edge} :
    edge ∈ after.edges ↔ edge ∈ before.edges ∧ after.contains edge.target = true := by
  rw [sheds.edges_eq, List.mem_filter]

theorem erase (sheds : before.Sheds start after) {id : NodeId} (dead : after.isDead id = true)
    (reaches : before.Reaches id start) : before.Sheds start (after.erase id) where
  node_eq := by
    intro other live
    rw [contains_erase, Bool.and_eq_true, decide_eq_true_iff] at live
    rw [node?_erase, if_neg live.1]
    exact sheds.node_eq other live.2
  edges_eq := by
    rw [edges_erase (contains_of_isDead dead), sheds.edges_eq, List.filter_filter]
    refine List.filter_congr fun edge member => ?_
    rw [contains_erase]
    by_cases kept : after.contains edge.target = true
    · have unread := source_ne_of_isDead dead (sheds.mem_edges.mpr ⟨member, kept⟩)
      simp [kept, unread]
    · simp [Bool.not_eq_true _ ▸ kept]
  closed := by
    intro edge member live
    rw [contains_erase, Bool.and_eq_true, decide_eq_true_iff] at live ⊢
    exact ⟨source_ne_of_isDead dead (sheds.mem_edges.mpr ⟨member, live.2⟩),
      sheds.closed edge member live.2⟩
  removed := by
    intro other kind found gone
    by_cases equal : other = id
    · subst equal
      obtain ⟨kind', found', unfixed, _⟩ := kind_of_isDead dead
      have same : after.kind? other = before.kind? other :=
        kind?_congr (sheds.node_eq other (contains_of_isDead dead))
      rw [found', found] at same
      exact ⟨Option.some.inj same ▸ unfixed, reaches⟩
    · rw [contains_erase] at gone
      exact sheds.removed other kind found (by simpa [equal] using gone)
  consistent := isConsistent_erase sheds.consistent (contains_of_isDead dead)

theorem incoming_eq (sheds : before.Sheds start after) {id : NodeId}
    (live : after.contains id = true) : after.incoming id = before.incoming id := by
  rw [incoming, incoming, sheds.edges_eq, List.filter_filter]
  refine List.filter_congr fun edge member => ?_
  by_cases target : edge.target = id
  · simp [target, live]
  · simp [target]

theorem inputs_eq (sheds : before.Sheds start after) {id : NodeId}
    (live : after.contains id = true) : after.inputs id = before.inputs id := by
  rw [inputs, inputs, sheds.incoming_eq live]

theorem wellFormed (sheds : before.Sheds start after) (wellFormed : before.WellFormed) :
    after.WellFormed where
  consistent := sheds.consistent
  exact := by
    intro id
    by_cases live : after.contains id = true
    · unfold HasExactSlots inputCount
      rw [sheds.incoming_eq live]
      exact wellFormed.exact id
    · have none_in := sheds.consistent.incoming_eq_nil (Bool.not_eq_true _ ▸ live)
      simp [HasExactSlots, inputCount, none_in]
  acyclic := IsAcyclic.mono (fun _ member => (sheds.mem_edges.mp member).1) wellFormed.acyclic

/-- A node stays when the removal starts elsewhere than downstream of it. -/
theorem keeps (sheds : before.Sheds start after) {id : NodeId}
    (live : before.contains id = true) (apart : ¬ before.Reaches id start) :
    after.contains id = true := by
  by_contra gone
  obtain ⟨node, found⟩ := contains_eq_true_iff.mp live
  have kind : before.kind? id = some node.kind := by rw [kind?, found, Option.map_some]
  exact apart (sheds.removed id _ kind (Bool.not_eq_true _ ▸ gone)).2

/-- A node of a fixed kind stays. -/
theorem keeps_fixed (sheds : before.Sheds start after) {id : NodeId} {kind : OpKind}
    (found : before.kind? id = some kind) (fixed : isFixedKind kind = true) :
    after.contains id = true := by
  by_contra gone
  have unfixed := (sheds.removed id kind found (Bool.not_eq_true _ ▸ gone)).1
  rw [fixed] at unfixed
  cases unfixed

/-- What a node that stays reads stays. -/
theorem keeps_sources (sheds : before.Sheds start after) {source reader : NodeId}
    (live : after.contains reader = true) (reads : before.Reads source reader) :
    after.contains source = true := by
  obtain ⟨edge, member, rfl, rfl⟩ := reads
  exact sheds.closed edge member live

end Sheds

private theorem sheds_pruneAll (before : Graph α) (start : NodeId) (stack removed : List NodeId)
    (graph : Graph α) (sheds : before.Sheds start graph)
    (pending : ∀ id ∈ stack, before.Reaches id start) :
    before.Sheds start (graph.pruneAll stack removed).2 := by
  induction graph, stack, removed using pruneAll.induct with
  | case1 graph removed =>
      rw [pruneAll]
      exact sheds
  | case2 graph removed id rest dead induction =>
      rw [pruneAll, dif_pos dead]
      have reaches := pending id List.mem_cons_self
      refine induction (sheds.erase dead reaches) fun other member => ?_
      rcases List.mem_append.mp member with member | member
      · rw [List.mem_reverse, producers, List.mem_map] at member
        obtain ⟨edge, entering, rfl⟩ := member
        obtain ⟨kept, target⟩ := mem_incoming.mp entering
        exact Relation.ReflTransGen.head
          ⟨edge, (sheds.mem_edges.mp kept).1, rfl, target⟩ reaches
      · exact pending other (List.mem_cons_of_mem id member)
  | case3 graph removed id rest alive induction =>
      rw [pruneAll, dif_neg alive]
      exact induction sheds fun other member => pending other (List.mem_cons_of_mem id member)

private theorem live_of_pruneAll {id : NodeId} (graph : Graph α) (stack removed : List NodeId)
    (live : (graph.pruneAll stack removed).2.contains id = true) : graph.contains id = true := by
  induction graph, stack, removed using pruneAll.induct with
  | case1 graph removed =>
      rw [pruneAll] at live
      exact live
  | case2 graph removed first rest dead induction =>
      rw [pruneAll, dif_pos dead] at live
      have kept := induction live
      rw [contains_erase, Bool.and_eq_true] at kept
      exact kept.2
  | case3 graph removed first rest alive induction =>
      rw [pruneAll, dif_neg alive] at live
      exact induction live

/-- A dead node at which the removal starts goes. -/
theorem contains_prune_of_isDead (dead : graph.isDead id = true) :
    (graph.prune id).2.contains id = false := by
  unfold prune
  rw [pruneAll, dif_pos dead]
  refine Bool.eq_false_iff.mpr fun live => ?_
  have kept := live_of_pruneAll _ _ _ live
  rw [contains_erase, Bool.and_eq_true, decide_eq_true_iff] at kept
  exact kept.1 rfl

theorem sheds_prune (consistent : graph.IsConsistent) (id : NodeId) :
    graph.Sheds id (graph.prune id).2 := by
  refine sheds_pruneAll graph id [id] [] graph (.refl consistent) fun other member => ?_
  rw [List.mem_singleton.mp member]
  exact Relation.ReflTransGen.refl

end Graph

end QuantGraph
