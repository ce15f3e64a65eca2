import QuantGraph.Proofs.Graph.Evolution

/-! Which nodes are read. Adding a node leaves it unread until another one reads it, and what
loses its last reader is left to a removal, which does not stop before everything is read that
is neither a parameter nor a result. -/

namespace QuantGraph

namespace Graph

variable {before after graph : Graph α} {id old new reader : NodeId}
  {pending rest : List NodeId}

/-- Every node is read, unless it is a parameter or a result. -/
def AllUsed (graph : Graph α) : Prop :=
  ∀ id, graph.Removable id → ∃ reader, graph.Reads id reader

/-- Every node is read, unless it is a parameter or a result or one of those listed. -/
def UsedBut (graph : Graph α) (pending : List NodeId) : Prop :=
  ∀ id, graph.Removable id → id ∉ pending → ∃ reader, graph.Reads id reader

/-- A well-formed graph without a node that nobody reads, parameters and results apart. -/
structure IsTidy (graph : Graph α) : Prop where
  wellFormed : graph.WellFormed
  used : graph.AllUsed

theorem usedBut_nil : graph.UsedBut [] ↔ graph.AllUsed := by
  simp [UsedBut, AllUsed]

theorem allUsed_iff_isDead : graph.AllUsed ↔ ∀ id, graph.isDead id = false := by
  constructor
  · intro used id
    refine Bool.eq_false_iff.mpr fun dead => ?_
    obtain ⟨kind, found, unfixed, unread⟩ := kind_of_isDead dead
    obtain ⟨reader, edge, member, source, _⟩ := used id ⟨kind, found, unfixed⟩
    exact source_ne_of_isDead dead member source
  · rintro alive id ⟨kind, found, unfixed⟩
    by_contra unread
    have dead := isDead_of_not_reads found unfixed fun reader reads => unread ⟨reader, reads⟩
    rw [alive id] at dead
    cases dead

theorem not_allUsed_of_isDead (dead : graph.isDead id = true) : ¬ graph.AllUsed := by
  intro used
  rw [allUsed_iff_isDead.mp used id] at dead
  cases dead

instance : Decidable graph.AllUsed :=
  decidable_of_iff (∀ id ∈ graph.nodeIds, graph.isDead id = false) <| by
    rw [allUsed_iff_isDead]
    refine ⟨fun alive id => Bool.eq_false_iff.mpr fun dead => ?_, fun alive id _ => alive id⟩
    have listed := mem_nodeIds.mpr (contains_of_isDead dead)
    rw [alive id listed] at dead
    cases dead

theorem removable_of_node_eq (equal : after.node? id = before.node? id)
    (removable : after.Removable id) : before.Removable id := by
  obtain ⟨kind, found, unfixed⟩ := removable
  exact ⟨kind, (kind?_congr equal).symm.trans found, unfixed⟩

namespace UsedBut

theorem mono (used : graph.UsedBut pending) (subset : ∀ id ∈ pending, id ∈ rest) :
    graph.UsedBut rest := fun id removable fresh =>
  used id removable fun listed => fresh (subset id listed)

/-- What the new node reads is used. -/
theorem adds {draft : Draft α} {outputs : List Output} (used : before.UsedBut pending)
    (adds : before.Adds draft outputs id after)
    (covered : ∀ other ∈ pending, other ∈ rest ∨ ∃ output ∈ outputs, output.node = other) :
    after.UsedBut (id :: rest) := by
  intro other removable fresh
  obtain ⟨different, unlisted⟩ := not_or.mp (mt List.mem_cons.mpr fresh)
  by_cases listed : other ∈ pending
  · rcases covered other listed with later | ⟨output, member, source⟩
    · exact absurd later unlisted
    · exact ⟨id, reads_iff_mem_inputs.mpr ⟨output, adds.inputs_new ▸ member, source⟩⟩
  · obtain ⟨reader, reads⟩ :=
      used other (removable_of_node_eq (adds.node_old other different) removable) listed
    exact ⟨reader, reads.mono fun _ => adds.grows.mem_edges⟩

theorem declares {change : Node α → Node α} (used : before.UsedBut pending)
    (declares : before.Declares id change after)
    (redeclared : ∀ node, IsRedeclared node (change node)) : after.UsedBut pending := by
  rintro other ⟨kind, found, unfixed⟩ unlisted
  have same := (declares.sameAt redeclared other).kind?_eq
  obtain ⟨reader, reads⟩ := used other ⟨kind, same.symm.trans found, unfixed⟩ unlisted
  exact ⟨reader, reads.mono fun edge member => declares.edges_eq ▸ member⟩

/-- The output that a slot no longer takes may have lost its last reader. -/
theorem resources {consumer : NodeId} {slot : UInt8} {source earlier : Output}
    (used : before.UsedBut (source.node :: rest))
    (resources : before.Resources consumer slot source after)
    (was : (before.inputs consumer)[slot.toNat]? = some earlier) :
    after.UsedBut (earlier.node :: rest) := by
  intro other removable fresh
  obtain ⟨different, unlisted⟩ := not_or.mp (mt List.mem_cons.mpr fresh)
  have inputs_eq := resources.inputs_eq consumer
  rw [if_pos rfl] at inputs_eq
  by_cases isSource : other = source.node
  · refine ⟨consumer, reads_iff_mem_inputs.mpr ⟨source, ?_, isSource.symm⟩⟩
    rw [inputs_eq]
    exact List.mem_set resources.slot_lt source
  · obtain ⟨reader, reads⟩ := used other
      (removable_of_node_eq (resources.node_eq other) removable) (by simp [isSource, unlisted])
    obtain ⟨output, member, isOther⟩ := reads_iff_mem_inputs.mp reads
    refine ⟨reader, reads_iff_mem_inputs.mpr ⟨output, ?_, isOther⟩⟩
    by_cases atConsumer : reader = consumer
    · subst atConsumer
      obtain ⟨position, found⟩ := List.mem_iff_getElem?.mp member
      have elsewhere : slot.toNat ≠ position := by
        rintro rfl
        cases Option.some.inj (was.symm.trans found)
        exact different isOther.symm
      rw [inputs_eq]
      exact List.mem_of_getElem? ((List.getElem?_set_ne elsewhere).trans found)
    · rw [resources.inputs_eq reader, if_neg atConsumer]
      exact member

/-! ## Removal -/

theorem erase (used : graph.UsedBut (id :: rest)) (live : graph.contains id = true) :
    (graph.erase id).UsedBut ((graph.producers id).reverse ++ rest) := by
  intro other removable fresh
  rw [List.mem_append, not_or, List.mem_reverse] at fresh
  obtain ⟨feeds, unlisted⟩ := fresh
  have different : other ≠ id := by
    rintro rfl
    obtain ⟨kind, found, _⟩ := removable
    simp [kind?, node?_erase] at found
  obtain ⟨reader, edge, member, source, target⟩ := used other
    (removable_of_node_eq (by rw [node?_erase, if_neg different]) removable)
    (by simp [different, unlisted])
  refine ⟨reader, edge, ?_, source, target⟩
  rw [edges_erase live, List.mem_filter]
  refine ⟨member, decide_eq_true ⟨fun equal => different (source ▸ equal), fun equal => feeds ?_⟩⟩
  exact List.mem_map.mpr ⟨edge, mem_incoming.mpr ⟨member, equal⟩, source⟩

theorem of_not_isDead (used : graph.UsedBut (id :: rest)) (alive : ¬ graph.isDead id = true) :
    graph.UsedBut rest := by
  rintro other ⟨kind, found, unfixed⟩ unlisted
  by_cases equal : other = id
  · subst equal
    by_contra unread
    exact alive (isDead_of_not_reads found unfixed fun reader reads => unread ⟨reader, reads⟩)
  · exact used other ⟨kind, found, unfixed⟩ (by simp [equal, unlisted])

/-- The stack of a removal holds all nodes that may have lost their last reader. -/
private theorem pruneAll (stack removed : List NodeId) (graph : Graph α)
    (used : graph.UsedBut (stack ++ rest)) : (graph.pruneAll stack removed).2.UsedBut rest := by
  induction graph, stack, removed using Graph.pruneAll.induct with
  | case1 graph removed =>
      rw [Graph.pruneAll]
      exact used
  | case2 graph removed id stack dead induction =>
      rw [Graph.pruneAll, dif_pos dead]
      refine induction ?_
      rw [List.append_assoc]
      exact erase used (contains_of_isDead dead)
  | case3 graph removed id stack alive induction =>
      rw [Graph.pruneAll, dif_neg alive]
      exact induction (of_not_isDead used alive)

theorem prune (used : graph.UsedBut (id :: rest)) : (graph.prune id).2.UsedBut rest :=
  pruneAll [id] [] graph used

/-! ## Replacement -/

theorem redirect (used : graph.UsedBut (new :: rest)) (reads : graph.Reads old reader)
    (other : reader ≠ new) : (graph.redirect old new).UsedBut (old :: rest) := by
  intro id removable fresh
  obtain ⟨different, unlisted⟩ := not_or.mp (mt List.mem_cons.mpr fresh)
  by_cases isNew : id = new
  · obtain ⟨edge, member, source, target⟩ := reads
    exact ⟨reader, _, mem_edges_redirect.mpr (Or.inl ⟨edge, member,
      ⟨source, fun equal => other (target.symm.trans equal)⟩, rfl⟩), isNew.symm, target⟩
  · obtain ⟨reader, edge, member, source, target⟩ := used id
      (removable_of_node_eq (node?_redirect graph old new id) removable)
      (by simp [isNew, unlisted])
    refine ⟨reader, edge, mem_edges_redirect.mpr (Or.inr ⟨member, fun moves => ?_⟩), source, target⟩
    exact different (source.symm.trans moves.1)

/-- A node that takes over a reader of another one is used, and the other one goes. -/
theorem replace (used : graph.UsedBut (new :: rest)) (reads : graph.Reads old reader)
    (other : reader ≠ new) (replaced : graph.replace old new = .ok after) :
    after.UsedBut rest := by
  unfold Graph.replace at replaced
  split at replaced
  case isTrue equal =>
    cases replaced
    subst equal
    intro id removable unlisted
    by_cases isOld : id = old
    · exact ⟨reader, isOld ▸ reads⟩
    · exact used id removable (by simp [isOld, unlisted])
  case isFalse =>
    split at replaced
    case isTrue =>
      cases replaced
      exact (used.redirect reads other).prune
    case isFalse => cases replaced

end UsedBut

theorem IsTidy.declares {change : Node α → Node α} (tidy : before.IsTidy)
    (declares : before.Declares id change after)
    (redeclared : ∀ node, IsRedeclared node (change node)) : after.IsTidy :=
  ⟨declares.wellFormed, usedBut_nil.mp
    (UsedBut.declares (usedBut_nil.mpr tidy.used) declares redeclared)⟩

/-! ## What is used outlives a removal -/

namespace Grows

variable {start : Graph α}

/-- Nothing that was there at first is dead as long as all of it was used. -/
theorem fresh_of_isDead (grows : start.Grows graph) (used : start.AllUsed)
    (dead : graph.isDead id = true) :
    start.contains id = false := by
  by_contra live
  rw [Bool.not_eq_false] at live
  obtain ⟨kind, found, unfixed, _⟩ := kind_of_isDead dead
  obtain ⟨reader, edge, member, source, _⟩ :=
    used id ⟨kind, (kind?_congr (grows.node_eq id live)).symm.trans found, unfixed⟩
  exact source_ne_of_isDead dead (grows.mem_edges member) source

theorem erase_of_fresh (grows : start.Grows graph) (consistent : start.IsConsistent)
    (live : graph.contains id = true) (fresh : start.contains id = false) :
    start.Grows (graph.erase id) := by
  have apart {other : NodeId} (live : start.contains other = true) : other ≠ id :=
    ne_of_contains live fresh
  refine ⟨fun other live => ?_, ?_⟩
  · rw [node?_erase, if_neg (apart live)]
    exact grows.node_eq other live
  · obtain ⟨added, edges_eq, targets⟩ := grows.edges_eq
    refine ⟨added.filter fun edge => decide (edge.source.node ≠ id ∧ edge.target ≠ id), ?_,
      fun edge member => targets edge (List.mem_filter.mp member).1⟩
    rw [edges_erase live, edges_eq, List.filter_append]
    refine congrArg _ (List.filter_eq_self.mpr fun edge member => decide_eq_true ?_)
    exact ⟨apart (consistent.source_live edge member), apart (consistent.target_live edge member)⟩

variable (consistent : start.IsConsistent) (used : start.AllUsed)

include consistent used

theorem erase (grows : start.Grows graph) (dead : graph.isDead id = true) :
    start.Grows (graph.erase id) :=
  grows.erase_of_fresh consistent (contains_of_isDead dead) (grows.fresh_of_isDead used dead)

private theorem pruneAll (stack removed : List NodeId) (graph : Graph α)
    (grows : start.Grows graph) : start.Grows (graph.pruneAll stack removed).2 := by
  induction graph, stack, removed using Graph.pruneAll.induct with
  | case1 graph removed =>
      rw [Graph.pruneAll]
      exact grows
  | case2 graph removed id stack dead induction =>
      rw [Graph.pruneAll, dif_pos dead]
      exact induction (grows.erase consistent used dead)
  | case3 graph removed id stack alive induction =>
      rw [Graph.pruneAll, dif_neg alive]
      exact induction grows

/-- A removal takes nothing of a graph in which everything is used. -/
theorem prune (grows : start.Grows graph) : start.Grows (graph.prune id).2 :=
  pruneAll consistent used [id] [] graph grows

end Grows

/-! ## Which nodes go -/

/-- A node that has lost all its readers to a removal goes with them. -/
theorem contains_prune_of_readers_gone {start : NodeId} (consistent : graph.IsConsistent)
    (removable : graph.Removable id) (reads : graph.Reads id reader)
    (gone : ∀ reader, graph.Reads id reader → (graph.prune start).2.contains reader = false) :
    (graph.prune start).2.contains id = false := by
  have sheds := sheds_prune consistent start
  have used : graph.UsedBut (start :: graph.nodeIds.filter (· ≠ id)) := by
    rintro other ⟨kind, found, _⟩ unlisted
    have isId : other = id := by simpa [mem_nodeIds.mpr (contains_of_kind? found)] using
      (not_or.mp (mt List.mem_cons.mpr unlisted)).2
    exact ⟨reader, isId ▸ reads⟩
  refine Bool.eq_false_iff.mpr fun live => ?_
  obtain ⟨kind, found, unfixed⟩ := removable
  have kept : (graph.prune start).2.Removable id :=
    ⟨kind, (kind?_congr (sheds.node_eq id live)).trans found, unfixed⟩
  obtain ⟨survivor, edge, member, source, target⟩ := used.prune id kept (by simp)
  obtain ⟨earlier, present⟩ := sheds.mem_edges.mp member
  rw [target, gone survivor ⟨edge, earlier, source, target⟩] at present
  cases present

/-- Some nodes, of which those that are read at all are read by one of them. -/
structure Sustains (graph : Graph α) (start : NodeId) (kept : NodeId → Prop) : Prop where
  elsewhere : ¬ kept start
  live : ∀ id, kept id → graph.contains id = true
  read : ∀ id reader, kept id → graph.Reads id reader →
    ∃ survivor, kept survivor ∧ graph.Reads id survivor

/-- A removal asks only for nodes that something reads, so it takes none of those that sustain
each other. -/
private theorem sustains_pruneAll {start : NodeId} {kept : NodeId → Prop}
    (sustains : before.Sustains start kept) (stack removed : List NodeId) (graph : Graph α)
    (edges : ∀ edge, edge ∈ graph.edges ↔
      edge ∈ before.edges ∧ graph.contains edge.target = true)
    (live : ∀ id, kept id → graph.contains id = true)
    (asked : ∀ id ∈ stack, id = start ∨ ∃ reader, before.Reads id reader) :
    ∀ id, kept id → (graph.pruneAll stack removed).2.contains id = true := by
  induction graph, stack, removed using Graph.pruneAll.induct with
  | case1 graph removed =>
      rw [Graph.pruneAll]
      exact live
  | case2 graph removed id rest dead induction =>
      rw [Graph.pruneAll, dif_pos dead]
      have spared : ¬ kept id := by
        intro member
        rcases asked id List.mem_cons_self with rfl | ⟨reader, reads⟩
        · exact sustains.elsewhere member
        · obtain ⟨survivor, survives, edge, earlier, source, rfl⟩ :=
            sustains.read id reader member reads
          exact source_ne_of_isDead dead ((edges edge).mpr ⟨earlier, live _ survives⟩) source
      refine induction ?_ ?_ ?_
      · intro edge
        rw [edges_erase (contains_of_isDead dead), List.mem_filter, edges, contains_erase,
          Bool.and_eq_true, decide_eq_true_iff, decide_eq_true_iff]
        constructor
        · rintro ⟨⟨earlier, target⟩, _, different⟩
          exact ⟨earlier, different, target⟩
        · rintro ⟨earlier, different, target⟩
          exact ⟨⟨earlier, target⟩,
            source_ne_of_isDead dead ((edges edge).mpr ⟨earlier, target⟩), different⟩
      · intro other member
        rw [contains_erase, live other member]
        simpa using fun equal : other = id => spared (equal ▸ member)
      · intro other member
        rcases List.mem_append.mp member with member | member
        · rw [List.mem_reverse, producers, List.mem_map] at member
          obtain ⟨edge, entering, rfl⟩ := member
          obtain ⟨present, _⟩ := mem_incoming.mp entering
          exact Or.inr ⟨edge.target, edge, ((edges edge).mp present).1, rfl, rfl⟩
        · exact asked other (List.mem_cons_of_mem id member)
  | case3 graph removed id rest alive induction =>
      rw [Graph.pruneAll, dif_neg alive]
      exact induction edges live fun other member => asked other (List.mem_cons_of_mem id member)

/-- Nodes that sustain each other outlive a removal that starts elsewhere, on cycles too. -/
theorem Sustains.contains_prune {start : NodeId} {kept : NodeId → Prop}
    (sustains : graph.Sustains start kept) (consistent : graph.IsConsistent) (member : kept id) :
    (graph.prune start).2.contains id = true := by
  refine sustains_pruneAll sustains [start] [] graph (fun edge => ?_) sustains.live ?_ id member
  · exact ⟨fun present => ⟨present, consistent.target_live edge present⟩, And.left⟩
  · exact fun other listed => Or.inl (List.mem_singleton.mp listed)

theorem prune_eq_self_of_reads (reads : graph.Reads id reader) : (graph.prune id).2 = graph := by
  have alive : ¬ graph.isDead id = true := by
    obtain ⟨edge, member, source, _⟩ := reads
    exact fun dead => source_ne_of_isDead dead member source
  rw [prune, Graph.pruneAll, dif_neg alive, Graph.pruneAll]

/-! ## A new node in the place of an old one -/

section Takeover

variable {grown : Graph α} {gone : List NodeId}

/-- An old node reads what it read, or the new node for the one that is replaced. -/
theorem Grows.reads_of_redirect (grows : before.Grows grown) (live : before.contains reader = true)
    (reads : (grown.redirect old new).Reads id reader) :
    before.Reads id reader ∨ id = new ∧ before.Reads old reader := by
  rcases reads_redirect reads with reads | ⟨isNew, _, reads⟩
  · exact Or.inl ((grows.reads_iff live).mp reads)
  · exact Or.inr ⟨isNew, (grows.reads_iff live).mp reads⟩

/-- Some old nodes may go, the replaced one among them, when none of them reads it, and when the
new node reads whatever else they read. Then the other nodes sustain each other. -/
theorem Grows.sustains (grows : before.Grows grown)
    (consistent : (grown.redirect old new).IsConsistent) (fresh : before.contains new = false)
    (newLive : grown.contains new = true) (listed : old ∈ gone)
    (live : ∀ id ∈ gone, before.contains id = true)
    (apart : ∀ reader ∈ gone, ¬ before.Reads old reader)
    (taken : ∀ reader ∈ gone, ∀ id, before.Reads id reader → id ∉ gone →
      (grown.redirect old new).Reads id new) :
    (grown.redirect old new).Sustains old fun id => grown.contains id = true ∧ id ∉ gone where
  elsewhere := fun kept => kept.2 listed
  live := fun _ kept => kept.1
  read := by
    rintro id reader ⟨_, outside⟩ reads
    by_cases goes : reader ∈ gone
    · rcases grows.reads_of_redirect (live reader goes) reads with earlier | ⟨_, readsOld⟩
      · exact ⟨new, ⟨newLive, fun listed => ne_of_contains (live new listed) fresh rfl⟩,
          taken reader goes id earlier outside⟩
      · exact absurd readsOld (apart reader goes)
    · exact ⟨reader, ⟨(consistent.reads_live reads).2, goes⟩, reads⟩

end Takeover

end Graph

end QuantGraph
