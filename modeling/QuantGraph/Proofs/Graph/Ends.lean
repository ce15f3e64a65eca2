import Mathlib.Data.List.Perm.Basic
import QuantGraph.Proofs.Graph.Evolution

/-! The ends of a graph are its parameters and results. They stay what they are and
where they are while the graph evolves. -/

namespace QuantGraph

namespace Graph

variable {start before middle after graph : Graph α} {id : NodeId}

/-- A parameter or a result stands at an index. -/
def IsEnd (graph : Graph α) (id : NodeId) : Prop :=
  ∃ kind, graph.kind? id = some kind ∧ isFixedKind kind = true

theorem IsEnd.contains (isEnd : graph.IsEnd id) : graph.contains id = true := by
  obtain ⟨kind, found, _⟩ := isEnd
  exact contains_of_kind? found

theorem Unfixed.not_isEnd (unfixed : graph.Unfixed id) : ¬ graph.IsEnd id := by
  rintro ⟨kind, found, fixed⟩
  rw [unfixed kind found] at fixed
  cases fixed

/-- The same parameters and results stand at the same indices, and each of them has
the same input slots. -/
structure KeepsEnds (before after : Graph α) : Prop where
  node_eq : ∀ id, before.IsEnd id ∨ after.IsEnd id → after.node? id = before.node? id
  slots_perm : ∀ id, before.IsEnd id →
    ((after.incoming id).map Edge.inputSlot).Perm ((before.incoming id).map Edge.inputSlot)

namespace KeepsEnds

theorem refl (graph : Graph α) : graph.KeepsEnds graph :=
  ⟨fun _ _ => rfl, fun _ _ => List.Perm.refl _⟩

theorem isEnd_iff (keeps : before.KeepsEnds after) : after.IsEnd id ↔ before.IsEnd id := by
  constructor
  · rintro ⟨kind, found, fixed⟩
    have equal := keeps.node_eq id (Or.inr ⟨kind, found, fixed⟩)
    exact ⟨kind, (kind?_congr equal).symm.trans found, fixed⟩
  · rintro ⟨kind, found, fixed⟩
    have equal := keeps.node_eq id (Or.inl ⟨kind, found, fixed⟩)
    exact ⟨kind, (kind?_congr equal).trans found, fixed⟩

theorem trans (left : before.KeepsEnds middle) (right : middle.KeepsEnds after) :
    before.KeepsEnds after where
  node_eq := by
    intro id isEnd
    have inner : middle.IsEnd id := by
      rcases isEnd with isEnd | isEnd
      · exact left.isEnd_iff.mpr isEnd
      · exact right.isEnd_iff.mp isEnd
    exact (right.node_eq id (Or.inl inner)).trans (left.node_eq id (Or.inr inner))
  slots_perm := fun id isEnd =>
    (right.slots_perm id (left.isEnd_iff.mpr isEnd)).trans (left.slots_perm id isEnd)

theorem isKind_eq (keeps : before.KeepsEnds after) {kind : OpKind}
    (fixed : isFixedKind kind = true) (id : NodeId) :
    after.isKind id kind = before.isKind id kind := by
  unfold isKind
  rw [Bool.eq_iff_iff, beq_iff_eq, beq_iff_eq]
  constructor
  · intro found
    rw [← found]
    exact (kind?_congr (keeps.node_eq id (Or.inr ⟨kind, found, fixed⟩))).symm
  · intro found
    rw [← found]
    exact kind?_congr (keeps.node_eq id (Or.inl ⟨kind, found, fixed⟩))

end KeepsEnds

/-! ## The order of the ends -/

theorem pairwise_nodeIds (graph : Graph α) :
    graph.nodeIds.Pairwise fun left right => left.index < right.index := by
  refine List.Pairwise.filter _ (List.pairwise_map.mpr ?_)
  exact List.pairwise_lt_range

theorem mem_nodesOfKind {kind : OpKind} :
    id ∈ graph.nodesOfKind kind ↔ graph.isKind id kind = true := by
  rw [nodesOfKind, List.mem_filter, mem_nodeIds]
  constructor
  · exact And.right
  · intro found
    exact ⟨contains_of_kind? (by simpa [isKind] using found), found⟩

theorem pairwise_nodesOfKind (graph : Graph α) (kind : OpKind) :
    (graph.nodesOfKind kind).Pairwise fun left right => left.index < right.index :=
  graph.pairwise_nodeIds.filter _

theorem nodup_nodesOfKind (graph : Graph α) (kind : OpKind) : (graph.nodesOfKind kind).Nodup :=
  (graph.pairwise_nodesOfKind kind).imp fun below equal => by
    subst equal
    omega

/-- Nodes of the same kind are listed by increasing index, so the lists are equal when
the members are. -/
theorem nodesOfKind_eq {kind : OpKind}
    (same : ∀ id, after.isKind id kind = before.isKind id kind) :
    after.nodesOfKind kind = before.nodesOfKind kind := by
  have perm : (after.nodesOfKind kind).Perm (before.nodesOfKind kind) :=
    (List.perm_ext_iff_of_nodup (nodup_nodesOfKind after kind)
      (nodup_nodesOfKind before kind)).mpr fun id => by
        rw [mem_nodesOfKind, mem_nodesOfKind, same]
  refine perm.eq_of_pairwise (fun left right _ _ below above => ?_)
    (pairwise_nodesOfKind after kind) (pairwise_nodesOfKind before kind)
  omega

theorem KeepsEnds.results_eq (keeps : before.KeepsEnds after) : after.results = before.results :=
  nodesOfKind_eq (keeps.isKind_eq rfl)

theorem KeepsEnds.parameters_eq (keeps : before.KeepsEnds after) :
    after.parameters = before.parameters :=
  nodesOfKind_eq (keeps.isKind_eq rfl)

/-! ## Evolution -/

theorem slots_perm_of_inputCount (left : before.HasExactSlots id) (right : after.HasExactSlots id)
    (count : after.inputCount id = before.inputCount id) :
    ((after.incoming id).map Edge.inputSlot).Perm ((before.incoming id).map Edge.inputSlot) := by
  have numbers : ((after.incoming id).map fun edge => edge.inputSlot.toNat).Perm
      ((before.incoming id).map fun edge => edge.inputSlot.toNat) := by
    refine right.trans ?_
    rw [count]
    exact left.symm
  have injective : Function.Injective UInt8.toNat := fun _ _ => UInt8.toNat_inj.mp
  rw [← List.map_perm_map_iff injective, List.map_map, List.map_map]
  exact numbers

theorem Changes.node?_eq (changes : before.Changes after)
    (isEnd : before.IsEnd id ∨ after.IsEnd id) : after.node? id = before.node? id := by
  have unfixed (free : before.Unfixed id) : after.node? id = before.node? id := by
    rcases isEnd with isEnd | isEnd
    · exact absurd isEnd free.not_isEnd
    · exact absurd isEnd (changes.unfixed free).not_isEnd
  cases changes with
  | @add draft outputs new _ adds =>
      by_cases equal : id = new
      · subst equal
        refine unfixed fun kind found => ?_
        have fresh := adds.fresh
        rw [contains_of_kind? found] at fresh
        cases fresh
      · exact adds.node_old id equal
  | replace replaces =>
      rcases isEnd with ⟨kind, found, fixed⟩ | isEnd
      · exact replaces.node_eq (replaces.keeps_fixed found fixed)
      · exact replaces.node_eq isEnd.contains
  | setInput resources => exact resources.node_eq id
  | prune sheds =>
      rcases isEnd with ⟨kind, found, fixed⟩ | isEnd
      · exact sheds.node_eq id (sheds.keeps_fixed found fixed)
      · exact sheds.node_eq id isEnd.contains
  | @declare declared change free _ declares =>
      by_cases equal : id = declared
      · subst equal
        exact unfixed free
      · rw [declares.node_eq, if_neg equal]

theorem Changes.inputCount_eq (changes : before.Changes after) (wellFormed : before.WellFormed)
    (isEnd : before.IsEnd id) : after.inputCount id = before.inputCount id := by
  have live : after.contains id = true :=
    (contains_congr (changes.node?_eq (Or.inl isEnd))).trans isEnd.contains
  cases changes with
  | add _ adds => rw [inputCount, inputCount, adds.grows.incoming_eq isEnd.contains]
  | replace replaces =>
      rw [← length_inputs, ← length_inputs, replaces.inputs_eq (wellFormed.exact id) live]
      split
      · rfl
      · exact List.length_map _
  | setInput resources =>
      rw [← length_inputs, ← length_inputs, resources.inputs_eq id]
      split
      · exact List.length_set
      · rfl
  | prune sheds => rw [inputCount, inputCount, sheds.incoming_eq live]
  | declare _ _ declares => rw [inputCount, inputCount, incoming, incoming, declares.edges_eq]

theorem Changes.keepsEnds (changes : before.Changes after) (wellFormed : before.WellFormed) :
    before.KeepsEnds after where
  node_eq := fun _ isEnd => changes.node?_eq isEnd
  slots_perm := fun id isEnd =>
    slots_perm_of_inputCount (wellFormed.exact id) (changes.wellFormed.exact id)
      (changes.inputCount_eq wellFormed isEnd)

theorem Evolves.keepsEnds (evolves : start.Evolves graph) (wellFormed : start.WellFormed) :
    start.KeepsEnds graph := by
  induction evolves with
  | refl => exact .refl start
  | tail earlier changes induction =>
      exact induction.trans (changes.keepsEnds (Evolves.wellFormed earlier wellFormed))

end Graph

end QuantGraph
