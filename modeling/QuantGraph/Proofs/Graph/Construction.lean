import QuantGraph.Proofs.Graph.Addition
import QuantGraph.Proofs.Outcome

/-! Graphs that are made by adding one node after the other. They are well-formed when
every node reads its inputs on the slots from zero on, in whichever order its draft lists
them. -/

namespace QuantGraph

/-- The outputs that a draft reads, in the order in which it lists them. -/
def Draft.sources (draft : Draft α) : List Output := draft.connections.map Connection.source

/-- A draft reads its inputs on the slots from zero on. -/
def Draft.IsInOrder (draft : Draft α) : Prop := draft.ReadsInOrder draft.sources

instance (draft : Draft α) : Decidable draft.IsInOrder :=
  decidable_of_iff
    (draft.connections = draft.sources.zipIdx.map (fun entry =>
        { source := entry.1, inputSlot := UInt8.ofNat entry.2 }) ∧ draft.sources.length ≤ 256)
    ⟨fun holds => ⟨holds.1, holds.2⟩, fun reads => ⟨reads.connections_eq, reads.length_le⟩⟩

/-- A draft uses each slot from zero on once, in any order. -/
def Draft.HasExactSlots (draft : Draft α) : Prop :=
  (draft.connections.map fun connection => connection.inputSlot.toNat).Perm
    (List.range draft.connections.length)

instance (draft : Draft α) : Decidable draft.HasExactSlots :=
  inferInstanceAs (Decidable (List.Perm _ _))

/-- The draft that lists the same connections by increasing slot. -/
def Draft.sorted (draft : Draft α) : Draft α :=
  { draft with connections := Graph.orderedConnections draft }

theorem Draft.HasExactSlots.isInOrder {draft : Draft α} (exact : draft.HasExactSlots) :
    draft.sorted.IsInOrder := by
  have slots : ((Graph.orderedConnections draft).map fun connection =>
      connection.inputSlot.toNat) = List.range draft.connections.length :=
    StableSort.map_sortBy_of_perm_range exact
  have length_eq : (Graph.orderedConnections draft).length = draft.connections.length :=
    StableSort.length_sortBy _ _
  have slot_eq {position : Nat} (inside : position < (Graph.orderedConnections draft).length) :
      (Graph.orderedConnections draft)[position].inputSlot.toNat = position := by
    have read := congrArg (fun entries => entries[position]?) slots
    simp only [List.getElem?_map, List.getElem?_eq_getElem inside, Option.map_some] at read
    rw [List.getElem?_range (length_eq ▸ inside)] at read
    exact Option.some.inj read
  constructor
  case connections_eq =>
    apply List.ext_getElem
    · simp [sorted, sources]
    · intro position inside _
      have slot := congrArg UInt8.ofNat (slot_eq inside)
      rw [UInt8.ofNat_toNat] at slot
      simp only [sorted, sources, List.getElem_map, List.getElem_zipIdx, Nat.zero_add, ← slot]
      rfl
  case length_le =>
    by_contra large
    have inside : 256 < (Graph.orderedConnections draft).length := by
      simpa [sorted, sources] using large
    have slot := slot_eq inside
    have bound := UInt8.toNat_lt (Graph.orderedConnections draft)[256].inputSlot
    omega

namespace Graph

theorem orderedConnections_sorted (draft : Draft α) :
    orderedConnections draft.sorted = orderedConnections draft :=
  StableSort.sortBy_of_pairwise (StableSort.pairwise_sortBy _ _)

/-- The order in which a draft lists its connections makes no difference. -/
theorem add_sorted (graph : Graph α) (draft : Draft α) :
    graph.add draft.sorted = graph.add draft := by
  have drafted : graph.draftedType draft.sorted = graph.draftedType draft := by
    unfold draftedType
    rw [orderedConnections_sorted]
    rfl
  have inserted : graph.insert draft.sorted = graph.insert draft := by
    funext output
    unfold insert
    rw [orderedConnections_sorted]
    rfl
  unfold add
  rw [orderedConnections_sorted, drafted, inserted]

/-- Add drafted nodes in turn. -/
def addAll (graph : Graph α) (drafts : List (Draft α)) : Except GraphError (Graph α) :=
  drafts.foldlM (fun graph draft => (graph.add draft).map Prod.snd) graph

theorem WellFormed.addAll {graph after : Graph α} (wellFormed : graph.WellFormed)
    {drafts : List (Draft α)} (ordered : ∀ draft ∈ drafts, draft.IsInOrder)
    (added : graph.addAll drafts = .ok after) : after.WellFormed := by
  induction drafts generalizing graph with
  | nil =>
      cases added
      exact wellFormed
  | cons draft rest induction =>
      rw [Graph.addAll, List.foldlM_cons] at added
      obtain ⟨middle, first, added⟩ := Outcome.bind_eq_ok.mp added
      obtain ⟨⟨id, larger⟩, inserted, rfl⟩ := Outcome.map_eq_ok.mp first
      have adds := adds_of_add wellFormed (ordered draft List.mem_cons_self) inserted
      exact induction adds.wellFormed
        (fun other member => ordered other (List.mem_cons_of_mem draft member)) added

/-- Whatever nodes are added, the bookkeeping stays in order and the earlier nodes stay as they
are. -/
theorem IsConsistent.addAll {graph after : Graph α} (consistent : graph.IsConsistent)
    {drafts : List (Draft α)} (added : graph.addAll drafts = .ok after) :
    after.IsConsistent ∧ graph.Grows after := by
  induction drafts generalizing graph with
  | nil =>
      cases added
      exact ⟨consistent, .refl _⟩
  | cons draft rest induction =>
      rw [Graph.addAll, List.foldlM_cons] at added
      obtain ⟨middle, first, added⟩ := Outcome.bind_eq_ok.mp added
      obtain ⟨⟨id, larger⟩, inserted, rfl⟩ := Outcome.map_eq_ok.mp first
      obtain ⟨live, type, _, rfl, rfl⟩ := add_eq_ok inserted
      obtain ⟨kept, grows⟩ := induction (isConsistent_insert consistent live) added
      exact ⟨kept, (grows_insert consistent).trans grows⟩

theorem addAll_sorted (graph : Graph α) (drafts : List (Draft α)) :
    graph.addAll (drafts.map Draft.sorted) = graph.addAll drafts := by
  unfold Graph.addAll
  rw [List.foldlM_map]
  simp only [add_sorted]

end Graph

end QuantGraph
