import QuantGraph.Proofs.Graph.Evolution

/-! The creation of nodes, in any graph whatsoever. Identity numbers are given out by
additions alone; every other change leaves nodes where they are or takes them out. -/

namespace QuantGraph

namespace Graph

variable {before middle after graph start : Graph α} {id old new : NodeId} {draft : Draft α}

/-! ## Changes that create nothing -/

/-- Every node was there before, at its place and with its identity number and operation. -/
structure Retains (before after : Graph α) : Prop where
  nextUid_eq : after.nextUid = before.nextUid
  exists_node : ∀ id node, after.node? id = some node →
    ∃ earlier, before.node? id = some earlier ∧ earlier.uid = node.uid ∧ earlier.op = node.op

namespace Retains

theorem refl (graph : Graph α) : graph.Retains graph :=
  ⟨rfl, fun _ node found => ⟨node, found, rfl, rfl⟩⟩

theorem trans (left : before.Retains middle) (right : middle.Retains after) :
    before.Retains after := by
  refine ⟨right.nextUid_eq.trans left.nextUid_eq, fun id node found => ?_⟩
  obtain ⟨between, present, uid_eq, op_eq⟩ := right.exists_node id node found
  obtain ⟨earlier, present, uid_eq', op_eq'⟩ := left.exists_node id between present
  exact ⟨earlier, present, uid_eq'.trans uid_eq, op_eq'.trans op_eq⟩

end Retains

theorem retains_of_nodes_eq (nodes : after.nodes = before.nodes)
    (nextUid : after.nextUid = before.nextUid) : before.Retains after := by
  refine ⟨nextUid, fun id node found => ⟨node, ?_, rfl, rfl⟩⟩
  rw [node?, nodes] at found
  exact found

theorem retains_erase (graph : Graph α) (id : NodeId) : graph.Retains (graph.erase id) := by
  refine ⟨?_, fun other node found => ?_⟩
  · unfold erase
    split <;> rfl
  · rw [node?_erase] at found
    split at found
    case isTrue => cases found
    case isFalse => exact ⟨node, found, rfl, rfl⟩

theorem retains_pruneAll (graph : Graph α) (stack removed : List NodeId) :
    graph.Retains (graph.pruneAll stack removed).2 := by
  induction graph, stack, removed using pruneAll.induct with
  | case1 graph removed =>
      rw [pruneAll]
      exact .refl graph
  | case2 graph removed id rest dead induction =>
      rw [pruneAll, dif_pos dead]
      exact (retains_erase graph id).trans induction
  | case3 graph removed id rest alive induction =>
      rw [pruneAll, dif_neg alive]
      exact induction

theorem retains_modify (graph : Graph α) (id : NodeId) {change : Node α → Node α}
    (kept : ∀ node, (change node).uid = node.uid ∧ (change node).op = node.op) :
    graph.Retains (graph.modify id change) := by
  refine ⟨nextUid_modify graph id change, fun other node found => ?_⟩
  rw [node?_modify] at found
  split at found
  case isTrue equal =>
    obtain ⟨earlier, present, rfl⟩ := Option.map_eq_some_iff.mp found
    rw [equal]
    exact ⟨earlier, present, (kept earlier).1.symm, (kept earlier).2.symm⟩
  case isFalse => exact ⟨node, found, rfl, rfl⟩

theorem retains_replace (replaced : graph.replace old new = .ok after) : graph.Retains after := by
  unfold replace at replaced
  split at replaced
  case isTrue =>
    cases replaced
    exact .refl _
  case isFalse =>
    split at replaced
    case isTrue =>
      cases replaced
      have redirected : graph.Retains (graph.redirect old new) := retains_of_nodes_eq rfl rfl
      exact redirected.trans (retains_pruneAll _ _ _)
    case isFalse => cases replaced

theorem retains_setInput {slot : UInt8} {source : Output}
    (updated : graph.setInput id slot source = .ok after) : graph.Retains after := by
  unfold setInput at updated
  split at updated
  case isTrue => cases updated
  case isFalse =>
    split at updated
    case isTrue =>
      cases updated
      exact retains_of_nodes_eq rfl rfl
    case isFalse => cases updated

/-- A precision is declared by a change of the node, which stays the node that it was. -/
theorem exists_modify_of_setPrecision {precision : ElementType}
    (declared : graph.setPrecision id precision = .ok after) :
    ∃ change : Node α → Node α,
      (∀ node, (change node).uid = node.uid ∧ (change node).op = node.op) ∧
      after = graph.modify id change := by
  unfold setPrecision at declared
  split at declared
  case isTrue =>
    cases declared
    refine ⟨_, fun node => ?_, rfl⟩
    split <;> exact ⟨rfl, rfl⟩
  case isFalse => cases declared

theorem exists_modify_of_overridePrecision {precision : ElementType}
    (declared : graph.overridePrecision id precision = .ok after) :
    ∃ change : Node α → Node α,
      (∀ node, (change node).uid = node.uid ∧ (change node).op = node.op) ∧
      after = graph.modify id change := by
  unfold overridePrecision at declared
  split at declared
  case h_1 => cases declared
  case h_2 =>
    split at declared
    case isTrue =>
      cases declared
      exact ⟨fun node => { node with precision := some precision }, fun _ => ⟨rfl, rfl⟩, rfl⟩
    case isFalse => cases declared

theorem retains_setPrecision {precision : ElementType}
    (declared : graph.setPrecision id precision = .ok after) : graph.Retains after := by
  obtain ⟨change, kept, rfl⟩ := exists_modify_of_setPrecision declared
  exact retains_modify graph id kept

theorem retains_overridePrecision {precision : ElementType}
    (declared : graph.overridePrecision id precision = .ok after) : graph.Retains after := by
  obtain ⟨change, kept, rfl⟩ := exists_modify_of_overridePrecision declared
  exact retains_modify graph id kept

/-! ## Additions -/

theorem node?_place_eq_some {node other : Node α} (found : (graph.place node).node? id = some other) :
    other = node ∨ graph.node? id = some other := by
  unfold place at found
  split at found
  case h_1 =>
    simp only [node?, Array.getElem?_setIfInBounds] at found ⊢
    split at found
    case isTrue =>
      split at found
      case isTrue => exact Or.inl (Option.some.inj found).symm
      case isFalse => cases found
    case isFalse => exact Or.inr found
  case h_2 =>
    simp only [node?, Array.getElem?_push] at found ⊢
    split at found
    case isTrue => exact Or.inl (Option.some.inj found).symm
    case isFalse => exact Or.inr found

theorem exists_insert_of_add (added : graph.add draft = .ok (id, after)) :
    ∃ output, after = (graph.insert draft output).2 := by
  unfold add at added
  split at added
  case h_1 => cases added
  case h_2 =>
    cases drafted : graph.draftedType draft with
    | error => rw [drafted] at added; cases added
    | ok output =>
        rw [drafted] at added
        exact ⟨output, (congrArg Prod.snd (Except.ok.inj added)).symm⟩

theorem nextUid_add (added : graph.add draft = .ok (id, after)) :
    after.nextUid = graph.nextUid + 1 := by
  obtain ⟨output, rfl⟩ := exists_insert_of_add added
  rw [insert_eq]

/-- After an addition, a node is the new one or was there before. -/
theorem node?_add_eq_some (added : graph.add draft = .ok (id, after)) {other : NodeId}
    {node : Node α} (found : after.node? other = some node) :
    node.uid = graph.nextUid ∧ node.op = draft.op ∨ graph.node? other = some node := by
  obtain ⟨output, rfl⟩ := exists_insert_of_add added
  rw [insert_eq] at found
  rcases node?_place_eq_some found with rfl | present
  · exact Or.inl ⟨rfl, rfl⟩
  · exact Or.inr present

/-! ## Any number of changes -/

/-- The graph `start` has been changed, and on the way a number of nodes of the allowed
kinds have been created. -/
inductive Creates (allowed : OpKind → Prop) (start : Graph α) : Nat → Graph α → Prop where
  | none : Creates allowed start 0 start
  | add {count : Nat} {graph : Graph α} {draft : Draft α} {id : NodeId} {after : Graph α}
      (creates : Creates allowed start count graph) (allows : allowed draft.op.kind)
      (added : graph.add draft = .ok (id, after)) : Creates allowed start (count + 1) after
  | retain {count : Nat} {graph after : Graph α} (creates : Creates allowed start count graph)
      (retains : graph.Retains after) : Creates allowed start count after

namespace Creates

variable {allowed : OpKind → Prop} {count : Nat}

/-- Identity numbers are given out one for each created node. -/
theorem nextUid_eq (creates : start.Creates allowed count after) :
    after.nextUid = start.nextUid + count := by
  induction creates with
  | none => rfl
  | add _ _ added induction =>
      rw [nextUid_add added, induction]
      rfl
  | retain _ retains induction => exact retains.nextUid_eq.trans induction

/-- A node was there at the start, or is of an allowed kind and has a new identity number. -/
theorem exists_node (creates : start.Creates allowed count after) {node : Node α}
    (found : after.node? id = some node) :
    (∃ earlier, start.node? id = some earlier ∧ earlier.uid = node.uid ∧ earlier.op = node.op) ∨
      start.nextUid ≤ node.uid ∧ allowed node.kind := by
  induction creates generalizing node with
  | none => exact Or.inl ⟨node, found, rfl, rfl⟩
  | add creates allows added induction =>
      rcases node?_add_eq_some added found with ⟨uid_eq, op_eq⟩ | present
      · right
        rw [uid_eq, creates.nextUid_eq, Node.kind, op_eq]
        exact ⟨Nat.le_add_right _ _, allows⟩
      · exact induction present
  | retain _ retains induction =>
      obtain ⟨earlier, present, uid_eq, op_eq⟩ := retains.exists_node _ _ found
      rcases induction present with ⟨first, present, uid_eq', op_eq'⟩ | ⟨uid_le, allows⟩
      · exact Or.inl ⟨first, present, uid_eq'.trans uid_eq, op_eq'.trans op_eq⟩
      · right
        rw [Node.kind, ← uid_eq, ← op_eq]
        exact ⟨uid_le, allows⟩

/-- A place at which only an allowed kind may be copied stays one. -/
theorem allows_kind (creates : start.Creates allowed count after)
    (copied : ∀ kind, start.kind? id = some kind → allowed kind) :
    ∀ kind, after.kind? id = some kind → allowed kind := by
  intro kind found
  obtain ⟨node, present, rfl⟩ := Option.map_eq_some_iff.mp found
  rcases creates.exists_node present with ⟨earlier, present, _, op_eq⟩ | ⟨_, allows⟩
  · refine copied node.kind ?_
    rw [kind?, present, Option.map_some, Node.kind, Node.kind, op_eq]
  · exact allows

end Creates

end Graph

end QuantGraph
