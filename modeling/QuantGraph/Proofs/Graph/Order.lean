import QuantGraph.Graph.Order
import QuantGraph.Proofs.Graph.WellFormed

/-! The depth-first search lists every node once, and in a graph without cycles it
finds a topological order. -/

namespace QuantGraph

namespace Graph

variable {graph : Graph α} {id : NodeId} {steps rest : List Step} {entered left : List NodeId}

/-- The nodes that have been entered and not left. -/
def opened (steps : List Step) : List NodeId :=
  steps.filterMap fun step =>
    match step with
    | .enter _ => none
    | .leave id => some id

theorem mem_opened : id ∈ opened steps ↔ .leave id ∈ steps := by
  rw [opened, List.mem_filterMap]
  constructor
  · rintro ⟨step, member, equal⟩
    cases step with
    | enter => cases equal
    | leave => cases equal; exact member
  · intro member
    exact ⟨_, member, rfl⟩

@[simp] theorem opened_append (first second : List Step) :
    opened (first ++ second) = opened first ++ opened second := List.filterMap_append

@[simp] theorem opened_enter (id : NodeId) (steps : List Step) :
    opened (.enter id :: steps) = opened steps := rfl

@[simp] theorem opened_leave (id : NodeId) (steps : List Step) :
    opened (.leave id :: steps) = id :: opened steps := rfl

@[simp] theorem opened_map_enter (ids : List NodeId) : opened (ids.map .enter) = [] := by
  induction ids with
  | nil => rfl
  | cons head tail induction => exact induction

theorem mem_successors {reader : NodeId} : reader ∈ graph.successors id ↔ graph.Reads id reader := by
  simp only [successors, List.mem_map, mem_outgoing, Reads, and_assoc]

/-! ## What is listed -/

/-- A search after some of its steps: a node is entered once, and it is left, open, or
still to be entered. -/
structure Visits (graph : Graph α) (steps : List Step) (entered left : List NodeId) : Prop where
  nodup : entered.Nodup
  accounted : entered.Perm (opened steps ++ left)
  live : ∀ id ∈ entered, graph.contains id = true
  covered : ∀ id, graph.contains id = true → id ∈ entered ∨ .enter id ∈ steps

namespace Visits

theorem leave (visits : graph.Visits (.leave id :: rest) entered left) :
    graph.Visits rest entered (id :: left) where
  nodup := visits.nodup
  accounted := visits.accounted.trans List.perm_middle.symm
  live := visits.live
  covered := by
    intro other live
    rcases visits.covered other live with found | pending
    · exact Or.inl found
    · rcases List.mem_cons.mp pending with equal | pending
      · cases equal
      · exact Or.inr pending

theorem enter (visits : graph.Visits (.enter id :: rest) entered left)
    (live : graph.contains id = true) (fresh : id ∉ entered) :
    graph.Visits ((graph.successors id).reverse.map .enter ++ .leave id :: rest) (id :: entered)
      left where
  nodup := List.nodup_cons.mpr ⟨fresh, visits.nodup⟩
  accounted := by
    rw [opened_append, opened_map_enter, List.nil_append, opened_leave, List.cons_append]
    exact visits.accounted.cons id
  live := by
    intro other member
    rcases List.mem_cons.mp member with rfl | member
    · exact live
    · exact visits.live other member
  covered := by
    intro other other_live
    rcases visits.covered other other_live with found | pending
    · exact Or.inl (List.mem_cons_of_mem id found)
    · rcases List.mem_cons.mp pending with equal | pending
      · cases equal
        exact Or.inl List.mem_cons_self
      · exact Or.inr (by simp [pending])

theorem skip (visits : graph.Visits (.enter id :: rest) entered left)
    (known : ¬ (graph.contains id = true ∧ id ∉ entered)) : graph.Visits rest entered left where
  nodup := visits.nodup
  accounted := visits.accounted
  live := visits.live
  covered := by
    intro other live
    rcases visits.covered other live with found | pending
    · exact Or.inl found
    · rcases List.mem_cons.mp pending with equal | pending
      · cases equal
        by_contra missing
        exact known ⟨live, fun found => missing (Or.inl found)⟩
      · exact Or.inr pending

end Visits

theorem visits_search (visits : graph.Visits steps entered left) :
    graph.Visits [] (graph.search steps entered left).1 (graph.search steps entered left).2 := by
  induction steps, entered, left using search.induct graph with
  | case1 entered left =>
      rw [search]
      exact visits
  | case2 entered left id rest induction =>
      rw [search]
      exact induction visits.leave
  | case3 entered left id rest fresh induction =>
      rw [search, dif_pos fresh]
      exact induction (visits.enter fresh.1 fresh.2)
  | case4 entered left id rest known induction =>
      rw [search, dif_neg known]
      exact induction (visits.skip known)

theorem visits_start (graph : Graph α) : graph.Visits (graph.nodeIds.map .enter) [] [] where
  nodup := List.nodup_nil
  accounted := by simp
  live := by simp
  covered := by
    intro id live
    exact Or.inr (List.mem_map_of_mem (mem_nodeIds.mpr live))

theorem searchOrder_perm (graph : Graph α) :
    graph.searchOrder.Nodup ∧ ∀ id, id ∈ graph.searchOrder ↔ graph.contains id = true := by
  have visits := visits_search graph.visits_start
  have perm : (graph.search (graph.nodeIds.map .enter) [] []).1.Perm graph.searchOrder := by
    simpa [opened, searchOrder] using visits.accounted
  refine ⟨perm.nodup_iff.mp visits.nodup, fun id => ?_⟩
  rw [← perm.mem_iff]
  constructor
  · exact visits.live id
  · intro live
    rcases visits.covered id live with found | pending
    · exact found
    · cases pending

/-- A topological order lists every node once. -/
theorem nodup_of_topologicalOrder {order : List NodeId}
    (found : graph.topologicalOrder = .ok order) :
    order.Nodup ∧ ∀ id, id ∈ order ↔ graph.contains id = true := by
  unfold topologicalOrder at found
  dsimp only at found
  split at found
  case isTrue =>
    cases found
    exact graph.searchOrder_perm
  case isFalse => cases found

/-! ## The order -/

/-- A search without cycles after some of its steps: what reads a node that is left is
left before it, and what reads an open node is left, pending or open above it. -/
structure Sorts (graph : Graph α) (steps : List Step) (entered left : List NodeId) : Prop where
  visits : graph.Visits steps entered left
  settled : ∀ above below opener, steps = above ++ .leave opener :: below →
    ∀ reader, graph.Reads opener reader →
      reader ∈ left ∨ .enter reader ∈ above ∨ .leave reader ∈ above
  nested : ∀ above below opener, steps = above ++ .leave opener :: below →
    ∀ other, .enter other ∈ above ∨ .leave other ∈ above → graph.Reaches opener other
  sorted : ∀ source ∈ left, ∀ reader, graph.Reads source reader →
    reader ∈ left ∧ left.idxOf source < left.idxOf reader

namespace Sorts

theorem not_mem_left (visits : graph.Visits (.leave id :: rest) entered left) : id ∉ left := by
  have nodup := visits.accounted.nodup_iff.mp visits.nodup
  rw [opened_leave, List.cons_append] at nodup
  exact fun member => (List.nodup_cons.mp nodup).1 (List.mem_append_right _ member)

theorem leave (sorts : graph.Sorts (.leave id :: rest) entered left) :
    graph.Sorts rest entered (id :: left) where
  visits := sorts.visits.leave
  settled := by
    rintro above below opener rfl reader reads
    rcases sorts.settled (.leave id :: above) below opener rfl reader reads with
      found | pending | pending
    · exact Or.inl (List.mem_cons_of_mem id found)
    · exact Or.inr (Or.inl (by simpa using pending))
    · rcases List.mem_cons.mp pending with equal | pending
      · cases equal
        exact Or.inl List.mem_cons_self
      · exact Or.inr (Or.inr pending)
  nested := by
    rintro above below opener rfl other member
    refine sorts.nested (.leave id :: above) below opener rfl other ?_
    exact member.imp (List.mem_cons_of_mem _) (List.mem_cons_of_mem _)
  sorted := by
    have fresh := not_mem_left sorts.visits
    intro source member reader reads
    have shifted {other : NodeId} (listed : other ∈ left) :
        (id :: left).idxOf other = left.idxOf other + 1 := by
      have different : id ≠ other := fun equal => fresh (equal ▸ listed)
      rw [List.idxOf_cons_ne left different]
    rcases List.mem_cons.mp member with rfl | member
    · rcases sorts.settled [] rest source rfl reader reads with found | pending | pending
      · refine ⟨List.mem_cons_of_mem source found, ?_⟩
        rw [shifted found, List.idxOf_cons_self]
        omega
      · cases pending
      · cases pending
    · obtain ⟨found, order⟩ := sorts.sorted source member reader reads
      refine ⟨List.mem_cons_of_mem id found, ?_⟩
      rw [shifted member, shifted found]
      omega

theorem enter (sorts : graph.Sorts (.enter id :: rest) entered left)
    (live : graph.contains id = true) (fresh : id ∉ entered) :
    graph.Sorts ((graph.successors id).reverse.map .enter ++ .leave id :: rest) (id :: entered)
      left := by
  have entering {reader : NodeId} :
      Step.enter reader ∈ (graph.successors id).reverse.map Step.enter ↔ graph.Reads id reader := by
    simp [mem_successors]
  have not_leaving (other : NodeId) :
      Step.leave other ∉ (graph.successors id).reverse.map Step.enter := by simp
  -- An open node below was open before; the new one stands right below what reads it.
  have place {above below : List Step} {opener : NodeId}
      (equal : (graph.successors id).reverse.map .enter ++ .leave id :: rest =
        above ++ .leave opener :: below) :
      (opener = id ∧ above = (graph.successors id).reverse.map .enter) ∨
        ∃ middle, above = (graph.successors id).reverse.map .enter ++ .leave id :: middle ∧
          rest = middle ++ .leave opener :: below := by
    rcases List.append_eq_append_iff.mp equal with
      ⟨middle, above_eq, rest_eq⟩ | ⟨middle, map_eq, below_eq⟩
    · cases middle with
      | nil =>
          simp only [List.nil_append, List.cons.injEq, Step.leave.injEq] at rest_eq
          exact Or.inl ⟨rest_eq.1.symm, by simpa using above_eq⟩
      | cons head middle =>
          simp only [List.cons_append, List.cons.injEq] at rest_eq
          exact Or.inr ⟨middle, rest_eq.1 ▸ above_eq, rest_eq.2⟩
    · cases middle with
      | nil =>
          simp only [List.nil_append, List.cons.injEq, Step.leave.injEq] at below_eq
          exact Or.inl ⟨below_eq.1, by simpa using map_eq.symm⟩
      | cons head middle =>
          simp only [List.cons_append, List.cons.injEq] at below_eq
          refine absurd ?_ (not_leaving opener)
          rw [map_eq, below_eq.1]
          exact List.mem_append_right _ List.mem_cons_self
  exact
    { visits := sorts.visits.enter live fresh
      settled := by
        intro above below opener equal reader reads
        rcases place equal with ⟨rfl, rfl⟩ | ⟨middle, rfl, rest_eq⟩
        · exact Or.inr (Or.inl (entering.mpr reads))
        · rcases sorts.settled (.enter id :: middle) below opener (by rw [rest_eq]; rfl) reader
            reads with found | pending | pending
          · exact Or.inl found
          · rcases List.mem_cons.mp pending with equal | pending
            · cases equal
              exact Or.inr (Or.inr (by simp))
            · exact Or.inr (Or.inl (by simp [pending]))
          · rcases List.mem_cons.mp pending with equal | pending
            · cases equal
            · exact Or.inr (Or.inr (by simp [pending]))
      nested := by
        intro above below opener equal other member
        rcases place equal with ⟨rfl, rfl⟩ | ⟨middle, rfl, rest_eq⟩
        · rcases member with member | member
          · exact Relation.ReflTransGen.single (entering.mp member)
          · exact absurd member (not_leaving other)
        · have before := sorts.nested (.enter id :: middle) below opener (by rw [rest_eq]; rfl)
          have reaches_id : graph.Reaches opener id := before id (Or.inl List.mem_cons_self)
          simp only [List.mem_append, List.mem_cons, reduceCtorEq, Step.leave.injEq,
            false_or, entering, not_leaving other] at member
          rcases member with (reads | member) | (rfl | member)
          · exact reaches_id.tail reads
          · exact before other (Or.inl (List.mem_cons_of_mem _ member))
          · exact reaches_id
          · exact before other (Or.inr (List.mem_cons_of_mem _ member))
      sorted := sorts.sorted }

theorem skip (sorts : graph.Sorts (.enter id :: rest) entered left)
    (consistent : graph.IsConsistent) (acyclic : graph.IsAcyclic)
    (known : ¬ (graph.contains id = true ∧ id ∉ entered)) : graph.Sorts rest entered left where
  visits := sorts.visits.skip known
  settled := by
    rintro above below opener rfl reader reads
    rcases sorts.settled (.enter id :: above) below opener rfl reader reads with
      found | pending | pending
    · exact Or.inl found
    · rcases List.mem_cons.mp pending with equal | pending
      · cases equal
        -- The reader has been entered. It cannot be open below, for it would close a cycle.
        have live := (consistent.reads_live reads).2
        have found : id ∈ entered := by
          by_contra fresh
          exact known ⟨live, fresh⟩
        have accounted := sorts.visits.accounted.mem_iff.mp found
        rcases List.mem_append.mp accounted with opened | left
        · have leaving := mem_opened.mp opened
          simp only [List.mem_cons, reduceCtorEq, false_or, List.mem_append,
            Step.leave.injEq] at leaving
          rcases leaving with above | rfl | below
          · exact Or.inr (Or.inr above)
          · exact absurd (Relation.TransGen.single reads) (acyclic id)
          · obtain ⟨first, second, rfl⟩ := List.append_of_mem below
            have path := sorts.nested (.enter id :: above ++ .leave opener :: first) second
              id (by simp) opener (Or.inr (by simp))
            exact absurd (Relation.TransGen.tail' path reads) (acyclic id)
        · exact Or.inl left
      · exact Or.inr (Or.inl pending)
    · exact Or.inr (Or.inr (by simpa using pending))
  nested := by
    rintro above below opener rfl other member
    refine sorts.nested (.enter id :: above) below opener rfl other ?_
    exact member.imp (List.mem_cons_of_mem _) (List.mem_cons_of_mem _)
  sorted := sorts.sorted

end Sorts

theorem sorts_search (consistent : graph.IsConsistent) (acyclic : graph.IsAcyclic)
    (sorts : graph.Sorts steps entered left) :
    graph.Sorts [] (graph.search steps entered left).1 (graph.search steps entered left).2 := by
  induction steps, entered, left using search.induct graph with
  | case1 entered left =>
      rw [search]
      exact sorts
  | case2 entered left id rest induction =>
      rw [search]
      exact induction sorts.leave
  | case3 entered left id rest fresh induction =>
      rw [search, dif_pos fresh]
      exact induction (sorts.enter fresh.1 fresh.2)
  | case4 entered left id rest known induction =>
      rw [search, dif_neg known]
      exact induction (sorts.skip consistent acyclic known)

/-- A graph without cycles has a topological order. -/
theorem IsAcyclic.exists_topologicalOrder (acyclic : graph.IsAcyclic)
    (consistent : graph.IsConsistent) : ∃ order, graph.topologicalOrder = .ok order := by
  have start : graph.Sorts (graph.nodeIds.map .enter) [] [] :=
    { visits := graph.visits_start
      settled := by
        intro above below opener equal
        have leaving : Step.leave opener ∈ graph.nodeIds.map Step.enter := by
          rw [equal]
          exact List.mem_append_right _ List.mem_cons_self
        simp at leaving
      nested := by
        intro above below opener equal
        have leaving : Step.leave opener ∈ graph.nodeIds.map Step.enter := by
          rw [equal]
          exact List.mem_append_right _ List.mem_cons_self
        simp at leaving
      sorted := by simp }
  have sorts := sorts_search consistent acyclic start
  have forward : graph.IsForward graph.searchOrder := by
    intro edge member
    have live := consistent.source_live edge member
    have listed := (graph.searchOrder_perm.2 edge.source.node).mpr live
    exact (sorts.sorted _ listed _ ⟨edge, member, rfl, rfl⟩).2
  exact ⟨graph.searchOrder, if_pos forward⟩

/-- A graph with a topological order has no cycles. -/
theorem isAcyclic_of_topologicalOrder {order : List NodeId}
    (found : graph.topologicalOrder = .ok order) : graph.IsAcyclic := by
  have forward := isForward_of_topologicalOrder found
  have earlier (source reader : NodeId) (precedes : graph.Precedes source reader) :
      order.idxOf source < order.idxOf reader := by
    induction precedes with
    | single reads =>
        obtain ⟨edge, member, rfl, rfl⟩ := reads
        exact forward edge member
    | tail _ reads induction =>
        obtain ⟨edge, member, rfl, rfl⟩ := reads
        exact Nat.lt_trans induction (forward edge member)
  exact fun id cycle => Nat.lt_irrefl _ (earlier id id cycle)

/-- The nodes in an order, each once, with those that it reads before it. -/
structure IsTopological (graph : Graph α) (order : List NodeId) : Prop where
  nodup : order.Nodup
  mem_iff : ∀ id, id ∈ order ↔ graph.contains id = true
  forward : graph.IsForward order

theorem isTopological_of_topologicalOrder {order : List NodeId}
    (found : graph.topologicalOrder = .ok order) : graph.IsTopological order where
  nodup := (nodup_of_topologicalOrder found).1
  mem_iff := (nodup_of_topologicalOrder found).2
  forward := isForward_of_topologicalOrder found

theorem IsTopological.not_mem_before {order before after : List NodeId}
    (topological : graph.IsTopological order) (split : order = before ++ id :: after) :
    id ∉ before := by
  have nodup := topological.nodup
  rw [split] at nodup
  exact fun listed => (List.nodup_append.mp nodup).2.2 id listed id List.mem_cons_self rfl

/-- In a topological order the nodes that a node reads come before it. -/
theorem IsTopological.mem_before {order before after : List NodeId}
    (topological : graph.IsTopological order) (split : order = before ++ id :: after)
    {output : Output} (reads : output ∈ graph.inputs id) : output.node ∈ before := by
  obtain ⟨edge, member, source, target⟩ := mem_inputs_iff_edge.mp reads
  have forward := topological.forward edge member
  rw [target, source, split,
    List.idxOf_append_of_notMem (topological.not_mem_before split), List.idxOf_cons_self] at forward
  by_contra missing
  rw [List.idxOf_append_of_notMem missing] at forward
  omega

theorem WellFormed.exists_topologicalOrder (wellFormed : graph.WellFormed) :
    ∃ order, graph.topologicalOrder = .ok order :=
  wellFormed.acyclic.exists_topologicalOrder wellFormed.consistent

end Graph

end QuantGraph
