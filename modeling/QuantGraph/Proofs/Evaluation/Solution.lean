import Mathlib
import QuantGraph.Proofs.Evaluation.Derivation
import QuantGraph.Proofs.Graph.Construction
import QuantGraph.Scalar.Exact

/-! A graph as a system of equations, one for each node: its value is what its operation gives
for the values on its input slots. Evaluation finds the one solution. Hence the order in which
nodes are computed does not show in their values, nor does anything but the nodes that a node
depends on and what is fed to them. -/

namespace QuantGraph

/-- What is fed matters to a parameter only. -/
theorem Op.evaluate_eq_of_ne_parameter [Scalar α] {op : Op α} (computes : op ≠ .parameter)
    (integral : Bool) (inputs : List (NDArray α)) (feed other : Option (NDArray α)) :
    op.evaluate integral inputs feed = op.evaluate integral inputs other := by
  cases op with
  | parameter => exact absurd rfl computes
  | _ => rfl

/-- What evaluation reads of a node: its operation, and whether it gives integers. -/
def Node.computation (node : Node α) : Op α × Bool := (node.op, node.elementType.isIntegral)

/-- What an evaluation knows when it has come through some of the nodes. -/
def Assignment.only (values : Assignment α) (listed : List NodeId) : Assignment α :=
  fun id => if id ∈ listed then values id else Option.none

@[simp] theorem Assignment.only_nil (values : Assignment α) : values.only [] = .none := by
  funext id
  simp [only, none]

theorem Assignment.set_only {values : Assignment α} {listed : List NodeId} {id : NodeId}
    {value : NDArray α} (isValue : values id = some value) :
    (values.only listed).set id value = values.only (listed ++ [id]) := by
  funext other
  by_cases same : other = id
  · simp [set, only, same, isValue]
  · simp [set, only, same]

namespace Graph

variable {graph before after : Graph α} {id : NodeId}

/-! ## Slots -/

/-- The edges into a node, by increasing input slot. -/
structure IsSlotOrder (graph : Graph α) (id : NodeId) (edges : List Edge) : Prop where
  perm : edges.Perm (graph.incoming id)
  increasing : edges.Pairwise fun left right => left.inputSlot.toNat < right.inputSlot.toNat

/-- The sources in slot order are the inputs of the node. -/
theorem IsSlotOrder.map_source {edges : List Edge} (order : graph.IsSlotOrder id edges) :
    edges.map Edge.source = graph.inputs id := by
  have distinct : (edges.map fun edge => edge.inputSlot.toNat).Nodup :=
    List.pairwise_map.mpr (order.increasing.imp Nat.ne_of_lt)
  have sorted := order.perm.trans
    (StableSort.sortBy_perm (fun edge => edge.inputSlot.toNat) (graph.incoming id)).symm
  refine congrArg (List.map Edge.source) (sorted.eq_of_pairwise ?_
    (order.increasing.imp Nat.le_of_lt) (StableSort.pairwise_sortBy _ _))
  intro left right isLeft isRight below above
  exact List.inj_on_of_nodup_map distinct isLeft (sorted.mem_iff.mpr isRight)
    (Nat.le_antisymm below above)

/-- Edges into distinct slots have a slot order. -/
theorem HasDistinctSlots.isSlotOrder (distinct : graph.HasDistinctSlots id) :
    graph.IsSlotOrder id
      (StableSort.sortBy (fun edge => edge.inputSlot.toNat) (graph.incoming id)) where
  perm := StableSort.sortBy_perm _ _
  increasing := by
    have perm := StableSort.sortBy_perm (fun edge => edge.inputSlot.toNat) (graph.incoming id)
    have nodup : ((graph.incoming id).map fun edge => edge.inputSlot.toNat).Nodup := distinct
    have apart := List.pairwise_map.mp ((perm.map _).nodup_iff.mpr nodup)
    exact ((StableSort.pairwise_sortBy _ _).and apart).imp fun both =>
      Nat.lt_of_le_of_ne both.1 both.2

/-- The inputs of a node do not depend on the order in which its edges were made. -/
theorem inputs_eq_of_edges (distinctBefore : before.HasDistinctSlots id)
    (distinctAfter : after.HasDistinctSlots id)
    (same : ∀ edge, edge.target = id → (edge ∈ after.edges ↔ edge ∈ before.edges)) :
    after.inputs id = before.inputs id := by
  have perm : (after.incoming id).Perm (before.incoming id) := by
    refine (List.perm_ext_iff_of_nodup (List.Nodup.of_map _ distinctAfter)
      (List.Nodup.of_map _ distinctBefore)).mpr fun edge => ?_
    rw [mem_incoming, mem_incoming]
    exact and_congr_left (same edge)
  exact congrArg (List.map Edge.source) (StableSort.sortBy_eq_of_perm perm distinctAfter)

/-! ## The equations -/

variable [Scalar α] {feeds feeds' values values' : Assignment α} {value : NDArray α}

/-- The nodes of a graph have values, and each value is what the operation of the node gives
for the values on its input slots. -/
structure IsSolution (graph : Graph α) (feeds values : Assignment α) : Prop where
  defined : ∀ id, (values id).isSome = graph.contains id
  equation : ∀ id node edges, graph.node? id = some node → graph.IsSlotOrder id edges →
    ∃ inputs, Carries values (edges.map Edge.source) inputs ∧
      ∃ value, node.op.evaluate node.elementType.isIntegral inputs (feeds id) = .ok value ∧
        values id = some value

theorem isSolution_of_evaluate (evaluated : graph.evaluate feeds = .ok values) :
    graph.IsSolution feeds values where
  defined := by
    intro id
    obtain ⟨order, found, solves⟩ := solves_of_evaluate evaluated
    have listed_iff := (isTopological_of_topologicalOrder found).mem_iff id
    by_cases live : graph.contains id = true
    · obtain ⟨value, isValue, _⟩ := evaluateNode_of_evaluate evaluated live
      rw [isValue, live, Option.isSome_some]
    · simp [solves.unlisted id (mt listed_iff.mp live), live]
  equation := by
    intro id node edges found order
    obtain ⟨value, isValue, computed⟩ :=
      evaluateNode_of_evaluate evaluated (contains_of_node? found)
    obtain ⟨_, inputs, present, carries, computed⟩ := evaluateNode_eq_ok.mp computed
    cases Option.some.inj (found.symm.trans present)
    exact ⟨inputs, order.map_source ▸ carries, value, computed, isValue⟩

/-- A solution agrees with the value that is derived along the inputs of a node. -/
theorem HasValue.eq_of_isSolution (distinct : ∀ id, graph.HasDistinctSlots id)
    (solution : graph.IsSolution feeds values) (has : graph.HasValue feeds id value) :
    values id = some value := by
  induction has with
  | @compute id node inputs value found length_eq known computed induction =>
      obtain ⟨inputs', carries, value', computed', isValue⟩ :=
        solution.equation id node _ found (distinct id).isSlotOrder
      rw [(distinct id).isSlotOrder.map_source] at carries
      have known : Carries values (graph.inputs id) inputs :=
        forall₂_of_getElem? length_eq induction
      cases known.unique carries
      rw [isValue, ← Except.ok.inj (computed.symm.trans computed')]

theorem IsSolution.eq_of_evaluate (solution : graph.IsSolution feeds values')
    (distinct : ∀ id, graph.HasDistinctSlots id) (evaluated : graph.evaluate feeds = .ok values) :
    values' = values := by
  funext id
  cases isValue : values id with
  | some value => exact (hasValue_of_evaluate evaluated isValue).eq_of_isSolution distinct solution
  | none =>
      have missing := solution.defined id
      rw [← (isSolution_of_evaluate evaluated).defined id, isValue] at missing
      simpa using missing

/-! ## Orders -/

/-- Computing the rest of a topological order completes the values of the nodes before it. -/
theorem IsTopological.evaluateAlong_eq {order done rest : List NodeId}
    (topological : graph.IsTopological order) (split : order = done ++ rest)
    (evaluated : graph.evaluate feeds = .ok values) :
    graph.evaluateAlong feeds rest (values.only done) = .ok values := by
  induction rest generalizing done with
  | nil =>
      rw [List.append_nil] at split
      subst split
      refine congrArg Except.ok (funext fun id => ?_)
      by_cases listed : id ∈ order
      · exact if_pos listed
      · have dead : ¬ graph.contains id = true := mt (topological.mem_iff id).mpr listed
        have missing : values id = none := by
          simpa [dead] using (isSolution_of_evaluate evaluated).defined id
        rw [Assignment.only, if_neg listed, missing]
  | cons id rest induction =>
      have live := (topological.mem_iff id).mp (by simp [split])
      obtain ⟨value, isValue, computed⟩ := evaluateNode_of_evaluate evaluated live
      have known : graph.evaluateNode feeds (values.only done) id = .ok value := by
        refine (evaluateNode_congr fun output member => ?_).trans computed
        exact if_pos (topological.mem_before split member)
      have next := @induction (done ++ [id]) (by simp [split])
      rw [evaluateAlong, List.foldlM_cons, known]
      rwa [← Assignment.set_only isValue] at next

/-! ## Origins -/

/-- Two graphs agree on a node and on all that it depends on: on what is computed, on what is
read on which slot, and on what is fed to the parameters. -/
structure SharesOrigins (before after : Graph α) (feeds feeds' : Assignment α) (id : NodeId) :
    Prop where
  computation_eq : ∀ origin, before.Reaches origin id →
    (after.node? origin).map Node.computation = (before.node? origin).map Node.computation
  mem_edges_iff : ∀ edge, before.Reaches edge.target id →
    (edge ∈ after.edges ↔ edge ∈ before.edges)
  feed_eq : ∀ origin, before.Reaches origin id → before.op? origin = some .parameter →
    feeds' origin = feeds origin

omit [Scalar α] in
/-- It is enough to compare the nodes of a list that holds what they read. -/
theorem sharesOrigins_of_closed {origins : List NodeId} (listed : id ∈ origins)
    (closed : ∀ edge ∈ before.edges, edge.target ∈ origins → edge.source.node ∈ origins)
    (computation_eq : ∀ origin ∈ origins,
      (after.node? origin).map Node.computation = (before.node? origin).map Node.computation)
    (edges_perm : (after.edges.filter fun edge => edge.target ∈ origins).Perm
      (before.edges.filter fun edge => edge.target ∈ origins))
    (feed_eq : ∀ origin ∈ origins, feeds' origin = feeds origin) :
    before.SharesOrigins after feeds feeds' id := by
  have inside : ∀ origin, before.Reaches origin id → origin ∈ origins := by
    intro origin reaches
    induction reaches using Relation.ReflTransGen.head_induction_on with
    | refl => exact listed
    | head reads _ induction =>
        obtain ⟨edge, member, rfl, rfl⟩ := reads
        exact closed edge member induction
  refine ⟨fun origin reaches => computation_eq origin (inside origin reaches), ?_,
    fun origin reaches _ => feed_eq origin (inside origin reaches)⟩
  intro edge reaches
  simpa [inside edge.target reaches] using edges_perm.mem_iff (a := edge)

omit [Scalar α] in
theorem SharesOrigins.of_reads {source : NodeId}
    (shares : before.SharesOrigins after feeds feeds' id) (reads : before.Reads source id) :
    before.SharesOrigins after feeds feeds' source where
  computation_eq := fun origin reaches => shares.computation_eq origin (reaches.tail reads)
  mem_edges_iff := fun edge reaches => shares.mem_edges_iff edge (reaches.tail reads)
  feed_eq := fun origin reaches => shares.feed_eq origin (reaches.tail reads)

omit [Scalar α] in
theorem SharesOrigins.exists_node (shares : before.SharesOrigins after feeds feeds' id)
    {node : Node α} (found : before.node? id = some node) :
    ∃ other, after.node? id = some other ∧ other.computation = node.computation := by
  have same := shares.computation_eq id Relation.ReflTransGen.refl
  rw [found] at same
  exact Option.map_eq_some_iff.mp same

/-- A value depends on the origins of its node only. -/
theorem HasValue.of_sharesOrigins (distinctBefore : ∀ id, before.HasDistinctSlots id)
    (distinctAfter : ∀ id, after.HasDistinctSlots id) (has : before.HasValue feeds id value)
    (shares : before.SharesOrigins after feeds feeds' id) : after.HasValue feeds' id value := by
  induction has with
  | @compute id node inputs value found length_eq known computed induction =>
      obtain ⟨other, present, same⟩ := shares.exists_node found
      obtain ⟨op_eq, integral_eq⟩ := Prod.mk.inj same
      have inputs_eq : after.inputs id = before.inputs id :=
        inputs_eq_of_edges (distinctBefore id) (distinctAfter id) fun edge target =>
          shares.mem_edges_iff edge (target ▸ Relation.ReflTransGen.refl)
      have length_eq : (after.inputs id).length = inputs.length := by rw [inputs_eq, length_eq]
      refine .compute present length_eq ?known ?computed
      case known =>
        intro position output input read given
        rw [inputs_eq] at read
        exact induction position output input read given
          (shares.of_reads (reads_of_mem_inputs (List.mem_of_getElem? read)))
      case computed =>
        rw [op_eq, integral_eq, ← computed]
        by_cases isParameter : node.op = .parameter
        · have isOp : before.op? id = some .parameter := by
            rw [op?, found, Option.map_some, isParameter]
          rw [shares.feed_eq id Relation.ReflTransGen.refl isOp]
        · exact Op.evaluate_eq_of_ne_parameter isParameter ..

theorem SharesOrigins.value_eq (shares : before.SharesOrigins after feeds feeds' id)
    (distinctBefore : ∀ id, before.HasDistinctSlots id)
    (distinctAfter : ∀ id, after.HasDistinctSlots id)
    (evaluated : before.evaluate feeds = .ok values)
    (evaluated' : after.evaluate feeds' = .ok values') : values' id = values id := by
  cases isValue : values id with
  | some value =>
      have has := hasValue_of_evaluate evaluated isValue
      exact (has.of_sharesOrigins distinctBefore distinctAfter shares).value_eq evaluated'
  | none =>
      have dead := (isSolution_of_evaluate evaluated).defined id
      have missing := (isSolution_of_evaluate evaluated').defined id
      have same := congrArg Option.isSome (shares.computation_eq id Relation.ReflTransGen.refl)
      rw [Option.isSome_map, Option.isSome_map] at same
      rw [contains, same, ← contains, ← dead, isValue] at missing
      simpa using missing

/-- Evaluation finds the one solution of the equations of a graph whose nodes have distinct
input slots. Any topological order leads to it. A graph that agrees on what a node depends on
gives the node the same value, whatever its other nodes are. -/
theorem solution_of_evaluate (distinct : ∀ id, graph.HasDistinctSlots id)
    (evaluated : graph.evaluate feeds = .ok values) :
    graph.IsSolution feeds values ∧
      (∀ other, graph.IsSolution feeds other → other = values) ∧
      (∀ order, graph.IsTopological order → graph.evaluateAlong feeds order .none = .ok values) ∧
      ∀ (after : Graph α) (feeds' values' : Assignment α), (∀ id, after.HasDistinctSlots id) →
        after.evaluate feeds' = .ok values' →
        ∀ id, graph.SharesOrigins after feeds feeds' id → values' id = values id := by
  refine ⟨isSolution_of_evaluate evaluated, ?unique, ?order, ?origins⟩
  case unique => exact fun other solution => solution.eq_of_evaluate distinct evaluated
  case order =>
    intro order topological
    rw [← Assignment.only_nil values]
    exact topological.evaluateAlong_eq rfl evaluated
  case origins =>
    exact fun after feeds' values' distinctAfter evaluated' id shares =>
      shares.value_eq distinct distinctAfter evaluated evaluated'

/-- An input less one, rectified or doubled. -/
def rectifiedDifference : List (Draft Rat) :=
  [{ op := .parameter, name := "input"
     declared := some { elementType := .f32, shape := [2] } },
    (Op.constant (.scalar .f32 1)).draft "one",
    (Op.subtract.draft "difference").readOutputs [(NodeId.mk 0).output, (NodeId.mk 1).output],
    (Op.relu.draft "rectified").readOutputs [(NodeId.mk 2).output],
    (Op.result.draft "output").readOutputs [(NodeId.mk 3).output]]

def doubledDifference : List (Draft Rat) :=
  rectifiedDifference.take 3 ++
    [(Op.constant (.scalar .f32 2)).draft "two",
      (Op.multiply.draft "doubled").readOutputs [(NodeId.mk 2).output, (NodeId.mk 3).output],
      (Op.result.draft "output").readOutputs [(NodeId.mk 4).output]]

/-- The difference is the same in both graphs, and the input may be computed first. -/
theorem solution_rectifiedDifference :
    ∃ graph after feeds values values', Graph.empty.addAll rectifiedDifference = .ok graph ∧
      Graph.empty.addAll doubledDifference = .ok after ∧ (∀ id, graph.HasDistinctSlots id) ∧
      graph.evaluate feeds = .ok values ∧ after.evaluate feeds = .ok values' ∧
      graph.IsSolution feeds values ∧
      graph.topologicalOrder = .ok ([1, 0, 2, 3, 4].map NodeId.mk) ∧
      graph.evaluateAlong feeds ([0, 1, 2, 3, 4].map NodeId.mk) .none = .ok values ∧
      values' (NodeId.mk 2) = values (NodeId.mk 2) := by
  let feeds : Assignment Rat := Assignment.none.set (NodeId.mk 0)
    { shape := [2], data := #[0, 3], size_data := rfl }
  let order := [0, 1, 2, 3, 4].map NodeId.mk
  let origins := [0, 1, 2].map NodeId.mk
  have ordered : ∀ draft ∈ rectifiedDifference ++ doubledDifference, draft.IsInOrder := by decide
  have made : ((Graph.empty.addAll rectifiedDifference).bind fun graph =>
      (Graph.empty.addAll doubledDifference).map fun after =>
        ((graph.topologicalOrder, graph.nodeIds, decide (graph.IsForward order),
          decide (∀ edge ∈ graph.edges, edge.target ∈ origins → edge.source.node ∈ origins),
          decide (origins.map (fun origin => (after.node? origin).map Node.computation) =
            origins.map fun origin => (graph.node? origin).map Node.computation),
          decide ((after.edges.filter fun edge => edge.target ∈ origins) =
            graph.edges.filter fun edge => edge.target ∈ origins)),
          (graph.evaluate feeds).map fun _ => (), (after.evaluate feeds).map fun _ => ())) =
      .ok ((.ok ([1, 0, 2, 3, 4].map NodeId.mk), order, true, true, true, true), .ok (),
        .ok ()) := by
    cbv
  obtain ⟨graph, added, made⟩ := Outcome.bind_eq_ok.mp made
  obtain ⟨after, added', made⟩ := Outcome.map_eq_ok.mp made
  simp only [Prod.mk.injEq, decide_eq_true_eq] at made
  obtain ⟨⟨found, listed, forward, closed, computation_eq, edges_eq⟩, evaluated, evaluated'⟩ := made
  obtain ⟨values, evaluated, _⟩ := Outcome.map_eq_ok.mp evaluated
  obtain ⟨values', evaluated', _⟩ := Outcome.map_eq_ok.mp evaluated'
  have wellFormed := Graph.wellFormed_empty.addAll
    (fun draft member => ordered draft (List.mem_append_left _ member)) added
  have wellFormed' := Graph.wellFormed_empty.addAll
    (fun draft member => ordered draft (List.mem_append_right _ member)) added'
  have distinct (id : NodeId) := (wellFormed.exact id).hasDistinctSlots
  have distinct' (id : NodeId) := (wellFormed'.exact id).hasDistinctSlots
  obtain ⟨solution, _, along, locally⟩ := solution_of_evaluate distinct evaluated
  have topological : graph.IsTopological order :=
    ⟨by decide, fun id => by rw [← listed, mem_nodeIds], forward⟩
  have shares : graph.SharesOrigins after feeds feeds (NodeId.mk 2) :=
    sharesOrigins_of_closed (by decide) closed (List.map_inj_left.mp computation_eq)
      (edges_eq ▸ List.Perm.refl _) fun _ _ => rfl
  exact ⟨graph, after, feeds, values, values', added, added', distinct, evaluated, evaluated',
    solution, found, along order topological,
    locally after feeds values' distinct' evaluated' _ shares⟩

end Graph

end QuantGraph
