import Mathlib
import QuantGraph.Proofs.Evaluation.Operation
import QuantGraph.Proofs.Evaluation.Values
import QuantGraph.Proofs.Graph.Construction
import QuantGraph.Scalar.Exact

/-! Inference foretells evaluation. In a graph whose shapes are inferred, every node has a
value, and the value has the shape that the node declares. -/

namespace QuantGraph

namespace Graph

/-- The types of the outputs that exist. -/
def typesOf (graph : Graph α) (outputs : List Output) : List ValueType :=
  outputs.filterMap fun output => (graph.node? output.node).map Node.valueType

/-- The shapes of what a node reads. -/
def inputShapes (graph : Graph α) (id : NodeId) : List Shape :=
  (graph.typesOf (graph.inputs id)).map ValueType.shape

/-- Every node but the parameters has the shape that its operation infers from what it
reads. -/
def IsInferred (graph : Graph α) : Prop :=
  ∀ id node, graph.node? id = some node → node.op.kind ≠ .parameter →
    (node.op.infer (graph.typesOf (graph.inputs id))).map ValueType.shape = .ok node.shape

theorem isInferred_iff_nodeIds {graph : Graph α} : graph.IsInferred ↔
    ∀ id ∈ graph.nodeIds, ∀ node ∈ graph.node? id, node.op.kind ≠ .parameter →
      ((node.op.infer (graph.typesOf (graph.inputs id))).map ValueType.shape).toOption =
        some node.shape := by
  constructor
  · intro inferred id _ node found notParameter
    rw [inferred id node found notParameter]
    rfl
  · intro each id node found notParameter
    have shape := each id (mem_nodeIds.mpr (contains_of_node? found)) node found notParameter
    cases inferred : (node.op.infer (graph.typesOf (graph.inputs id))).map ValueType.shape with
    | error => rw [inferred] at shape; cases shape
    | ok => rw [inferred] at shape; cases shape; rfl

instance (graph : Graph α) : Decidable graph.IsInferred :=
  decidable_of_iff _ isInferred_iff_nodeIds.symm

/-- Every operation is one that can be evaluated on inputs of the shapes that it reads, and
every shape can be addressed. -/
def IsEvaluable (graph : Graph α) : Prop :=
  ∀ id ∈ graph.nodeIds, ∀ node ∈ graph.node? id,
    node.shape.IsAddressable ∧ node.op.Accepts (graph.inputShapes id)

instance (graph : Graph α) : Decidable graph.IsEvaluable :=
  inferInstanceAs (Decidable (∀ id ∈ graph.nodeIds, ∀ node ∈ graph.node? id, _))

/-- Every parameter is fed an array of its shape. -/
def IsFed (graph : Graph α) (feeds : Assignment α) : Prop :=
  ∀ id ∈ graph.parameters, ∃ value, feeds id = some value ∧ graph.shape? id = some value.shape

instance (graph : Graph α) (feeds : Assignment α) : Decidable (graph.IsFed feeds) :=
  inferInstanceAs (Decidable (∀ id ∈ graph.parameters, ∃ value ∈ feeds id, _))

/-! ## Construction -/

section Construction

variable {graph before after : Graph α} {draft : Draft α} {outputs : List Output} {id : NodeId}

theorem typesOf_congr {left right : Graph α}
    (agree : ∀ output ∈ outputs, left.node? output.node = right.node? output.node) :
    left.typesOf outputs = right.typesOf outputs := by
  refine List.filterMap_congr fun output member => ?_
  rw [agree output member]

theorem isInferred_empty : (empty : Graph α).IsInferred := by
  intro id node found
  simp [empty, node?] at found

theorem sources_of_readsInOrder (reads : draft.ReadsInOrder outputs) :
    (orderedConnections draft).map Connection.source = outputs := by
  have increasing : draft.connections.Pairwise fun left right =>
      left.inputSlot.toNat ≤ right.inputSlot.toNat := by
    refine List.pairwise_map.mp ?_
    rw [reads.map_slots]
    exact List.pairwise_le_range
  rw [orderedConnections, StableSort.sortBy_of_pairwise increasing, reads.connections_eq,
    List.map_map]
  exact List.zipIdx_map_fst 0 outputs

theorem infer_of_draftedType {type : ValueType} (reads : draft.ReadsInOrder outputs)
    (undeclared : draft.declared = none) (drafted : graph.draftedType draft = .ok type) :
    draft.op.infer (graph.typesOf outputs) = .ok type := by
  unfold draftedType at drafted
  rw [undeclared] at drafted
  rw [← sources_of_readsInOrder reads, typesOf, List.filterMap_map]
  exact Outcome.mapError_eq_ok.mp drafted

theorem IsInferred.adds (inferred : before.IsInferred) (wellFormed : before.WellFormed)
    (reads : draft.ReadsInOrder outputs) (adds : before.Adds draft outputs id after)
    (undeclared : draft.op.kind ≠ .parameter → draft.declared = none) : after.IsInferred := by
  intro other node found notParameter
  by_cases new : other = id
  · subst new
    obtain ⟨type, drafted, present⟩ := adds.node_new
    cases Option.some.inj (found.symm.trans present)
    have types : after.typesOf outputs = before.typesOf outputs :=
      typesOf_congr fun output member =>
        adds.node_old output.node (adds.ne_of_live (adds.sources_live output member))
    have same := infer_of_draftedType reads (undeclared notParameter) drafted
    rw [adds.inputs_new, types]
    exact congrArg (Except.map ValueType.shape) same
  · have unchanged := adds.node_old other new
    have live : before.contains other = true := by
      rw [← contains_congr unchanged]
      exact contains_of_node? found
    have types : after.typesOf (before.inputs other) = before.typesOf (before.inputs other) := by
      refine typesOf_congr fun output member => adds.node_old output.node (adds.ne_of_live ?_)
      exact (wellFormed.consistent.reads_live (reads_iff_mem_inputs.mpr ⟨output, member, rfl⟩)).1
    rw [adds.inputs_old live, types]
    exact inferred other node (unchanged ▸ found) notParameter

theorem IsInferred.addAll (inferred : before.IsInferred) (wellFormed : before.WellFormed)
    {drafts : List (Draft α)} (ordered : ∀ draft ∈ drafts, draft.IsInOrder)
    (undeclared : ∀ draft ∈ drafts, draft.op.kind ≠ .parameter → draft.declared = none)
    (added : before.addAll drafts = .ok after) : after.IsInferred := by
  induction drafts generalizing before with
  | nil =>
      cases added
      exact inferred
  | cons draft rest induction =>
      rw [Graph.addAll, List.foldlM_cons] at added
      obtain ⟨middle, first, added⟩ := Outcome.bind_eq_ok.mp added
      obtain ⟨⟨id, larger⟩, inserted, rfl⟩ := Outcome.map_eq_ok.mp first
      have reads := ordered draft List.mem_cons_self
      have adds := adds_of_add wellFormed reads inserted
      exact induction
        (inferred.adds wellFormed reads adds (undeclared draft List.mem_cons_self)) adds.wellFormed
        (fun other member => ordered other (List.mem_cons_of_mem draft member))
        (fun other member => undeclared other (List.mem_cons_of_mem draft member)) added

end Construction

/-! ## Evaluation -/

section Evaluation

variable {graph : Graph α} {feeds values : Assignment α} {id : NodeId}

theorem exists_carries {outputs : List Output}
    (known : ∀ output ∈ outputs, ∃ value, values output.node = some value) :
    ∃ inputs, Carries values outputs inputs := by
  induction outputs with
  | nil => exact ⟨[], List.Forall₂.nil⟩
  | cons output rest induction =>
      obtain ⟨value, found⟩ := known output List.mem_cons_self
      obtain ⟨inputs, carries⟩ := induction fun other member =>
        known other (List.mem_cons_of_mem output member)
      exact ⟨value :: inputs, List.Forall₂.cons found carries⟩

/-- Inputs that have the shapes of their nodes fit the types of those nodes. -/
theorem fits_of_carries {outputs : List Output} {inputs : List (NDArray α)}
    (carries : Carries values outputs inputs)
    (shapes : ∀ output ∈ outputs, ∃ value, values output.node = some value ∧
      graph.shape? output.node = some value.shape) :
    Op.Fits (graph.typesOf outputs) inputs := by
  induction carries with
  | nil => rfl
  | @cons output input outputs inputs found _ induction =>
      obtain ⟨value, isValue, isShape⟩ := shapes output List.mem_cons_self
      cases Option.some.inj (found.symm.trans isValue)
      obtain ⟨node, present, shape⟩ := Option.map_eq_some_iff.mp isShape
      have rest := induction fun other member => shapes other (List.mem_cons_of_mem output member)
      have types : graph.typesOf (output :: outputs) = node.valueType :: graph.typesOf outputs := by
        simp [typesOf, present]
      rw [Op.Fits, types, List.map_cons, List.map_cons, rest]
      exact congrArg (· :: _) shape.symm

variable [Scalar α]

/-- A node whose inputs have their declared shapes has a value of its own. -/
theorem exists_evaluateNode (inferred : graph.IsInferred) (evaluable : graph.IsEvaluable)
    (fed : graph.IsFed feeds) (live : graph.contains id = true)
    (known : ∀ output ∈ graph.inputs id, ∃ value, values output.node = some value ∧
      graph.shape? output.node = some value.shape) :
    ∃ value, graph.evaluateNode feeds values id = .ok value ∧
      graph.shape? id = some value.shape := by
  obtain ⟨node, found⟩ := contains_eq_true_iff.mp live
  have isShape : graph.shape? id = some node.shape := by
    rw [shape?, found, Option.map_some]
  obtain ⟨inputs, carries⟩ := exists_carries fun output member => by
    obtain ⟨value, isValue, _⟩ := known output member
    exact ⟨value, isValue⟩
  obtain ⟨addressable, accepts⟩ := evaluable id (mem_nodeIds.mpr live) node found
  by_cases isParameter : node.op.kind = .parameter
  · have listed : id ∈ graph.parameters := by
      refine List.mem_filter.mpr ⟨mem_nodeIds.mpr live, ?_⟩
      simp [isKind, kind?, found, Node.kind, isParameter]
    obtain ⟨value, isFeed, shape⟩ := fed id listed
    refine ⟨value, evaluateNode_eq_ok.mpr ⟨node, inputs, found, carries, ?_⟩, shape⟩
    rw [isFeed]
    exact Op.evaluate_parameter isParameter
  · obtain ⟨type, isType, shape⟩ := Outcome.map_eq_ok.mp (inferred id node found isParameter)
    have inputsAddressable (input : ValueType) (member : input ∈ graph.typesOf (graph.inputs id)) :
        input.shape.IsAddressable := by
      obtain ⟨output, _, isInput⟩ := List.mem_filterMap.mp member
      obtain ⟨source, present, rfl⟩ := Option.map_eq_some_iff.mp isInput
      exact (evaluable output.node (mem_nodeIds.mpr (contains_of_node? present)) source present).1
    obtain ⟨value, computed, value_shape⟩ := Op.exists_evaluate isParameter isType
      (fits_of_carries carries known) accepts (shape ▸ addressable) inputsAddressable
    exact ⟨value, evaluateNode_eq_ok.mpr ⟨node, inputs, found, carries, computed⟩,
      isShape.trans (congrArg some (shape.symm.trans value_shape.symm))⟩

theorem IsInferred.exists_evaluate (inferred : graph.IsInferred) (wellFormed : graph.WellFormed)
    (evaluable : graph.IsEvaluable) (fed : graph.IsFed feeds) :
    ∃ values, graph.evaluate feeds = .ok values ∧ ∀ id, graph.contains id = true →
      ∃ value, values id = some value ∧ graph.shape? id = some value.shape :=
  wellFormed.acyclic.exists_evaluate wellFormed.consistent fun _ _ live known =>
    exists_evaluateNode inferred evaluable fed live known

/-- In a graph that was made by adding nodes, with outputs declared for parameters alone,
every node has a value of the shape that was inferred for it, whatever arrays are fed. -/
theorem exists_evaluate_addAll {drafts : List (Draft α)}
    (added : Graph.empty.addAll drafts = .ok graph)
    (exact : ∀ draft ∈ drafts, draft.HasExactSlots)
    (undeclared : ∀ draft ∈ drafts, draft.op.kind ≠ .parameter → draft.declared = none)
    (evaluable : graph.IsEvaluable) (fed : graph.IsFed feeds) :
    ∃ values, graph.evaluate feeds = .ok values ∧ ∀ id, graph.contains id = true →
      ∃ value, values id = some value ∧ graph.shape? id = some value.shape := by
  rw [← addAll_sorted] at added
  have ordered : ∀ draft ∈ drafts.map Draft.sorted, draft.IsInOrder := by
    intro sorted member
    obtain ⟨draft, listed, rfl⟩ := List.mem_map.mp member
    exact (exact draft listed).isInOrder
  have undeclared : ∀ draft ∈ drafts.map Draft.sorted,
      draft.op.kind ≠ .parameter → draft.declared = none := by
    intro sorted member
    obtain ⟨draft, listed, rfl⟩ := List.mem_map.mp member
    exact undeclared draft listed
  have inferred := isInferred_empty.addAll wellFormed_empty ordered undeclared added
  exact inferred.exists_evaluate (wellFormed_empty.addAll ordered added) evaluable fed

/-- An image with two channels, quantized, pooled in two ways, put side by side and
multiplied with a matrix. The quantization lists its connections from the last slot. -/
def pooledImage : List (Draft Rat) :=
  let repeated (name : String) (shape : Shape) (value : Rat) : Draft Rat :=
    (Op.constant { elementType := .f32, values := .replicate shape value }).draft name
  let image := (NodeId.mk 0).output
  let low := (NodeId.mk 1).output
  let high := (NodeId.mk 2).output
  [{ op := .parameter, name := "image"
     declared := some { elementType := .f32, shape := [1, 2, 4, 4] } },
    repeated "low" [] 0, repeated "high" [1, 2, 1, 1] 255,
    { op := .fakeQuantize 256, name := "quantized"
      connections := [⟨high, 4⟩, ⟨low, 3⟩, ⟨high, 2⟩, ⟨low, 1⟩, ⟨image, 0⟩] },
    ((Op.maxPool { height := 2, width := 2 }).draft "largest").readAll [NodeId.mk 3],
    ((Op.avgPool { height := 2, width := 2 }).draft "mean").readAll [NodeId.mk 3],
    ((Op.concat 1).draft "joined").readAll [NodeId.mk 4, NodeId.mk 5],
    (Op.relu.draft "positive").readAll [NodeId.mk 6],
    ((Op.squeeze [0]).draft "channels").readAll [NodeId.mk 7],
    ((Op.transpose [1, 2, 0]).draft "transposed").readAll [NodeId.mk 8],
    ((Op.reshape [2, 8]).draft "rows").readAll [NodeId.mk 9],
    repeated "weights" [8, 3] 2,
    (Op.matMul.draft "product").readAll [NodeId.mk 10, NodeId.mk 11],
    (Op.add.draft "shifted").readAll [NodeId.mk 12, NodeId.mk 1],
    ((Op.unsqueeze [0]).draft "stacked").readAll [NodeId.mk 13],
    (Op.result.draft "output").readAll [NodeId.mk 14]]

theorem exists_evaluate_pooledImage :
    ∃ graph feeds, Graph.empty.addAll pooledImage = .ok graph ∧
      (∀ draft ∈ pooledImage, draft.HasExactSlots) ∧
      (∀ draft ∈ pooledImage, draft.op.kind ≠ .parameter → draft.declared = none) ∧
      graph.IsEvaluable ∧ graph.IsFed feeds ∧ graph.shape? (NodeId.mk 15) = some [1, 2, 3] ∧
      ∃ values, graph.evaluate feeds = .ok values ∧ ∀ id, graph.contains id = true →
        ∃ value, values id = some value ∧ graph.shape? id = some value.shape := by
  have exact : ∀ draft ∈ pooledImage, draft.HasExactSlots := by decide
  have undeclared : ∀ draft ∈ pooledImage,
      draft.op.kind ≠ .parameter → draft.declared = none := by decide
  have made : (Graph.empty.addAll pooledImage).map (fun graph =>
      (decide graph.IsEvaluable, graph.parameters, graph.shape? (NodeId.mk 0),
        graph.shape? (NodeId.mk 15))) =
        .ok (true, [NodeId.mk 0], some [1, 2, 4, 4], some [1, 2, 3]) := by cbv
  obtain ⟨graph, added, facts⟩ := Outcome.map_eq_ok.mp made
  simp only [Prod.mk.injEq, decide_eq_true_eq] at facts
  obtain ⟨evaluable, parameters, image, output⟩ := facts
  let feeds : Assignment Rat := Assignment.none.set (NodeId.mk 0) (.replicate [1, 2, 4, 4] 3)
  have fed : graph.IsFed feeds := by
    intro id member
    rw [parameters, List.mem_singleton] at member
    subst member
    exact ⟨_, Assignment.set_same _ _ _, image⟩
  exact ⟨graph, feeds, added, exact, undeclared, evaluable, fed, output,
    exists_evaluate_addAll added exact undeclared evaluable fed⟩

end Evaluation

end Graph

end QuantGraph
