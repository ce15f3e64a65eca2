import QuantGraph.Proofs.Evaluation.Values
import QuantGraph.Proofs.Graph.Evolution

/-! The value of one node, whatever becomes of the rest of its graph. It is derived from the
values of the nodes that the node reads, there is one at most, and where the whole graph can
be evaluated it is the value that evaluation gives. A revision that leaves alone what a node
depends on leaves its value alone. -/

namespace QuantGraph

namespace Graph

variable [Scalar α]

/-- A node has a value when its operation computes it from values of what the node reads. -/
inductive HasValue (graph : Graph α) (feeds : Assignment α) : NodeId → NDArray α → Prop
  | compute {id : NodeId} {node : Node α} {inputs : List (NDArray α)} {value : NDArray α}
      (found : graph.node? id = some node) (length_eq : (graph.inputs id).length = inputs.length)
      (known : ∀ (position : Nat) output input, (graph.inputs id)[position]? = some output →
        inputs[position]? = some input → HasValue graph feeds output.node input)
      (computed : node.op.evaluate node.elementType.isIntegral inputs (feeds id) = .ok value) :
      HasValue graph feeds id value

variable {graph before after : Graph α} {feeds values : Assignment α} {id : NodeId}
  {value : NDArray α}

/-- Inputs are values of the outputs that a node reads. -/
def Derives (graph : Graph α) (feeds : Assignment α) (outputs : List Output)
    (inputs : List (NDArray α)) : Prop :=
  List.Forall₂ (fun output input => graph.HasValue feeds output.node input) outputs inputs

theorem forall₂_of_getElem? {relation : β → γ → Prop} {left : List β} {right : List γ}
    (length_eq : left.length = right.length)
    (each : ∀ (position : Nat) first second, left[position]? = some first →
      right[position]? = some second → relation first second) :
    List.Forall₂ relation left right := by
  refine List.forall₂_iff_get.mpr ⟨length_eq, fun position leftBound rightBound => ?_⟩
  exact each position _ _ (List.getElem?_eq_getElem leftBound) (List.getElem?_eq_getElem rightBound)

theorem exists_getElem?_of_length_eq {left : List β} {right : List γ}
    (length_eq : left.length = right.length) {position : Nat} {second : γ}
    (isSecond : right[position]? = some second) : ∃ first, left[position]? = some first := by
  obtain ⟨bound, _⟩ := List.getElem?_eq_some_iff.mp isSecond
  exact ⟨_, List.getElem?_eq_getElem (length_eq ▸ bound)⟩

theorem related_of_getElem? {relation : β → γ → Prop} {left : List β} {right : List γ}
    (related : List.Forall₂ relation left right) {position : Nat} {first : β} {second : γ}
    (isFirst : left[position]? = some first) (isSecond : right[position]? = some second) :
    relation first second := by
  obtain ⟨leftBound, rfl⟩ := List.getElem?_eq_some_iff.mp isFirst
  obtain ⟨rightBound, rfl⟩ := List.getElem?_eq_some_iff.mp isSecond
  exact related.get leftBound rightBound

theorem hasValue_iff :
    graph.HasValue feeds id value ↔
      ∃ node inputs, graph.node? id = some node ∧ graph.Derives feeds (graph.inputs id) inputs ∧
        node.op.evaluate node.elementType.isIntegral inputs (feeds id) = .ok value := by
  constructor
  · rintro ⟨found, length_eq, known, computed⟩
    exact ⟨_, _, found, forall₂_of_getElem? length_eq known, computed⟩
  · rintro ⟨node, inputs, found, derives, computed⟩
    exact .compute found derives.length_eq
      (fun position output input read given => related_of_getElem? derives read given) computed

/-- A node has one value at most. -/
theorem HasValue.unique {other : NDArray α} (left : graph.HasValue feeds id value)
    (right : graph.HasValue feeds id other) : value = other := by
  induction left generalizing other with
  | @compute id node inputs value found length_eq known computed induction =>
      obtain ⟨_, inputs', present, derives, computed'⟩ := hasValue_iff.mp right
      cases Option.some.inj (found.symm.trans present)
      have same : inputs = inputs' := by
        refine List.ext_getElem (length_eq.symm.trans derives.length_eq) fun position bound bound' => ?_
        have read : position < (graph.inputs id).length := length_eq ▸ bound
        exact induction position _ _ (List.getElem?_eq_getElem read)
          (List.getElem?_eq_getElem bound) (derives.get read bound')
      subst same
      exact Except.ok.inj (computed.symm.trans computed')

theorem hasValue_of_constant {tensor : Tensor α} (isOp : graph.op? id = some (.constant tensor))
    (alone : graph.inputs id = []) : graph.HasValue feeds id tensor.values := by
  obtain ⟨node, found, isConstant⟩ := Option.map_eq_some_iff.mp isOp
  refine hasValue_iff.mpr ⟨node, [], found, alone ▸ List.Forall₂.nil, ?_⟩
  rw [isConstant]
  rfl

theorem HasValue.eq_of_constant {tensor : Tensor α} (has : graph.HasValue feeds id value)
    (isConstant : graph.constant? id = some tensor) : value = tensor.values := by
  obtain ⟨node, inputs, found, _, computed⟩ := hasValue_iff.mp has
  obtain ⟨_, present, isOp⟩ := Option.map_eq_some_iff.mp (constant?_eq_some_iff.mp isConstant)
  cases Option.some.inj (found.symm.trans present)
  rw [isOp] at computed
  exact (Except.ok.inj computed).symm

/-- A value stays when nothing changes among the nodes from which it is derived. -/
theorem HasValue.congr (kept : NodeId → Prop)
    (same : ∀ id, kept id → after.node? id = before.node? id ∧ after.inputs id = before.inputs id)
    (closed : ∀ id, kept id → ∀ output ∈ before.inputs id, kept output.node)
    (has : before.HasValue feeds id value) (isKept : kept id) : after.HasValue feeds id value := by
  induction has with
  | @compute id node inputs value found length_eq known computed induction =>
      obtain ⟨node_eq, inputs_eq⟩ := same id isKept
      refine .compute (node_eq.trans found) (inputs_eq ▸ length_eq) ?_ computed
      intro position output input read given
      rw [inputs_eq] at read
      exact induction position output input read given
        (closed id isKept output (List.mem_of_getElem? read))

/-! ## Revisions -/

section Revisions

variable {old new : NodeId}

theorem HasValue.live (has : graph.HasValue feeds id value) : graph.contains id = true := by
  obtain ⟨node, _, found, _⟩ := hasValue_iff.mp has
  exact contains_of_node? found

theorem Grows.hasValue (grows : before.Grows after) (consistent : before.IsConsistent)
    (has : before.HasValue feeds id value) : after.HasValue feeds id value := by
  refine has.congr (fun id => before.contains id = true) ?_ ?_ has.live
  · exact fun id live => ⟨grows.node_eq id live, grows.inputs_eq live⟩
  · exact fun id _ output member => (consistent.reads_live (reads_of_mem_inputs member)).1

/-- A declaration for one node leaves alone the values of the nodes that do not depend on it. -/
theorem Declares.hasValue {change : Node α → Node α} (declares : before.Declares old change after)
    (has : before.HasValue feeds id value) (independent : before.Independent old id) :
    after.HasValue feeds id value := by
  refine has.congr (fun id => before.Independent old id) ?_ ?_ independent
  · intro id independent
    have different : id ≠ old := by
      rintro rfl
      exact independent Relation.ReflTransGen.refl
    refine ⟨by rw [declares.node_eq, if_neg different], ?_⟩
    rw [inputs, inputs, incoming, incoming, declares.edges_eq]
  · exact fun id independent output member => independent.of_reads (reads_of_mem_inputs member)

/-- What is left has the value that it had. -/
theorem Sheds.hasValue {start : NodeId} (sheds : before.Sheds start after)
    (has : before.HasValue feeds id value) (live : after.contains id = true) :
    after.HasValue feeds id value :=
  has.congr (fun id => after.contains id = true)
    (fun id live => ⟨sheds.node_eq id live, sheds.inputs_eq live⟩)
    (fun _ live _ member => sheds.keeps_sources live (reads_of_mem_inputs member)) live

/-- A redirection leaves alone the values of the nodes that do not depend on the old node. -/
theorem HasValue.redirect (has : before.HasValue feeds id value)
    (independent : before.Independent old id) :
    (before.redirect old new).HasValue feeds id value := by
  refine has.congr (fun id => before.Independent old id) ?_ ?_ independent
  · intro id independent
    exact ⟨node?_redirect before old new id, inputs_redirect_of_not_reads fun reads =>
      independent (Relation.ReflTransGen.single reads)⟩
  · exact fun id independent output member => independent.of_reads (reads_of_mem_inputs member)

/-- A replacement of one node leaves alone the values of the nodes that do not depend on it. -/
theorem Replaces.hasValue (replaces : before.Replaces old new after)
    (has : before.HasValue feeds id value) (independent : before.Independent old id)
    (live : after.contains id = true) : after.HasValue feeds id value :=
  replaces.sheds.hasValue (has.redirect independent) live

/-- Where two nodes have the same value, one may take the place of the other. -/
theorem Replaces.hasValue_of_same (replaces : before.Replaces old new after)
    (wellFormed : before.WellFormed) {common : NDArray α} (hasOld : before.HasValue feeds old common)
    (hasNew : before.HasValue feeds new common) (has : before.HasValue feeds id value)
    (live : after.contains id = true) : after.HasValue feeds id value := by
  induction has with
  | @compute id node inputs value found length_eq known computed induction =>
      by_cases isNew : id = new
      · subst isNew
        exact replaces.hasValue (.compute found length_eq known computed)
          replaces.apart live
      have inputs_eq := replaces.inputs_eq (wellFormed.exact id) live
      rw [if_neg isNew] at inputs_eq
      refine .compute ((replaces.node_eq live).trans found) ?_ ?_ computed
      · rw [inputs_eq, List.length_map, length_eq]
      · intro position output input read given
        have kept := (replaces.wellFormed.consistent.reads_live
          (reads_of_mem_inputs (List.mem_of_getElem? read))).1
        rw [inputs_eq, List.getElem?_map] at read
        obtain ⟨earlier, isRead, rfl⟩ := Option.map_eq_some_iff.mp read
        have has := known position earlier input isRead given
        unfold renamed at kept ⊢
        split
        case isTrue isOld =>
          rw [if_pos isOld] at kept
          rw [isOld] at has
          rw [has.unique hasOld]
          exact replaces.hasValue hasNew replaces.apart kept
        case isFalse other =>
          rw [if_neg other] at kept
          exact induction position earlier input isRead given kept

end Revisions

/-! ## Evaluation -/

theorem HasValue.value_eq (has : graph.HasValue feeds id value)
    (evaluated : graph.evaluate feeds = .ok values) : values id = some value := by
  induction has with
  | @compute id node inputs value found length_eq known computed induction =>
      obtain ⟨result, isResult, evaluation⟩ :=
        evaluateNode_of_evaluate evaluated (contains_of_node? found)
      obtain ⟨_, inputs', present, carries, computed'⟩ := evaluateNode_eq_ok.mp evaluation
      cases Option.some.inj (found.symm.trans present)
      have known : Carries values (graph.inputs id) inputs :=
        forall₂_of_getElem? length_eq induction
      cases known.unique carries
      rw [isResult, ← Except.ok.inj (computed.symm.trans computed')]

theorem hasValue_of_evaluate (evaluated : graph.evaluate feeds = .ok values)
    (isValue : values id = some value) : graph.HasValue feeds id value := by
  obtain ⟨order, found, solves⟩ := solves_of_evaluate evaluated
  -- Sources come before their readers, so the place in the order can be induced on.
  induction place : order.idxOf id using Nat.strongRecOn generalizing id value with
  | ind place induction =>
      have listed : id ∈ order := by
        by_contra missing
        rw [solves.unlisted id missing] at isValue
        cases isValue
      obtain ⟨result, isResult, evaluation⟩ := solves.value id listed
      cases Option.some.inj (isValue.symm.trans isResult)
      obtain ⟨node, inputs, present, carries, computed⟩ := evaluateNode_eq_ok.mp evaluation
      refine hasValue_iff.mpr ⟨node, inputs, present, ?_, computed⟩
      refine forall₂_of_getElem? carries.length_eq fun position output input read given => ?_
      obtain ⟨edge, member, source, target⟩ := mem_inputs_iff_edge.mp (List.mem_of_getElem? read)
      have forward := isForward_of_topologicalOrder found edge member
      rw [source, target, place] at forward
      obtain ⟨other, isOther, known⟩ := carries.getElem? read
      cases Option.some.inj (given.symm.trans isOther)
      exact induction _ forward known rfl

/-- Where a graph can be evaluated, the values of its nodes are those that evaluation gives. -/
theorem hasValue_iff_of_evaluate (evaluated : graph.evaluate feeds = .ok values) :
    graph.HasValue feeds id value ↔ values id = some value :=
  ⟨fun has => has.value_eq evaluated, hasValue_of_evaluate evaluated⟩

/-- All nodes have values. -/
def HasValues (graph : Graph α) (feeds : Assignment α) : Prop :=
  ∀ id, graph.contains id = true → ∃ value, graph.HasValue feeds id value

theorem hasValues_of_evaluate (evaluated : graph.evaluate feeds = .ok values) :
    graph.HasValues feeds := by
  intro id live
  obtain ⟨value, isValue, _⟩ := evaluateNode_of_evaluate evaluated live
  exact ⟨value, hasValue_of_evaluate evaluated isValue⟩

theorem Gains.hasValues {draft : Draft α} {outputs : List Output}
    (gains : before.Gains draft outputs id after) (consistent : before.IsConsistent)
    (all : before.HasValues feeds) (has : after.HasValue feeds id value) :
    after.HasValues feeds := by
  intro other live
  rcases gains.contains_iff.mp live with rfl | earlier
  · exact ⟨value, has⟩
  · obtain ⟨value, has⟩ := all other earlier
    exact ⟨value, gains.grows.hasValue consistent has⟩

theorem Adds.hasValues {draft : Draft α} {outputs : List Output}
    (adds : before.Adds draft outputs id after) (consistent : before.IsConsistent)
    (all : before.HasValues feeds) (has : after.HasValue feeds id value) :
    after.HasValues feeds :=
  adds.gains.hasValues consistent all has

/-- A graph can be evaluated when all of its nodes have values. -/
theorem IsAcyclic.exists_evaluate_of_hasValues (acyclic : graph.IsAcyclic)
    (consistent : graph.IsConsistent) (all : graph.HasValues feeds) :
    ∃ values, graph.evaluate feeds = .ok values := by
  have step : ∀ values id, graph.contains id = true →
      (∀ output ∈ graph.inputs id, ∃ value, values output.node = some value ∧
        graph.HasValue feeds output.node value) →
      ∃ value, graph.evaluateNode feeds values id = .ok value ∧ graph.HasValue feeds id value := by
    intro values id live known
    obtain ⟨value, has⟩ := all id live
    obtain ⟨node, inputs, found, derives, computed⟩ := hasValue_iff.mp has
    refine ⟨value, evaluateNode_eq_ok.mpr ⟨node, inputs, found, ?_, computed⟩, has⟩
    refine forall₂_of_getElem? derives.length_eq fun position output input read given => ?_
    obtain ⟨other, isOther, hasOther⟩ := known output (List.mem_of_getElem? read)
    rw [isOther, hasOther.unique (related_of_getElem? derives read given)]
  obtain ⟨values, evaluated, _⟩ :=
    @IsAcyclic.exists_evaluate _ _ _ feeds (graph.HasValue feeds) acyclic consistent step
  exact ⟨values, evaluated⟩

theorem exists_evaluate_of_hasValues (wellFormed : graph.WellFormed) (all : graph.HasValues feeds) :
    ∃ values, graph.evaluate feeds = .ok values :=
  wellFormed.acyclic.exists_evaluate_of_hasValues wellFormed.consistent all

end Graph

end QuantGraph
