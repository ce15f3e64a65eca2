import QuantGraph.Evaluation
import QuantGraph.Proofs.Graph.Order
import QuantGraph.Proofs.Outcome

/-! Evaluation gives every node the value that its operation computes from the values of
the nodes it reads, and it succeeds when each node can be computed from those before it. -/

namespace QuantGraph

namespace Graph

variable [Scalar α] {graph : Graph α} {feeds values : Assignment α} {id : NodeId}

/-! ## One node -/

/-- Inputs are the values of the outputs that a node reads. -/
def Carries (values : Assignment α) (outputs : List Output) (inputs : List (NDArray α)) : Prop :=
  List.Forall₂ (fun output input => values output.node = some input) outputs inputs

omit [Scalar α] in
theorem Carries.getElem? {outputs : List Output} {inputs : List (NDArray α)}
    (carries : Carries values outputs inputs) {position : Nat} {output : Output}
    (found : outputs[position]? = some output) :
    ∃ input, inputs[position]? = some input ∧ values output.node = some input := by
  induction carries generalizing position with
  | nil => simp at found
  | @cons head input outputs inputs first _ induction =>
      cases position with
      | zero =>
          cases Option.some.inj found
          exact ⟨input, rfl, first⟩
      | succ position => exact induction found

omit [Scalar α] in
/-- A node reads one list of values. -/
theorem Carries.unique {outputs : List Output} {inputs others : List (NDArray α)}
    (carries : Carries values outputs inputs) (also : Carries values outputs others) :
    inputs = others := by
  induction carries generalizing others with
  | nil => exact (List.forall₂_nil_left_iff.mp also).symm
  | cons first _ induction =>
      obtain ⟨_, _, second, rest, rfl⟩ := List.forall₂_cons_left_iff.mp also
      rw [Option.some.inj (first.symm.trans second), induction rest]

theorem evaluateNode_eq_ok {value : NDArray α} :
    graph.evaluateNode feeds values id = .ok value ↔
      ∃ node inputs, graph.node? id = some node ∧ Carries values (graph.inputs id) inputs ∧
        node.op.evaluate node.elementType.isIntegral inputs (feeds id) = .ok value := by
  unfold evaluateNode
  cases found : graph.node? id with
  | none => simp
  | some node =>
      dsimp only
      rw [Outcome.bind_eq_ok]
      simp only [Outcome.mapM_eq_ok, Outcome.mapError_eq_ok]
      constructor
      · rintro ⟨inputs, read, computed⟩
        refine ⟨node, inputs, rfl, read.imp fun output input given => ?_, computed⟩
        split at given
        case h_1 value present => exact present.trans (congrArg some (Except.ok.inj given))
        case h_2 => cases given
      · rintro ⟨_, inputs, equal, carries, computed⟩
        cases Option.some.inj equal
        refine ⟨inputs, List.Forall₂.imp (fun output input present => ?_) carries, computed⟩
        rw [present]

/-- The value of a node depends on the values of the nodes it reads only. -/
theorem evaluateNode_congr {left right : Assignment α}
    (agree : ∀ output ∈ graph.inputs id, left output.node = right output.node) :
    graph.evaluateNode feeds left id = graph.evaluateNode feeds right id := by
  unfold evaluateNode
  cases graph.node? id with
  | none => rfl
  | some node =>
      dsimp only
      refine congrArg (· >>= _) (Outcome.mapM_congr fun output member => ?_)
      rw [agree output member]

/-! ## An order -/

omit [Scalar α] in
/-- In a topological order the nodes that a node reads come before it. -/
theorem mem_before_of_topologicalOrder {order before after : List NodeId}
    (found : graph.topologicalOrder = .ok order) (split : order = before ++ id :: after)
    {output : Output} (reads : output ∈ graph.inputs id) : output.node ∈ before :=
  (isTopological_of_topologicalOrder found).mem_before split reads

/-- The listed nodes, and no others, have the values that their operations compute. -/
structure Solves (graph : Graph α) (feeds : Assignment α) (listed : List NodeId)
    (values : Assignment α) : Prop where
  value : ∀ id ∈ listed, ∃ value, values id = some value ∧
    graph.evaluateNode feeds values id = .ok value
  unlisted : ∀ id, id ∉ listed → values id = none

theorem solves_nil (graph : Graph α) (feeds : Assignment α) : graph.Solves feeds [] .none where
  value := by simp
  unlisted := fun _ _ => rfl

/-- Each node is computed once, after those it reads, so that its value stays right. -/
theorem Solves.set {order before after : List NodeId} (solves : graph.Solves feeds before values)
    (found : graph.topologicalOrder = .ok order) (split : order = before ++ id :: after)
    {value : NDArray α} (computed : graph.evaluateNode feeds values id = .ok value) :
    graph.Solves feeds (before ++ [id]) (values.set id value) := by
  have fresh := (isTopological_of_topologicalOrder found).not_mem_before split
  have unchanged {other : NodeId} (earlier : ∀ output ∈ graph.inputs other, output.node ∈ before) :
      graph.evaluateNode feeds (values.set id value) other =
        graph.evaluateNode feeds values other := by
    refine evaluateNode_congr fun output member => ?_
    refine Assignment.set_other values value fun equal => ?_
    exact fresh (equal ▸ earlier output member)
  constructor
  case value =>
    intro other member
    rcases List.mem_append.mp member with member | member
    · obtain ⟨first, second, parts⟩ := List.append_of_mem member
      have earlier (output : Output) (reads : output ∈ graph.inputs other) :
          output.node ∈ before := by
        have listed := mem_before_of_topologicalOrder found
          (split.trans (by rw [parts, List.append_assoc]; rfl)) reads
        rw [parts]
        exact List.mem_append_left _ listed
      obtain ⟨known, isKnown, equation⟩ := solves.value other member
      have different : other ≠ id := fun equal => fresh (equal ▸ member)
      exact ⟨known, (Assignment.set_other values value different).trans isKnown,
        (unchanged earlier).trans equation⟩
    · cases List.mem_singleton.mp member
      exact ⟨value, Assignment.set_same values id value,
        (unchanged fun output => mem_before_of_topologicalOrder found split).trans computed⟩
  case unlisted =>
    intro other missing
    have different : other ≠ id := fun equal => missing (by simp [equal])
    rw [Assignment.set_other values value different]
    exact solves.unlisted other fun listed => missing (List.mem_append_left _ listed)

/-! ## A graph -/

theorem solves_of_evaluateAlong {order before rest : List NodeId} {result : Assignment α}
    (found : graph.topologicalOrder = .ok order) (split : order = before ++ rest)
    (solves : graph.Solves feeds before values)
    (evaluated : graph.evaluateAlong feeds rest values = .ok result) :
    graph.Solves feeds order result := by
  induction rest generalizing before values with
  | nil =>
      cases evaluated
      rw [split, List.append_nil]
      exact solves
  | cons head tail induction =>
      rw [evaluateAlong, List.foldlM_cons] at evaluated
      obtain ⟨extended, step, evaluated⟩ := Outcome.bind_eq_ok.mp evaluated
      obtain ⟨value, computed, step⟩ := Outcome.bind_eq_ok.mp step
      cases step
      exact induction (by rw [split, List.append_assoc]; rfl) (solves.set found split computed)
        evaluated

/-- Evaluation gives each node what its operation computes from the values of its inputs. -/
theorem solves_of_evaluate (evaluated : graph.evaluate feeds = .ok values) :
    ∃ order, graph.topologicalOrder = .ok order ∧ graph.Solves feeds order values := by
  obtain ⟨order, found, evaluated⟩ := Outcome.bind_eq_ok.mp evaluated
  have found := Outcome.mapError_eq_ok.mp found
  exact ⟨order, found, solves_of_evaluateAlong found rfl (solves_nil graph feeds) evaluated⟩

theorem evaluateNode_of_evaluate (evaluated : graph.evaluate feeds = .ok values)
    (live : graph.contains id = true) :
    ∃ value, values id = some value ∧ graph.evaluateNode feeds values id = .ok value := by
  obtain ⟨order, found, solves⟩ := solves_of_evaluate evaluated
  exact solves.value id (((nodup_of_topologicalOrder found).2 id).mpr live)

/-- A constant has the value that it holds. -/
theorem value_of_constant {tensor : Tensor α} (evaluated : graph.evaluate feeds = .ok values)
    (isConstant : graph.constant? id = some tensor) : values id = some tensor.values := by
  have isOp := constant?_eq_some_iff.mp isConstant
  obtain ⟨node, found, isTensor⟩ := Option.map_eq_some_iff.mp isOp
  obtain ⟨value, isValue, computed⟩ := evaluateNode_of_evaluate evaluated (contains_of_op? isOp)
  obtain ⟨_, inputs, present, _, computed⟩ := evaluateNode_eq_ok.mp computed
  cases Option.some.inj (found.symm.trans present)
  rw [isTensor] at computed
  exact isValue.trans (congrArg some (Except.ok.inj computed).symm)

/-- Evaluation succeeds when each node has a good value as soon as the nodes that it reads
have good values. -/
theorem IsAcyclic.exists_evaluate {Good : NodeId → NDArray α → Prop}
    (acyclic : graph.IsAcyclic) (consistent : graph.IsConsistent)
    (step : ∀ values id, graph.contains id = true →
      (∀ output ∈ graph.inputs id, ∃ value, values output.node = some value ∧
        Good output.node value) →
      ∃ value, graph.evaluateNode feeds values id = .ok value ∧ Good id value) :
    ∃ values, graph.evaluate feeds = .ok values ∧
      ∀ id, graph.contains id = true → ∃ value, values id = some value ∧ Good id value := by
  obtain ⟨order, found⟩ := acyclic.exists_topologicalOrder consistent
  have along (rest : List NodeId) : ∀ (before : List NodeId) (values : Assignment α),
      order = before ++ rest →
      (∀ id ∈ before, ∃ value, values id = some value ∧ Good id value) →
      ∃ result, graph.evaluateAlong feeds rest values = .ok result ∧
        ∀ id ∈ order, ∃ value, result id = some value ∧ Good id value := by
    induction rest with
    | nil =>
        intro before values split good
        exact ⟨values, rfl, by rwa [split, List.append_nil]⟩
    | cons head tail induction =>
        intro before values split good
        have live := ((nodup_of_topologicalOrder found).2 head).mp (by simp [split])
        obtain ⟨value, computed, isGood⟩ := step values head live fun output member =>
          good output.node (mem_before_of_topologicalOrder found split member)
        obtain ⟨result, evaluated, all⟩ := induction (before ++ [head]) (values.set head value)
          (by rw [split, List.append_assoc]; rfl) (by
            intro id member
            by_cases equal : id = head
            · subst equal
              exact ⟨value, Assignment.set_same values id value, isGood⟩
            · rw [Assignment.set_other values value equal]
              exact good id (by simpa [equal] using member))
        refine ⟨result, ?_, all⟩
        rw [evaluateAlong, List.foldlM_cons, computed]
        exact evaluated
  obtain ⟨values, evaluated, all⟩ := along order [] .none rfl (by simp)
  refine ⟨values, ?_, fun id live => all id (((nodup_of_topologicalOrder found).2 id).mpr live)⟩
  rw [evaluate, found]
  exact evaluated

end Graph

end QuantGraph
