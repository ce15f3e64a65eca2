import Mathlib
import QuantGraph.Proofs.Evaluation.Congruence
import QuantGraph.Proofs.Evaluation.Values
import QuantGraph.Proofs.Graph.Construction
import QuantGraph.Proofs.Graph.Replacement
import QuantGraph.Scalar.Exact

/-! A replacement is a sound substitution. The two nodes may even be neighbours: the edge
between them stays. Slots need not be exact, only distinct. -/

namespace QuantGraph

namespace Graph

variable {before after graph : Graph α} {old new id : NodeId}

/-- One node stands in for another. Edges out of the old node come out of the new one, except
for those between the two, and what nothing reads any more may be gone. -/
structure Substitutes (before : Graph α) (old new : NodeId) (after : Graph α) : Prop where
  moved : ∀ edge ∈ before.edges, Moves old new edge →
    { edge with source := { edge.source with node := new } } ∈ after.edges ∧ edge ∉ after.edges
  incoming_eq : ∀ id, after.contains id = true →
    (∀ edge ∈ before.incoming id, ¬ Moves old new edge) →
      after.incoming id = before.incoming id ∧ after.inputs id = before.inputs id
  inputs_eq : ∀ id, after.contains id = true → after.inputs id =
    if id = new then before.inputs id else (before.inputs id).map (renamed old new)
  node_eq : ∀ id, after.contains id = true → after.node? id = before.node? id
  acyclic : after.IsAcyclic
  reads_live : ∀ source reader, after.Reads source reader →
    after.contains source = true ∧ after.contains reader = true
  consistent : after.IsConsistent

/-- A reader of the old node stays, for the old node does not depend on it. -/
theorem Sheds.keeps_moved (sheds : (graph.redirect old new).Sheds old after)
    (consistent : graph.IsConsistent) (acyclic : graph.IsAcyclic) {edge : Edge}
    (member : edge ∈ graph.edges) (moves : Moves old new edge) :
    after.contains edge.target = true := by
  have reads : graph.Reads old edge.target := ⟨edge, member, moves.1, rfl⟩
  refine sheds.keeps (consistent.target_live edge member) fun reaches => ?_
  rcases reaches_redirect reaches with back | ⟨other, readsOld, _, back⟩
  · exact acyclic.not_reaches_of_reads reads back
  · exact acyclic.not_reaches_of_reads readsOld back

/-- Only the readers of the old node need have distinct slots, for nothing else is rewired. -/
theorem substitutes_of_sheds (consistent : graph.IsConsistent) (acyclic : graph.IsAcyclic)
    (distinct : ∀ id, graph.Reads old id → graph.HasDistinctSlots id) (different : old ≠ new)
    (atOnce : graph.ReachesAtOnce old new)
    (sheds : (graph.redirect old new).Sheds old after) : graph.Substitutes old new after where
  moved := by
    intro edge member moves
    have stays := sheds.keeps_moved consistent acyclic member moves
    refine ⟨sheds.mem_edges.mpr ⟨mem_edges_redirect.mpr (Or.inl ⟨edge, member, moves, rfl⟩),
      stays⟩, fun kept => ?_⟩
    rcases mem_edges_redirect.mp (sheds.mem_edges.mp kept).1 with
      ⟨origin, _, _, equal⟩ | ⟨_, unmoved⟩
    · have source : edge.source.node = new := equal ▸ rfl
      exact different (moves.1.symm.trans source)
    · exact unmoved moves
  incoming_eq := by
    intro id live stay
    have incoming_eq := (sheds.incoming_eq live).trans (incoming_redirect stay)
    exact ⟨incoming_eq, by rw [inputs, inputs, incoming_eq]⟩
  inputs_eq := by
    intro id live
    rw [sheds.inputs_eq live]
    by_cases reads : graph.Reads old id
    · exact inputs_redirect_of_distinct (distinct id reads)
    · rw [inputs_redirect_of_not_reads reads]
      split
      case isTrue => rfl
      case isFalse =>
        refine ((List.map_congr_left fun output member => ?_).trans (List.map_id _)).symm
        refine if_neg fun isOld => reads ?_
        exact isOld ▸ reads_of_mem_inputs member
  node_eq := sheds.node_eq
  acyclic := IsAcyclic.mono (fun _ member => (sheds.mem_edges.mp member).1)
    (isAcyclic_redirect acyclic atOnce)
  reads_live := fun _ _ => sheds.consistent.reads_live
  consistent := sheds.consistent

variable [Scalar α] {feeds values : Assignment α}

/-- With the values from before, the nodes that are left compute what they computed. -/
theorem Substitutes.evaluateNode_eq (substitutes : before.Substitutes old new after)
    (equal : values old = values new) (live : after.contains id = true) :
    after.evaluateNode feeds values id = before.evaluateNode feeds values id := by
  unfold evaluateNode
  rw [substitutes.node_eq id live, substitutes.inputs_eq id live]
  cases before.node? id with
  | none => rfl
  | some node =>
      dsimp only
      split
      case isTrue => rfl
      case isFalse =>
        rw [List.mapM_map]
        refine congrArg (· >>= _) (Outcome.mapM_congr fun output _ => ?_)
        have value_eq : values (renamed old new output).node = values output.node := by
          unfold renamed
          split
          case isTrue source => rw [source, equal]
          case isFalse => rfl
        rw [Function.comp_apply, value_eq]

/-- Nodes with equal values are interchangeable. -/
theorem Substitutes.exists_evaluate (substitutes : before.Substitutes old new after)
    (evaluated : before.evaluate feeds = .ok values) (equal : values old = values new) :
    ∃ values', after.evaluate feeds = .ok values' ∧
      ∀ id, after.contains id = true → values' id = values id := by
  have step : ∀ current id, after.contains id = true →
      (∀ output ∈ after.inputs id, ∃ value, current output.node = some value ∧
        values output.node = some value) →
      ∃ value, after.evaluateNode feeds current id = .ok value ∧ values id = some value := by
    intro current id live known
    have agree : ∀ output ∈ after.inputs id, current output.node = values output.node := by
      intro output member
      obtain ⟨value, isValue, isOld⟩ := known output member
      rw [isValue, isOld]
    have earlier : before.contains id = true :=
      (contains_congr (substitutes.node_eq id live)).symm.trans live
    obtain ⟨value, isValue, computed⟩ := evaluateNode_of_evaluate evaluated earlier
    refine ⟨value, ?_, isValue⟩
    rw [evaluateNode_congr agree, substitutes.evaluateNode_eq equal live]
    exact computed
  obtain ⟨values', evaluated', same⟩ :=
    @IsAcyclic.exists_evaluate _ _ _ feeds (fun id value => values id = some value)
      substitutes.acyclic substitutes.consistent step
  refine ⟨values', evaluated', fun id live => ?_⟩
  obtain ⟨value, isValue, isOld⟩ := same id live
  rw [isValue, isOld]

/-! ## Values of the same shape -/

omit [Scalar α] in
/-- What is read under other names has values of the same shapes. -/
theorem Carries.exists_rename {current : Assignment α} {outputs : List Output}
    {inputs : List (NDArray α)} (carries : Carries values outputs inputs) (rename : Output → Output)
    (each : ∀ output ∈ outputs, ∀ input, values output.node = some input →
      ∃ other, current (rename output).node = some other ∧ other.shape = input.shape) :
    ∃ others, Carries current (outputs.map rename) others ∧
      inputs.map NDArray.shape = others.map NDArray.shape := by
  induction carries with
  | nil => exact ⟨[], .nil, rfl⟩
  | cons known _ induction =>
      obtain ⟨other, isOther, shape⟩ := each _ List.mem_cons_self _ known
      obtain ⟨others, carried, shapes⟩ := induction fun output member =>
        each output (List.mem_cons_of_mem _ member)
      exact ⟨other :: others, .cons isOther carried, by
        rw [List.map_cons, List.map_cons, shape, shapes]⟩

namespace Substitutes

variable (substitutes : before.Substitutes old new after) {current : Assignment α} {id : NodeId}
  (live : after.contains id = true)

include substitutes live

omit [Scalar α] in
theorem inputs_eq_of_not_reads (unread : ¬ before.Reads old id) :
    after.inputs id = before.inputs id := by
  refine (substitutes.incoming_eq id live fun edge member moves => unread ?_).2
  obtain ⟨earlier, into⟩ := mem_incoming.mp member
  exact ⟨edge, earlier, moves.1, into⟩

/-- What did not read the old node computes what it computed. -/
theorem evaluateNode_eq_of_not_reads (unread : ¬ before.Reads old id)
    (agree : ∀ output ∈ before.inputs id, current output.node = values output.node) :
    after.evaluateNode feeds current id = before.evaluateNode feeds values id := by
  rw [← evaluateNode_congr agree]
  unfold evaluateNode
  rw [substitutes.node_eq id live, substitutes.inputs_eq_of_not_reads live unread]

/-- From inputs of the shapes from before, a node computes a value of the shape from before. -/
theorem exists_evaluateNode_of_shapes {value : NDArray α}
    (alike : (values new).map NDArray.shape = (values old).map NDArray.shape)
    (computed : before.evaluateNode feeds values id = .ok value)
    (known : ∀ output ∈ after.inputs id, ∃ other, current output.node = some other ∧
      (values output.node).map NDArray.shape = some other.shape) :
    ∃ result, after.evaluateNode feeds current id = .ok result ∧ result.shape = value.shape := by
  obtain ⟨node, inputs, found, carries, computed⟩ := evaluateNode_eq_ok.mp computed
  let rename (output : Output) : Output := if id = new then output else renamed old new output
  have inputs_eq : after.inputs id = (before.inputs id).map rename := by
    rw [substitutes.inputs_eq id live]
    by_cases isNew : id = new <;> simp [rename, isNew]
  have same_shape (output : Output) : (values (rename output).node).map NDArray.shape =
      (values output.node).map NDArray.shape := by
    by_cases moves : id ≠ new ∧ output.node = old
    · simp [rename, renamed, moves, alike]
    · have stays : rename output = output := by grind [renamed]
      rw [stays]
  obtain ⟨others, carried, shapes⟩ := carries.exists_rename rename
    fun output member input isInput => by
      obtain ⟨other, isOther, shape⟩ :=
        known (rename output) (inputs_eq ▸ List.mem_map_of_mem member)
      rw [same_shape, isInput, Option.map_some, Option.some.injEq] at shape
      exact ⟨other, isOther, shape.symm⟩
  obtain ⟨result, computed, shape⟩ := Op.exists_evaluate_of_shapes shapes computed
  refine ⟨result, evaluateNode_eq_ok.mpr ⟨node, others, ?_, inputs_eq ▸ carried, computed⟩, shape⟩
  exact (substitutes.node_eq id live).trans found

end Substitutes

/-- When one node stands in for another whose value has the same shape, what is left can still be
evaluated. Shapes stay, and so do the values of the nodes that do not depend on the old one. -/
theorem Substitutes.exists_evaluate_of_shapes (substitutes : before.Substitutes old new after)
    (evaluated : before.evaluate feeds = .ok values)
    (alike : (values new).map NDArray.shape = (values old).map NDArray.shape) :
    ∃ values', after.evaluate feeds = .ok values' ∧ ∀ id, after.contains id = true →
      (values' id).map NDArray.shape = (values id).map NDArray.shape ∧
        (¬ before.Precedes old id → values' id = values id) := by
  let Good (id : NodeId) (value : NDArray α) : Prop :=
    (values id).map NDArray.shape = some value.shape ∧
      (¬ before.Precedes old id → values id = some value)
  have step : ∀ current id, after.contains id = true →
      (∀ output ∈ after.inputs id, ∃ value, current output.node = some value ∧
        Good output.node value) →
      ∃ value, after.evaluateNode feeds current id = .ok value ∧ Good id value := by
    intro current id live known
    have earlier : before.contains id = true :=
      (contains_congr (substitutes.node_eq id live)).symm.trans live
    obtain ⟨value, isValue, computed⟩ := evaluateNode_of_evaluate evaluated earlier
    by_cases depends : before.Precedes old id
    · obtain ⟨result, recomputed, shape⟩ :=
        substitutes.exists_evaluateNode_of_shapes live alike computed fun output member => by
          obtain ⟨other, isOther, shape, _⟩ := known output member
          exact ⟨other, isOther, shape⟩
      exact ⟨result, recomputed, by rw [isValue, Option.map_some, shape],
        fun apart => absurd depends apart⟩
    · have unread : ¬ before.Reads old id := fun reads => depends (.single reads)
      have agree : ∀ output ∈ before.inputs id, current output.node = values output.node := by
        intro output member
        obtain ⟨other, isOther, _, same⟩ :=
          known output (substitutes.inputs_eq_of_not_reads live unread ▸ member)
        rw [isOther, same fun precedes => depends (precedes.tail (reads_of_mem_inputs member))]
      exact ⟨value, (substitutes.evaluateNode_eq_of_not_reads live unread agree).trans computed,
        by rw [isValue, Option.map_some], fun _ => isValue⟩
  obtain ⟨values', evaluated', good⟩ := @IsAcyclic.exists_evaluate _ _ _ feeds Good
    substitutes.acyclic substitutes.consistent step
  refine ⟨values', evaluated', fun id live => ?_⟩
  obtain ⟨value, isValue, shape, same⟩ := good id live
  exact ⟨by rw [isValue, shape, Option.map_some], fun apart => by rw [isValue, same apart]⟩

/-- In a graph without cycles and with distinct input slots, one node takes the place of
another one whenever each path from the old node to the new one is a single edge. The old
node's edges become the new one's, all else that is left reads what it read, no cycle arises,
nothing reads a node that is gone, and if the two nodes had equal values, what is left has the
values that it had. -/
theorem substitutes_of_replace (consistent : graph.IsConsistent) (acyclic : graph.IsAcyclic)
    (distinct : ∀ id, graph.HasDistinctSlots id) (old_live : graph.contains old = true)
    (new_live : graph.contains new = true) (different : old ≠ new)
    (atOnce : graph.ReachesAtOnce old new) :
    ∃ after, graph.replace old new = .ok after ∧ graph.Substitutes old new after ∧
      ∀ feeds values, graph.evaluate feeds = .ok values → values old = values new →
        ∃ values', after.evaluate feeds = .ok values' ∧
          ∀ id, after.contains id = true → values' id = values id := by
  have replaced : graph.replace old new = .ok ((graph.redirect old new).prune old).2 :=
    (replace_eq_ok different).mpr ⟨old_live, new_live, rfl⟩
  have substitutes :=
    substitutes_of_sheds consistent acyclic (fun id _ => distinct id) different atOnce
      (sheds_of_replace consistent different replaced).2
  exact ⟨_, replaced, substitutes, fun feeds values => substitutes.exists_evaluate⟩

/-- An input times one, twice. -/
def timesOneTwice : List (Draft Rat) :=
  let one := (NodeId.mk 1).output
  [{ op := .parameter, name := "input"
     declared := some { elementType := .f32, shape := [2] } },
    (Op.constant (.scalar .f32 1)).draft "one",
    (Op.multiply.draft "once").readOutputs [(NodeId.mk 0).output, one],
    (Op.multiply.draft "twice").readOutputs [(NodeId.mk 2).output, one],
    (Op.result.draft "output").readOutputs [(NodeId.mk 2).output]]

/-- The result comes to read the second product, which goes on reading the first. -/
theorem substitutes_timesOneTwice :
    ∃ graph after feeds values values', Graph.empty.addAll timesOneTwice = .ok graph ∧
      graph.WellFormed ∧ graph.ReachesAtOnce (NodeId.mk 2) (NodeId.mk 3) ∧
      graph.replace (NodeId.mk 2) (NodeId.mk 3) = .ok after ∧
      graph.Substitutes (NodeId.mk 2) (NodeId.mk 3) after ∧
      graph.evaluate feeds = .ok values ∧ values (NodeId.mk 2) = values (NodeId.mk 3) ∧
      after.evaluate feeds = .ok values' ∧
      ∀ id, after.contains id = true → values' id = values id := by
  let feeds : Assignment Rat := Assignment.none.set (NodeId.mk 0)
    { shape := [2], data := #[1, 2], size_data := rfl }
  have ordered : ∀ draft ∈ timesOneTwice, draft.IsInOrder := by decide
  have made : (Graph.empty.addAll timesOneTwice).map (fun graph =>
      (graph.edges.map fun edge => (edge.source.node, edge.target),
        (graph.evaluate feeds).map fun values =>
          decide (values (NodeId.mk 2) = values (NodeId.mk 3)))) =
        .ok ([(⟨2⟩, ⟨4⟩), (⟨1⟩, ⟨3⟩), (⟨2⟩, ⟨3⟩), (⟨1⟩, ⟨2⟩), (⟨0⟩, ⟨2⟩)], .ok true) := by cbv
  obtain ⟨graph, added, facts⟩ := Outcome.map_eq_ok.mp made
  obtain ⟨edges, evaluated⟩ := Prod.mk.inj facts
  obtain ⟨values, evaluated, equal⟩ := Outcome.map_eq_ok.mp evaluated
  have wellFormed := Graph.wellFormed_empty.addAll ordered added
  have reads_iff {source reader : NodeId} : graph.Reads source reader ↔
      (source, reader) ∈ graph.edges.map fun edge => (edge.source.node, edge.target) := by
    simp [Reads]
  rw [edges] at reads_iff
  have atOnce : graph.ReachesAtOnce (NodeId.mk 2) (NodeId.mk 3) := by
    intro reader reads reaches
    have listed : reader = NodeId.mk 4 ∨ reader = NodeId.mk 3 := by simpa using reads_iff.mp reads
    rcases listed with rfl | rfl
    · rcases Relation.ReflTransGen.cases_head reaches with same | ⟨next, reads, _⟩
      · exact same
      · simp [reads_iff] at reads
    · rfl
  have first : graph.Reads (NodeId.mk 2) (NodeId.mk 3) := reads_iff.mpr (by decide)
  have live := wellFormed.consistent.reads_live first
  obtain ⟨after, replaced, substitutes, kept⟩ := substitutes_of_replace wellFormed.consistent
    wellFormed.acyclic (fun id => (wellFormed.exact id).hasDistinctSlots) live.1 live.2 (by decide)
    atOnce
  obtain ⟨values', evaluated', same⟩ := kept feeds values evaluated (of_decide_eq_true equal)
  exact ⟨graph, after, feeds, values, values', added, wellFormed, atOnce, replaced, substitutes,
    evaluated, of_decide_eq_true equal, evaluated', same⟩

end Graph

end QuantGraph
