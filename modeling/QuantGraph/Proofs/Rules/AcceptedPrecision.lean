import Mathlib
import QuantGraph.Proofs.Dequantization.Division
import QuantGraph.Proofs.Rules.Quantization
import QuantGraph.Run.Apply

/-! The precision that a fake quantization is split to, and those that read it. The precision is
one of the policy, and it suits every reader whose transformations have a precision in common;
a reader whose transformations have none counts as one without transformations. -/

namespace QuantGraph

namespace Registry

variable {registry : Registry} {graph : Graph α} {id reader : NodeId} {policy : Policy}
  {precision : ElementType}

/-- Every transformation for the kind of a node accepts a precision. -/
def Accepts (registry : Registry) (graph : Graph α) (reader : NodeId) (precision : ElementType) :
    Prop :=
  ∀ transformation ∈ registry.findFor graph reader,
    precision ∈ transformation.activationPrecisions

instance (registry : Registry) (graph : Graph α) (reader : NodeId) (precision : ElementType) :
    Decidable (registry.Accepts graph reader precision) :=
  inferInstanceAs (Decidable (∀ transformation ∈ _, _ ∈ _))

/-- The transformations for the kind of a node have no precision in common. -/
def IsTorn (registry : Registry) (graph : Graph α) (reader : NodeId) : Prop :=
  ∀ precision, ¬ registry.Accepts graph reader precision

theorem mem_foldl_distinct {precisions seen : List ElementType} :
    precision ∈ precisions.foldl (fun seen precision =>
      if seen.contains precision then seen else seen ++ [precision]) seen ↔
      precision ∈ seen ∨ precision ∈ precisions := by
  induction precisions generalizing seen with
  | nil => simp
  | cons head tail induction =>
      rw [List.foldl_cons, induction, List.mem_cons]
      split
      case isTrue repeated =>
        have listed : head ∈ seen := by simpa using repeated
        constructor
        · exact Or.imp_right Or.inr
        · rintro (member | rfl | member)
          · exact Or.inl member
          · exact Or.inl listed
          · exact Or.inr member
      case isFalse => rw [List.mem_append, List.mem_singleton, or_assoc]

theorem mem_activationPrecisions : precision ∈ registry.activationPrecisions graph reader ↔
    registry.findFor graph reader ≠ [] ∧ registry.Accepts graph reader precision := by
  unfold activationPrecisions Accepts
  cases registry.findFor graph reader with
  | nil => simp
  | cons first rest =>
      rw [List.mem_filter, mem_foldl_distinct]
      simp

/-- Nothing to accept is told of a node without transformations and of a torn one alike. -/
theorem activationPrecisions_eq_nil_iff : registry.activationPrecisions graph reader = [] ↔
    registry.findFor graph reader = [] ∨ registry.IsTorn graph reader := by
  rw [List.eq_nil_iff_forall_not_mem]
  simp only [mem_activationPrecisions, IsTorn]
  by_cases none_found : registry.findFor graph reader = [] <;> simp [none_found]

/-- A precision gets past a reader that accepts it, and past a torn one. -/
theorem mem_acceptedPrecisions : precision ∈ registry.acceptedPrecisions graph id policy ↔
    precision ∈ policy.activationPrecisions ∧ ∀ reader, graph.Reads id reader →
      registry.IsTorn graph reader ∨ registry.Accepts graph reader precision := by
  simp only [← Graph.mem_consumerNodes]
  unfold acceptedPrecisions
  generalize graph.consumerNodes id = readers
  generalize policy.activationPrecisions = precisions
  induction readers generalizing precisions with
  | nil => simp
  | cons head tail induction =>
      rw [List.foldl_cons, induction, List.forall_mem_cons, ← and_assoc]
      refine and_congr_left fun _ => ?_
      split
      case h_1 silent =>
        rcases activationPrecisions_eq_nil_iff.mp silent with none_found | torn
        · have accepts : registry.Accepts graph head precision := by
            rw [Accepts, none_found]
            simp
          simp [accepts]
        · simp [torn]
      case h_2 accepted told =>
        have found := mt activationPrecisions_eq_nil_iff.mpr told
        rw [not_or] at found
        rw [List.mem_filter, List.contains_iff_mem, mem_activationPrecisions]
        simp [found.1, found.2]

end Registry

theorem TargetRange.precision_mem_of_resolve [Scalar α] {limits : QuantizationLimits α}
    {policy : Policy} {target : TargetRange α} (resolved : resolve limits policy = some target) :
    target.precision ∈ policy.activationPrecisions := by
  unfold resolve at resolved
  obtain ⟨_, _, resolved⟩ := Option.bind_eq_some_iff.mp resolved
  obtain ⟨preferred, _, resolved⟩ := Option.bind_eq_some_iff.mp resolved
  dsimp only at resolved
  split at resolved
  case isTrue accepted =>
    obtain ⟨precision, chosen, resolved⟩ := Option.bind_eq_some_iff.mp resolved
    cases Option.some.inj chosen
    obtain ⟨range, _, resolved⟩ := Option.bind_eq_some_iff.mp resolved
    obtain ⟨_, _, resolved⟩ := Option.bind_eq_some_iff.mp resolved
    cases Option.some.inj resolved
    simpa using accepted
  case isFalse =>
    obtain ⟨precision, chosen, resolved⟩ := Option.bind_eq_some_iff.mp resolved
    obtain ⟨range, _, resolved⟩ := Option.bind_eq_some_iff.mp resolved
    obtain ⟨_, _, resolved⟩ := Option.bind_eq_some_iff.mp resolved
    cases Option.some.inj resolved
    exact List.mem_of_head? chosen

namespace Graph

section Declaration

variable [Scalar α] {before after graph attached settled withNarrowed : Graph α}
  {id narrowed quantize tail : NodeId} {name : String} {precision : ElementType}
  {target : TargetRange α} {updatePrecision : Bool} {values : Dequantization α} {data : Output}
  {chain : DequantizationChain}

omit [Scalar α] in
/-- A chain leads from its data to its end. -/
theorem HoldsChain.reaches (holds : graph.HoldsChain values data updatePrecision chain) :
    graph.Reaches data.node chain.tail.node := by
  have step {stage : NodeId} {source : Output} {rest : List Output}
      (inputs : graph.inputs stage = source :: rest) : graph.Reaches source.node stage :=
    .single (reads_of_mem_inputs (inputs ▸ List.mem_cons_self))
  have converts : graph.Reaches data.node (stageOutput chain.convert data).node := by
    have convert := holds.convert
    unfold HoldsConvert at convert
    split at convert
    case isTrue =>
      obtain ⟨node, isConvert, _, inputs⟩ := convert
      rw [isConvert]
      exact step inputs
    case isFalse =>
      rw [convert]
      exact .refl
  have subtracts : graph.Reaches (stageOutput chain.convert data).node
      (stageOutput chain.subtract (stageOutput chain.convert data)).node := by
    have subtract := holds.subtract
    unfold HoldsSubtract at subtract
    split at subtract
    case h_1 =>
      obtain ⟨node, isSubtract, _, _, inputs, _⟩ := subtract
      rw [isSubtract]
      exact step inputs
    case h_2 =>
      rw [subtract]
      exact .refl
  obtain ⟨last, isMultiply, _, _, inputs, _⟩ := holds.multiply
  have tail_eq : chain.tail.node = last := by rw [DequantizationChain.tail, isMultiply]; rfl
  exact tail_eq ▸ (converts.trans subtracts).trans (step inputs)

theorem SettlesQuantized.elementType?_eq
    (settles : before.SettlesQuantized narrowed name precision true quantize after)
    (consistent : before.IsConsistent) (live : before.contains narrowed = true) :
    after.elementType? quantize = some precision := by
  rcases settles with ⟨folded, middle, _, adds, sheds, _⟩ | ⟨_, rfl, declares⟩
  · have stays : after.contains quantize = true := by
      refine sheds.keeps adds.live fun reaches => ?_
      rcases Relation.ReflTransGen.cases_head reaches with equal | ⟨reader, reads, _⟩
      · exact adds.ne_of_live live equal.symm
      · exact adds.not_reads_new consistent reader reads
    obtain ⟨type, drafted, found⟩ := adds.node_new
    cases Except.ok.inj drafted
    rw [elementType?, sheds.node_eq quantize stays, found]
    rfl
  · obtain ⟨node, found⟩ := contains_eq_true_iff.mp live
    rw [if_pos rfl] at declares
    rw [elementType?, declares.node_eq, if_pos rfl, found, Option.map_some, Option.map_some]
    unfold GraphRevision.declaring Node.elementType
    split
    case isTrue => simp
    case isFalse => simp

/-- After a split that declares precisions, the quantized values have the precision of the
target. -/
theorem Decomposes.elementType?_eq (wellFormed : graph.WellFormed)
    (decomposes : graph.Decomposes id target true quantize tail after) :
    after.elementType? quantize = some target.precision := by
  obtain ⟨view, values, narrowed, chain, withNarrowed, settled, attached, splits, _⟩ :=
    decomposes.exists_splits wellFormed
  have supports := splits.supports id (supports_fakeQuantizeNode wellFormed splits.isView)
  have typed := splits.settles.elementType?_eq supports.wellFormed.consistent
    (contains_of_op? splits.quantizes.op_eq)
  obtain ⟨node, found, _⟩ := Option.map_eq_some_iff.mp typed
  have kept := (splits.replaces.sameAt_of_reaches splits.extension.wellFormed
    (splits.tail_live wellFormed) splits.holds.reaches).1
  have same : after.node? quantize = settled.node? quantize :=
    (splits.replaces.node_eq kept).trans
      (splits.extension.grows.node_eq quantize (contains_of_node? found))
  exact (elementType?_congr same).trans typed

end Declaration

end Graph

namespace RunRevision

open Revision

variable [Scalar α] {state : RunState α} {registry : Registry} {policy : Policy} {id : NodeId}

/-- A split tells what it has split, and otherwise nothing has changed. -/
theorem ensures_quantize_runs :
    (quantize registry policy id).Ensures state (fun _ => True) fun changed after =>
      if changed then ∃ target quantizer tail,
        registry.target? state.graph id policy = some target ∧
          (GraphRevision.decomposeFakeQuantize id target policy.updatePrecisions).runOn state.graph =
            (.ok (quantizer, tail), after.graph)
      else after = state := by
  unfold quantize
  rw [ensures_bind, ensures_get]
  split
  case isTrue => exact rfl
  case isFalse =>
    split
    case h_1 => exact rfl
    case h_2 target found =>
      rw [ensures_bind, ensures_onGraph]
      unfold Ensures
      split
      case h_1 result graph ran =>
        refine ⟨target, result.1, result.2, found, ?_⟩
        rw [ran, RunState.graph_markHandled]
      case h_2 => trivial

theorem runOn_quantize_of_target? (missing : registry.target? state.graph id policy = none) :
    (quantize registry policy id).runOn state = (.ok false, state) := by
  unfold quantize
  rw [runOn_bind]
  change (if state.isHandled id then _ else _ : RunRevision α Bool).runOn state = _
  split
  case isTrue => rfl
  case isFalse =>
    rw [missing]
    rfl

end RunRevision

namespace Transformation

open Registry

variable [Scalar α] {registry : Registry} {id : NodeId} {state : RunState α}
  {transformation : Transformation}

/-- The rule that splits fake quantizations gives them a precision of its policy, which it
declares if asked for. The precision is accepted by the transformations of a reader if and only
if these have one in common at all; and where every precision of the policy is refused by such a
reader, nothing is changed. -/
theorem apply_fakeQuantize_accepted (isRule : transformation.rule = .fakeQuantize) :
    (∀ after, (transformation.apply registry id).runOn state = (.ok true, after) →
      ∃ target quantizer tail,
        registry.target? state.graph id transformation.policy = some target ∧
        (GraphRevision.decomposeFakeQuantize id target transformation.policy.updatePrecisions).runOn
          state.graph = (.ok (quantizer, tail), after.graph) ∧
        (state.graph.WellFormed → transformation.policy.updatePrecisions = true →
          after.graph.elementType? quantizer = some target.precision) ∧
        target.precision ∈ transformation.activationPrecisions ∧
        ∀ reader, state.graph.Reads id reader →
          (registry.Accepts state.graph reader target.precision ↔
            ¬ registry.IsTorn state.graph reader)) ∧
    ((∀ precision ∈ transformation.activationPrecisions, ∃ reader, state.graph.Reads id reader ∧
        ¬ registry.IsTorn state.graph reader ∧
        ¬ registry.Accepts state.graph reader precision) →
      (transformation.apply registry id).runOn state = (.ok false, state)) := by
  obtain ⟨rule, policy⟩ := transformation
  cases isRule
  constructor
  · intro after applied
    obtain ⟨target, quantizer, tail, isTarget, ran⟩ :=
      RunRevision.ensures_quantize_runs.of_runOn applied
    obtain ⟨limits, _, resolved⟩ := Option.bind_eq_some_iff.mp isTarget
    obtain ⟨listed, suits⟩ :=
      mem_acceptedPrecisions.mp (TargetRange.precision_mem_of_resolve resolved)
    refine ⟨target, quantizer, tail, isTarget, ran, fun wellFormed updates => ?_, listed,
      fun reader reads => ⟨fun accepts torn => torn _ accepts, (suits reader reads).resolve_left⟩⟩
    have decomposes := ((GraphRevision.ensures_decomposeFakeQuantize wellFormed .refl).of_runOn ran).2
    rw [show policy.updatePrecisions = true from updates] at decomposes
    exact decomposes.elementType?_eq wellFormed
  · intro refused
    refine RunRevision.runOn_quantize_of_target? ?_
    by_contra resolves
    obtain ⟨target, isTarget⟩ := Option.ne_none_iff_exists'.mp resolves
    obtain ⟨limits, _, resolved⟩ := Option.bind_eq_some_iff.mp isTarget
    obtain ⟨listed, suits⟩ :=
      mem_acceptedPrecisions.mp (TargetRange.precision_mem_of_resolve resolved)
    obtain ⟨reader, reads, common, refuses⟩ := refused target.precision listed
    exact refuses ((suits reader reads).resolve_left common)

/-- Bytes, quantized and read by a Relu. -/
def rectifiedBytes : List (Draft Rat) :=
  let low := (NodeId.mk 1).output
  let high := (NodeId.mk 2).output
  [{ op := .parameter, name := "bytes", declared := some { elementType := .f32, shape := [1] } },
    (Op.constant (.scalar .f32 0)).draft "low",
    (Op.constant (.scalar .f32 255)).draft "high",
    ((Op.fakeQuantize 256).draft "quantized").readOutputs
      [(NodeId.mk 0).output, low, high, low, high],
    (Op.relu.draft "rectified").readAll [NodeId.mk 3],
    (Op.result.draft "output").readAll [NodeId.mk 4]]

/-- A Relu that takes unsigned numbers. -/
def unsignedRelu : Registry :=
  Registry.empty.addGeneral { rule := .relu, policy := { activationPrecisions := [.u8] } }

/-- A Relu that takes unsigned numbers for one transformation and signed ones for another. -/
def tornRelu : Registry :=
  unsignedRelu.addCleanup { rule := .relu, policy := { activationPrecisions := [.i8] } }

/-- An unsigned quantization before a Relu that takes unsigned numbers. -/
theorem apply_fakeQuantize_accepted_rectifiedBytes :
    ∃ graph after, Graph.empty.addAll rectifiedBytes = .ok graph ∧ graph.WellFormed ∧
      splitting.rule = .fakeQuantize ∧
      (splitting.apply unsignedRelu (NodeId.mk 3)).runOn (.ofGraph graph) = (.ok true, after) ∧
      ∃ target quantizer, unsignedRelu.target? graph (NodeId.mk 3) splitting.policy = some target ∧
        after.graph.elementType? quantizer = some target.precision ∧
        (unsignedRelu.Accepts graph (NodeId.mk 4) target.precision ↔
          ¬ unsignedRelu.IsTorn graph (NodeId.mk 4)) := by
  have ordered : ∀ draft ∈ rectifiedBytes, draft.IsInOrder := by decide
  have made : (Graph.empty.addAll rectifiedBytes).map (fun graph =>
      (graph.inputs (NodeId.mk 4),
        ((splitting.apply unsignedRelu (NodeId.mk 3)).runOn (.ofGraph graph)).1)) =
      .ok ([(NodeId.mk 3).output], .ok true) := by decide +kernel
  obtain ⟨graph, added, facts⟩ := Outcome.map_eq_ok.mp made
  obtain ⟨inputs, changed⟩ := Prod.mk.inj facts
  have wellFormed := Graph.wellFormed_empty.addAll ordered added
  have member : (NodeId.mk 3).output ∈ graph.inputs (NodeId.mk 4) := inputs ▸ List.mem_cons_self
  have reads : graph.Reads (NodeId.mk 3) (NodeId.mk 4) := Graph.reads_of_mem_inputs member
  have applied : (splitting.apply unsignedRelu (NodeId.mk 3)).runOn (.ofGraph graph) =
      (.ok true, _) := Prod.ext changed rfl
  obtain ⟨target, quantizer, _, isTarget, _, declared, _, suits⟩ :=
    (@apply_fakeQuantize_accepted Rat _ unsignedRelu (NodeId.mk 3) (.ofGraph graph) splitting
      rfl).1 _ applied
  exact ⟨graph, _, added, wellFormed, rfl, applied, target, quantizer, isTarget,
    declared wellFormed rfl, suits (NodeId.mk 4) reads⟩

/-- Before a Relu that is torn between unsigned and signed numbers, the quantization becomes
unsigned all the same, which one of the two transformations does not accept. -/
theorem exists_unaccepted_tornRelu :
    ∃ graph after, Graph.empty.addAll rectifiedBytes = .ok graph ∧ graph.WellFormed ∧
      (splitting.apply tornRelu (NodeId.mk 3)).runOn (.ofGraph graph) = (.ok true, after) ∧
      graph.Reads (NodeId.mk 3) (NodeId.mk 4) ∧ tornRelu.IsTorn graph (NodeId.mk 4) ∧
      ∃ target, tornRelu.target? graph (NodeId.mk 3) splitting.policy = some target ∧
        target.precision = .u8 ∧ ¬ tornRelu.Accepts graph (NodeId.mk 4) .u8 := by
  have ordered : ∀ draft ∈ rectifiedBytes, draft.IsInOrder := by decide
  have made : (Graph.empty.addAll rectifiedBytes).map (fun graph =>
      (graph.inputs (NodeId.mk 4), tornRelu.findFor graph (NodeId.mk 4),
        (tornRelu.target? graph (NodeId.mk 3) splitting.policy).map TargetRange.precision,
        ((splitting.apply tornRelu (NodeId.mk 3)).runOn (.ofGraph graph)).1)) =
      .ok ([(NodeId.mk 3).output], [⟨.relu, { activationPrecisions := [.u8] }⟩,
        ⟨.relu, { activationPrecisions := [.i8] }⟩], some .u8, .ok true) := by decide +kernel
  obtain ⟨graph, added, facts⟩ := Outcome.map_eq_ok.mp made
  simp only [Prod.mk.injEq] at facts
  obtain ⟨inputs, found, precision, changed⟩ := facts
  obtain ⟨target, isTarget, isUnsigned⟩ := Option.map_eq_some_iff.mp precision
  have torn : tornRelu.IsTorn graph (NodeId.mk 4) := by
    intro precision accepts
    unfold Registry.Accepts at accepts
    rw [found] at accepts
    have both : precision = .u8 ∧ precision = .i8 := by simpa [activationPrecisions] using accepts
    exact absurd (both.1.symm.trans both.2) (by decide)
  have member : (NodeId.mk 3).output ∈ graph.inputs (NodeId.mk 4) := inputs ▸ List.mem_cons_self
  have reads : graph.Reads (NodeId.mk 3) (NodeId.mk 4) := Graph.reads_of_mem_inputs member
  exact ⟨graph, _, added, Graph.wellFormed_empty.addAll ordered added, Prod.ext changed rfl, reads,
    torn, target, isTarget, isUnsigned, torn .u8⟩

end Transformation

end QuantGraph
