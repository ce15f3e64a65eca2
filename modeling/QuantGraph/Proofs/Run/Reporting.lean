import QuantGraph.Proofs.Joint.Creation
import QuantGraph.Proofs.Run.WellFormed

/-! What transformations and runs tell is what they do. A transformation that tells of no
change leaves graph and notes as they were, one that tells of a change has created a node,
and a run that counts no revision leaves the graph as it was. Nothing is assumed of the
graph. -/

namespace QuantGraph

open QuantGraph.Graph Creates Revision

namespace RunState

/-- The state after a call that told whether it changed the graph: either a node of an
allowed kind has been created, or nothing is different. -/
def Tells (allowed : OpKind → Prop) (before : RunState α) (changed : Bool) (after : RunState α) :
    Prop :=
  if changed then ∃ count, before.graph.Creates allowed (count + 1) after.graph
  else after = before

/-- The same, where calls have led to what is different. -/
def Performs (allowed : OpKind → Prop) (before : RunState α) (changed : Bool)
    (after : RunState α) : Prop :=
  if changed then ∃ count, before.graph.Makes allowed (count + 1) after.graph else after = before

theorem Performs.tells {allowed : OpKind → Prop} {before after : RunState α} {changed : Bool}
    (performs : before.Performs allowed changed after) : before.Tells allowed changed after := by
  cases changed with
  | false => exact performs
  | true =>
      obtain ⟨count, makes⟩ := performs
      exact ⟨count, makes.creates⟩

end RunState

namespace RunRevision

variable [Scalar α] {allowed : OpKind → Prop} {state : RunState α} {registry : Registry}
  {policy : Policy} {id : NodeId}

omit [Scalar α] in
theorem performs_onGraph {revision : GraphRevision α Bool}
    (tells : revision.Ensures state.graph (fun _ => True) (state.graph.Tells allowed)) :
    (onGraph revision).Ensures state (fun _ => True) (state.Performs allowed) := by
  rw [ensures_onGraph]
  refine tells.mono (fun _ _ => trivial) fun changed after told => ?_
  cases changed with
  | false =>
      change _ = state
      rw [show after = state.graph from told]
  | true => exact told

theorem performs_quantize (quantization : AllowsQuantization allowed) :
    (quantize registry policy id).Ensures state (fun _ => True) (state.Performs allowed) := by
  unfold quantize
  rw [ensures_bind, ensures_get]
  dsimp only
  split
  case isTrue => exact rfl
  case isFalse =>
    split
    case h_1 => exact rfl
    case h_2 target _ =>
      rw [ensures_bind, ensures_onGraph]
      refine (GraphRevision.ensures_decomposeFakeQuantize_makes quantization .none).mono
        (fun _ _ => trivial) ?_
      rintro ⟨quantizer, tail⟩ after ⟨more, makes⟩
      rw [ensures_bind, ensures_markHandled, ensures_pure]
      refine ⟨0 + more, ?_⟩
      rw [RunState.graph_markHandled]
      exact makes

omit [Scalar α] in
theorem performs_onSubgraph {subgraph : Subgraph} {revision : JointRevision α Bool}
    (tells : revision.Ensures { toRunState := state, subgraph := subgraph } (fun _ => True)
      fun changed after => if changed then
        ∃ count, state.graph.Makes allowed (count + 1) after.graph
      else after = { toRunState := state, subgraph := subgraph }) :
    (onSubgraph subgraph revision).Ensures state (fun _ => True) (state.Performs allowed) := by
  rw [ensures_onSubgraph]
  refine tells.mono (fun _ _ => trivial) fun changed after told => ?_
  cases changed with
  | false => exact congrArg JointState.toRunState told
  | true => exact told

theorem performs_quantizeConcat (quantization : AllowsQuantization allowed) :
    (quantizeConcat registry policy id).Ensures state (fun _ => True) (state.Performs allowed) := by
  unfold quantizeConcat
  rw [ensures_bind, ensures_get]
  split
  case isTrue => exact rfl
  case isFalse =>
    split
    case h_1 => exact rfl
    case h_2 subgraph found =>
      have fed := Subgraph.quantizers_ne_nil_of_around? (RunState.subgraphAround?_eq_some found).1
      exact performs_onSubgraph (JointRevision.tells_quantizeWithSharedScale quantization fed)

theorem performs_quantizeConcatChannels (quantization : AllowsQuantization allowed) :
    (quantizeConcatChannels registry policy id).Ensures state (fun _ => True)
      (state.Performs allowed) := by
  unfold quantizeConcatChannels
  rw [ensures_bind, ensures_get]
  split
  case isTrue => exact rfl
  case isFalse =>
    split
    case h_1 => exact rfl
    case h_2 subgraph found =>
      have fed := Subgraph.quantizers_ne_nil_of_around? (RunState.subgraphAround?_eq_some found).1
      split
      case isTrue =>
        exact performs_onSubgraph (JointRevision.tells_quantizePerChannel quantization fed)
      case isFalse =>
        exact performs_onSubgraph (JointRevision.tells_quantizeWithSharedScale quantization fed)

end RunRevision

/-- The rules that create fake quantizations whatever node they are tried on. -/
def Rule.createsQuantizer : Rule → Bool
  | concat | concatMultiChannels | fakeQuantize | fuseFakeQuantize | fuseMultiplyToFakeQuantize
  | fuseSubtractToFakeQuantize => true
  | add | avgPool | fuseConvert | layout _ | matMul | maxPool | multiply | relu
  | subtractMultiplyToMultiplyAdd => false

namespace Transformation

variable [Scalar α] {allowed : OpKind → Prop} {state : RunState α} {registry : Registry}
  {id : NodeId} {transformation : Transformation}

/-- What is created is arithmetic, copies of the node, and fake quantizations under the
rules that make them. -/
theorem performs_apply (arithmetic : AllowsArithmetic allowed)
    (quantizes : transformation.rule.createsQuantizer = true → allowed .fakeQuantize)
    (copied : ∀ kind, state.graph.kind? id = some kind → allowed kind) :
    (transformation.apply registry id).Ensures state (fun _ => True) (state.Performs allowed) := by
  obtain ⟨rule, policy⟩ := transformation
  have quantization (creates : rule.createsQuantizer = true) : AllowsQuantization allowed :=
    ⟨arithmetic, quantizes creates⟩
  cases rule with
  | add => exact RunRevision.performs_onGraph (GraphRevision.tells_factorOutScale arithmetic)
  | avgPool => exact RunRevision.performs_onGraph (GraphRevision.tells_moveFound arithmetic copied)
  | concat => exact RunRevision.performs_quantizeConcat (quantization rfl)
  | concatMultiChannels => exact RunRevision.performs_quantizeConcatChannels (quantization rfl)
  | fakeQuantize => exact RunRevision.performs_quantize (quantization rfl)
  | fuseConvert => exact RunRevision.performs_onGraph (GraphRevision.tells_fuseConvert arithmetic)
  | fuseFakeQuantize =>
      exact RunRevision.performs_onGraph
        (GraphRevision.tells_fuseIntoInputLimits (quantization rfl))
  | fuseMultiplyToFakeQuantize =>
      exact RunRevision.performs_onGraph
        (GraphRevision.tells_fuseIntoOutputLimits (quantization rfl))
  | fuseSubtractToFakeQuantize =>
      exact RunRevision.performs_onGraph
        (GraphRevision.tells_fuseSubtractIntoLimits (quantization rfl))
  | layout =>
      exact RunRevision.performs_onGraph
        (GraphRevision.tells_propagateThroughLayout arithmetic copied)
  | matMul => exact RunRevision.performs_onGraph (GraphRevision.tells_moveFound arithmetic copied)
  | maxPool => exact RunRevision.performs_onGraph (GraphRevision.tells_moveFound arithmetic copied)
  | multiply =>
      exact RunRevision.performs_onGraph (GraphRevision.tells_mergeIntoMultiply arithmetic)
  | relu => exact RunRevision.performs_onGraph (GraphRevision.tells_moveFound arithmetic copied)
  | subtractMultiplyToMultiplyAdd =>
      exact RunRevision.performs_onGraph (GraphRevision.tells_distributeScale arithmetic)

theorem tells_apply (arithmetic : AllowsArithmetic allowed)
    (quantizes : transformation.rule.createsQuantizer = true → allowed .fakeQuantize)
    (copied : ∀ kind, state.graph.kind? id = some kind → allowed kind) :
    (transformation.apply registry id).Ensures state (fun _ => True) (state.Tells allowed) :=
  (performs_apply arithmetic quantizes copied).mono (fun _ _ => trivial) fun _ _ performs =>
    performs.tells

theorem performs_apply_any :
    (transformation.apply registry id).Ensures state (fun _ => True)
      (state.Performs fun _ => True) :=
  performs_apply allowsQuantization_any.toAllowsArithmetic (fun _ => trivial) fun _ _ => trivial

theorem tells_apply_any :
    (transformation.apply registry id).Ensures state (fun _ => True)
      (state.Tells fun _ => True) :=
  tells_apply allowsQuantization_any.toAllowsArithmetic (fun _ => trivial) fun _ _ => trivial

end Transformation

/-! ## Runs -/

/-- Steps that tell whether they change the state are counted when they do. -/
theorem Revision.ensures_count {β σ : Type} {entries : List β} {body : β → Revision σ Bool}
    {count : Nat} {before : σ}
    (each : ∀ entry state, (body entry).Ensures state (fun _ => True)
      fun changed after => changed = false → after = state) :
    (entries.foldlM (fun total entry => do
      if ← body entry then return total + 1 else return total) count).Ensures before
        (fun _ => True) fun total after => count ≤ total ∧ (total = count → after = before) := by
  induction entries generalizing count before with
  | nil => exact ⟨Nat.le_refl count, fun _ => rfl⟩
  | cons head tail induction =>
      rw [List.foldlM_cons, ensures_bind, ensures_bind]
      refine (each head before).mono (fun _ _ => trivial) fun changed middle unchanged => ?_
      cases changed with
      | false =>
          cases unchanged rfl
          exact induction
      | true =>
          refine induction.mono (fun _ _ => trivial) fun total after counted => ?_
          have grown : count + 1 ≤ total := counted.1
          exact ⟨Nat.le_of_succ_le grown, fun equal => by omega⟩

namespace RunRevision

variable [Scalar α] {state : RunState α} {registry : Registry} {id : NodeId}
  {select : OpKind → List Transformation}

omit [Scalar α] in
theorem ensures_relaxNodes_unchanged :
    (relaxNodes : RunRevision α Nat).Ensures state (fun _ => True)
      fun relaxed after => relaxed = 0 → after = state := by
  unfold relaxNodes
  rw [ensures_bind, ensures_get]
  refine (ensures_count fun id state => ?_).mono (fun _ _ => trivial)
    fun _ _ counted => counted.2
  unfold relaxNode
  rw [ensures_bind, ensures_get]
  dsimp only
  split
  case h_1 =>
    split
    case isTrue =>
      rw [ensures_bind, ensures_modify, ensures_pure]
      intro equal
      cases equal
    case isFalse => exact fun _ => rfl
  case h_2 => exact fun _ => rfl

theorem ensures_tryInTurn_unchanged (transformations : List Transformation) :
    (tryInTurn registry id transformations).Ensures state (fun _ => True)
      fun changed after => changed = false → after = state := by
  induction transformations generalizing state with
  | nil => exact fun _ => rfl
  | cons transformation rest induction =>
      rw [tryInTurn, ensures_bind]
      refine Transformation.tells_apply_any.mono (fun _ _ => trivial) fun changed middle told => ?_
      cases changed with
      | false =>
          rw [show middle = state from told]
          exact induction
      | true =>
          intro equal
          cases equal

theorem ensures_visit_unchanged (uid : Nat) :
    (visit registry select id uid).Ensures state (fun _ => True)
      fun changed after => changed = false → after = state := by
  unfold visit
  rw [ensures_bind, ensures_get]
  dsimp only
  split
  case isTrue => exact fun _ => rfl
  case isFalse =>
    split
    case h_1 => exact ensures_tryInTurn_unchanged _
    case h_2 => exact fun _ => rfl

theorem ensures_traverse_unchanged :
    (traverse registry select).Ensures state (fun _ => True)
      fun revisions after => revisions = 0 → after = state := by
  unfold traverse
  rw [ensures_bind, ensures_get, ensures_bind]
  refine ensures_ofExcept trivial fun nodes _ => ?_
  have counted : (nodes.foldlM (fun revisions entry => do
      if ← visit registry select entry.1 entry.2 then return revisions + 1
      else return revisions) 0 : RunRevision α Nat).Ensures state (fun _ => True)
        fun revisions after => 0 ≤ revisions ∧ (revisions = 0 → after = state) :=
    ensures_count fun entry state => ensures_visit_unchanged entry.2
  exact counted.mono (fun _ _ => trivial) fun _ _ outcome => outcome.2

omit [Scalar α] in
theorem ensures_phase_unchanged {name : String} {body : RunRevision α Nat}
    (unchanged : body.Ensures state (fun _ => True)
      fun revisions after => revisions = 0 → after = state) :
    (phase name body).Ensures state (fun _ => True)
      fun report after => report.revisions = 0 → after = state := by
  unfold phase
  rw [ensures_bind, ensures_get, ensures_bind]
  exact unchanged

omit [Scalar α] in
/-- Phases without a revision leave the state alone. -/
theorem ensures_mapM_unchanged {passes : List (RunRevision α PhaseReport)}
    (each : ∀ pass ∈ passes, ∀ state, pass.Ensures state (fun _ => True)
      fun report after => report.revisions = 0 → after = state) :
    (passes.mapM fun pass => pass).Ensures state (fun _ => True) fun reports after =>
      (∀ report ∈ reports, report.revisions = 0) → after = state := by
  induction passes generalizing state with
  | nil => exact fun _ => rfl
  | cons pass rest induction =>
      rw [List.mapM_cons, ensures_bind]
      refine (each pass List.mem_cons_self state).mono (fun _ _ => trivial) ?_
      intro report middle first
      rw [ensures_bind]
      refine (induction fun other member => each other (List.mem_cons_of_mem pass member)).mono
        (fun _ _ => trivial) ?_
      intro reports after others none
      rw [others fun other member => none other (List.mem_cons_of_mem report member)]
      exact first (none report List.mem_cons_self)

theorem ensures_all_unchanged :
    (all registry : RunRevision α RunReport).Ensures state (fun _ => True)
      fun report after => report.totalRevisions = 0 → after = state := by
  unfold all
  rw [ensures_bind, ensures_get, ensures_bind]
  refine (ensures_mapM_unchanged ?_).mono (fun _ _ => trivial) ?_
  · intro pass member state
    rcases List.mem_cons.mp member with rfl | member
    · exact ensures_phase_unchanged ensures_relaxNodes_unchanged
    · obtain ⟨⟨name, select⟩, _, rfl⟩ := List.mem_map.mp member
      exact ensures_phase_unchanged ensures_traverse_unchanged
  · intro reports after unchanged
    rw [ensures_bind, ensures_get, ensures_pure]
    intro total
    refine unchanged fun report member => ?_
    have sum_eq : (reports.map PhaseReport.revisions).sum = 0 := by
      rw [List.sum_eq_foldl]
      exact total
    exact List.sum_eq_zero_iff_forall_eq_nat.mp sum_eq _ (List.mem_map_of_mem member)

end RunRevision

namespace Registry

variable [Scalar α]

/-- Of any graph, well-formed or not: a call that tells of no change leaves graph and notes
as they were, a call that tells of a change has created nodes, each under an identity number
of its own, and a run that counts no revision leaves the graph as it was. -/
theorem tells_exactly (registry : Registry) :
    (∀ (transformation : Transformation) (id : NodeId) (state after : RunState α),
      ((transformation.apply registry id).runOn state = (.ok false, after) → after = state) ∧
      ((transformation.apply registry id).runOn state = (.ok true, after) →
        ∃ count, 0 < count ∧ state.graph.Creates (fun _ => True) count after.graph ∧
          after.graph.nextUid = state.graph.nextUid + count)) ∧
    ∀ (graph after : Graph α) (report : RunReport), registry.transform graph = (.ok report, after) →
      report.totalRevisions = 0 → after = graph := by
  refine ⟨fun transformation id state after => ⟨fun ran => ?_, fun ran => ?_⟩, ?_⟩
  · exact Transformation.tells_apply_any.of_runOn ran
  · have told : state.Tells (fun _ => True) true after :=
      Transformation.tells_apply_any.of_runOn ran
    obtain ⟨count, creates⟩ := told
    exact ⟨count + 1, Nat.succ_pos count, creates, creates.nextUid_eq⟩
  · intro graph after report ran none
    unfold transform at ran
    split at ran
    case isTrue => cases (Prod.mk.inj ran).1
    case isFalse =>
      rcases ended : (RunRevision.all registry).runOn (RunState.ofGraph graph) with ⟨outcome, last⟩
      rw [ended] at ran
      obtain ⟨rfl, rfl⟩ := Prod.mk.inj ran
      have unchanged := RunRevision.ensures_all_unchanged.of_runOn ended none
      exact congrArg RunState.graph unchanged

/-- An input behind a Relu. -/
def rectifiedInput : List (Draft Rat) :=
  [{ op := .parameter, name := "input"
     declared := some { elementType := .f32, shape := [4] } },
    (Op.relu.draft "rectified").readOutputs [(NodeId.mk 0).output],
    (Op.result.draft "output").readOutputs [(NodeId.mk 1).output]]

/-- No dequantization stands before the Relu, so nothing moves; a fake quantization of the
pooled input is split. -/
theorem tells_rectifiedInput :
    ∃ quiet pooled after final report, Graph.empty.addAll rectifiedInput = .ok quiet ∧
      Graph.empty.addAll pooledInput = .ok pooled ∧
      (Transformation.apply { rule := .relu, policy := {} } (all {}) (NodeId.mk 1)).runOn
        (.ofGraph quiet) = (.ok false, .ofGraph quiet) ∧
      (Transformation.apply { rule := .fakeQuantize, policy := {} } (all {})
        (NodeId.mk 3)).runOn (.ofGraph pooled) = (.ok true, after) ∧
      (∃ count, 0 < count ∧ pooled.Creates (fun _ => True) count after.graph ∧
        after.graph.nextUid = pooled.nextUid + count) ∧
      (all {}).transform quiet = (.ok report, final) ∧ report.totalRevisions = 0 ∧
      final = quiet := by
  have made : (Graph.empty.addAll rectifiedInput).map (fun graph =>
      (((Transformation.apply { rule := .relu, policy := {} } (all {}) (NodeId.mk 1)).runOn
        (.ofGraph graph)).1,
      ((all {}).transform graph).1.map RunReport.totalRevisions)) =
        .ok (.ok false, .ok 0) := by decide +kernel
  have split : (Graph.empty.addAll pooledInput).map (fun graph =>
      ((Transformation.apply { rule := .fakeQuantize, policy := {} } (all {})
        (NodeId.mk 3)).runOn (.ofGraph graph)).1) = .ok (.ok true) := by decide +kernel
  obtain ⟨quiet, added, facts⟩ := Outcome.map_eq_ok.mp made
  obtain ⟨declined, counted⟩ := Prod.mk.inj facts
  obtain ⟨report, ran, none⟩ := Outcome.map_eq_ok.mp counted
  obtain ⟨pooled, added', accepted⟩ := Outcome.map_eq_ok.mp split
  obtain ⟨calls, runs⟩ := @tells_exactly Rat _ (all {})
  have declines := (calls _ _ _ _).1 (Prod.ext declined rfl)
  refine ⟨quiet, pooled, _, _, report, added, added', Prod.ext declined declines,
    Prod.ext accepted rfl, ?_, Prod.ext ran rfl, none, runs _ _ _ (Prod.ext ran rfl) none⟩
  exact (calls _ _ _ _).2 (Prod.ext accepted rfl)

end Registry

end QuantGraph
