import QuantGraph.Proofs.Joint.Usage
import QuantGraph.Proofs.Run.Attempts

/-! A run leaves no node behind that nobody reads, parameters and results apart, if there is
none when it starts. Only a transformation for result nodes could break that, since a result
that is moved is copied, and nothing reads the end of the chain that comes after the copy. -/

namespace QuantGraph

open QuantGraph.Graph Revision

namespace RunRevision

variable [Scalar α] {state : RunState α} {registry : Registry} {policy : Policy} {id : NodeId}

omit [Scalar α] in
theorem ensures_relaxNodes_tidy (tidy : state.graph.IsTidy) :
    (relaxNodes : RunRevision α Nat).Ensures state (fun _ => False)
      fun _ after => after.graph.IsTidy := by
  refine ((ensures_relaxNodes state tidy.wellFormed).and
    (ensures_relaxNodes_makes (fun _ => True) state)).mono (fun _ bad => bad.1) ?_
  rintro _ after ⟨evolves, makes, edges_eq⟩
  refine ⟨evolves.wellFormed tidy.wellFormed, ?_⟩
  rintro id ⟨kind, found, unfixed⟩
  obtain ⟨node, present, rfl⟩ := Option.map_eq_some_iff.mp found
  obtain ⟨earlier, was, _, op_eq⟩ := makes.retains.exists_node id node present
  have kind_eq : earlier.kind = node.kind := congrArg Op.kind op_eq
  obtain ⟨reader, reads⟩ := tidy.used id
    ⟨node.kind, by rw [kind?, was, Option.map_some, kind_eq], unfixed⟩
  exact ⟨reader, reads.mono fun edge member => edges_eq ▸ member⟩

omit [Scalar α] in
theorem ensures_phase {name : String} {body : RunRevision α Nat} {failed : RunState α → Prop}
    {kept : RunState α → Prop} (ensures : body.Ensures state failed fun _ => kept) :
    (phase name body).Ensures state failed fun _ => kept := by
  unfold phase
  rw [ensures_bind, ensures_get, ensures_bind]
  exact ensures.mono (fun _ bad => bad) fun _ _ holds => holds

theorem ensures_quantize_used (tidy : state.graph.IsTidy) :
    (quantize registry policy id).Ensures state (fun _ => True)
      fun _ after => after.graph.AllUsed := by
  unfold quantize
  rw [ensures_bind, ensures_get]
  dsimp only
  split
  case isTrue => exact tidy.used
  case isFalse =>
    split
    case h_1 => exact tidy.used
    case h_2 target _ =>
      rw [ensures_bind, ensures_onGraph]
      refine (GraphRevision.ensures_decomposeFakeQuantize_used tidy.wellFormed tidy.used).mono
        (fun _ _ => trivial) ?_
      rintro ⟨quantizer, tail⟩ after used
      rw [ensures_bind, ensures_markHandled, ensures_pure, RunState.graph_markHandled]
      exact used

omit [Scalar α] in
private theorem ensures_onSubgraph_used {subgraph : Subgraph} {revision : JointRevision α Bool}
    (ensures : revision.Ensures { toRunState := state, subgraph := subgraph } (fun _ => True)
      fun _ after => after.graph.IsTidy) :
    (onSubgraph subgraph revision).Ensures state (fun _ => True)
      fun _ after => after.graph.AllUsed := by
  rw [ensures_onSubgraph]
  exact ensures.mono (fun _ _ => trivial) fun _ _ tidy => tidy.used

theorem ensures_quantizeConcat_used (tidy : state.graph.IsTidy) :
    (quantizeConcat registry policy id).Ensures state (fun _ => True)
      fun _ after => after.graph.AllUsed := by
  unfold quantizeConcat
  rw [ensures_bind, ensures_get]
  split
  case isTrue => exact tidy.used
  case isFalse =>
    split
    case h_1 => exact tidy.used
    case h_2 =>
      exact ensures_onSubgraph_used (JointRevision.ensures_quantizeWithSharedScale_tidy tidy)

theorem ensures_quantizeConcatChannels_used (tidy : state.graph.IsTidy) :
    (quantizeConcatChannels registry policy id).Ensures state (fun _ => True)
      fun _ after => after.graph.AllUsed := by
  unfold quantizeConcatChannels
  rw [ensures_bind, ensures_get]
  split
  case isTrue => exact tidy.used
  case isFalse =>
    split
    case h_1 => exact tidy.used
    case h_2 =>
      split
      case isTrue =>
        exact ensures_onSubgraph_used (JointRevision.ensures_quantizePerChannel_tidy tidy)
      case isFalse =>
        exact ensures_onSubgraph_used (JointRevision.ensures_quantizeWithSharedScale_tidy tidy)

end RunRevision

namespace Transformation

variable [Scalar α] {state : RunState α} {registry : Registry} {id : NodeId}
  {transformation : Transformation}

omit [Scalar α] in
private theorem ensures_onGraph_used {revision : GraphRevision α Bool}
    (ensures : revision.Ensures state.graph (fun _ => True) fun _ after => after.AllUsed) :
    (RunRevision.onGraph revision).Ensures state (fun _ => True)
      fun _ after => after.graph.AllUsed := by
  rw [RunRevision.ensures_onGraph]
  exact ensures

theorem ensures_apply_used (tidy : state.graph.IsTidy)
    (kind : state.graph.kind? id = some transformation.matchedKind)
    (not_result : transformation.matchedKind ≠ .result) :
    (transformation.apply registry id).Ensures state (fun _ => True)
      fun _ after => after.graph.AllUsed := by
  obtain ⟨rule, policy⟩ := transformation
  have unfixed : state.graph.kind? id ≠ some .result := by
    rw [kind]
    exact fun equal => not_result (Option.some.inj equal)
  have wellFormed := tidy.wellFormed
  have used := tidy.used
  cases rule with
  | add =>
      exact ensures_onGraph_used
        (GraphRevision.ensures_factorOutScale_used wellFormed used ⟨_, kind, rfl⟩)
  | avgPool =>
      exact ensures_onGraph_used
        (GraphRevision.ensures_moveFound_used wellFormed used unfixed (Or.inl rfl))
  | concat => exact RunRevision.ensures_quantizeConcat_used tidy
  | concatMultiChannels => exact RunRevision.ensures_quantizeConcatChannels_used tidy
  | fakeQuantize => exact RunRevision.ensures_quantize_used tidy
  | fuseConvert =>
      exact ensures_onGraph_used
        (GraphRevision.ensures_fuseConvert_used wellFormed used ⟨_, kind, rfl⟩)
  | fuseFakeQuantize =>
      exact ensures_onGraph_used
        (GraphRevision.ensures_fuseIntoInputLimits_used wellFormed used ⟨_, kind, rfl⟩)
  | fuseMultiplyToFakeQuantize =>
      exact ensures_onGraph_used
        (GraphRevision.ensures_fuseIntoOutputLimits_used wellFormed used ⟨_, kind, rfl⟩)
  | fuseSubtractToFakeQuantize =>
      exact ensures_onGraph_used
        (GraphRevision.ensures_fuseSubtractIntoLimits_used wellFormed used ⟨_, kind, rfl⟩)
  | layout =>
      exact ensures_onGraph_used
        (GraphRevision.ensures_propagateThroughLayout_used wellFormed used unfixed)
  | matMul =>
      refine ensures_onGraph_used (GraphRevision.ensures_moveFound_used wellFormed used unfixed
        (Or.inr fun chain found => ?_))
      obtain ⟨slot, _, found⟩ := exists_slot_of_or found
      exact (chainBeforeMatMul?_eq_some found).2.1
  | maxPool =>
      exact ensures_onGraph_used
        (GraphRevision.ensures_moveFound_used wellFormed used unfixed (Or.inl rfl))
  | multiply =>
      exact ensures_onGraph_used
        (GraphRevision.ensures_mergeIntoMultiply_used wellFormed used)
  | relu =>
      exact ensures_onGraph_used (GraphRevision.ensures_moveFound_used wellFormed used unfixed
        (Or.inr fun chain found => (chainBeforeRelu?_eq_some found).2.1))
  | subtractMultiplyToMultiplyAdd =>
      exact ensures_onGraph_used
        (GraphRevision.ensures_distributeScale_used wellFormed used ⟨_, kind, rfl⟩)

end Transformation

namespace Attempt

variable [Scalar α]

/-- Unless it gives up, the attempt leaves nothing behind that nobody reads. -/
def LeavesAllUsed (registry : Registry) (attempt : Attempt α) : Prop :=
  ∀ changed after, (attempt.transformation.apply registry attempt.id).runOn attempt.before =
    (.ok changed, after) → after.graph.AllUsed

end Attempt

namespace Registry

variable [Scalar α] {registry : Registry} {graph : Graph α}

theorem follows_tidy (keyed : registry.IsKeyed) (spares : registry.find .result = [])
    {select : OpKind → List Transformation}
    (member : select ∈ (RunRevision.traversals registry).map Prod.snd) :
    RunRevision.Follows registry select
      (fun past => ∀ attempt ∈ past, attempt.LeavesAllUsed registry)
      (fun past (state : RunState α) => state.graph.IsTidy ∧
        ∀ attempt ∈ past, attempt.LeavesAllUsed registry) := by
  rintro kind transformation selected id past state ⟨tidy, left⟩ found
  obtain ⟨matched, known⟩ := keyed.selected member selected
  have not_result : transformation.matchedKind ≠ .result := by
    intro equal
    rw [← matched, equal, spares] at known
    cases known
  have kind_eq := found.trans (congrArg some matched.symm)
  have used := @Transformation.ensures_apply_used _ _ _ registry _ _ tidy kind_eq not_result
  have evolves := @Transformation.ensures_apply _ state.graph _ registry _ _ _
    tidy.wellFormed .refl kind_eq not_result
  have later : ∀ attempt ∈ past ++ [⟨transformation, id, state⟩],
      attempt.LeavesAllUsed registry := by
    intro attempt listed
    rcases List.mem_append.mp listed with earlier | last
    · exact left attempt earlier
    · rw [List.mem_singleton.mp last]
      exact fun changed after ran => used.of_runOn ran
  refine ⟨later, (evolves.and used).mono (fun _ _ => trivial) ?_⟩
  rintro changed after ⟨⟨evolves, _⟩, used⟩
  exact ⟨⟨evolves.wellFormed tidy.wellFormed, used⟩, later⟩

theorem records_tidy (keyed : registry.IsKeyed) (spares : registry.find .result = [])
    {select : OpKind → List Transformation}
    (member : select ∈ (RunRevision.traversals registry).map Prod.snd) :
    Records (fun past => ∀ attempt ∈ past, attempt.LeavesAllUsed registry)
      (fun past (state : RunState α) => state.graph.IsTidy ∧
        ∀ attempt ∈ past, attempt.LeavesAllUsed registry)
      (fun past state => state.graph.IsTidy ∧ ∀ attempt ∈ past, attempt.LeavesAllUsed registry)
      (RunRevision.traverse registry select) (RunRevision.attemptsIn registry select) :=
  (follows_tidy keyed spares member).records_traverse fun _ _ held => held.2

theorem leavesAllUsed_of_mem_attempts (keyed : registry.IsKeyed)
    (spares : registry.find .result = []) (tidy : graph.IsTidy) {attempt : Attempt α}
    (member : attempt ∈ registry.attempts graph) : attempt.LeavesAllUsed registry := by
  unfold attempts RunRevision.attemptsThrough at member
  split at member
  case isTrue => cases member
  case isFalse =>
    have relaxes := @RunRevision.ensures_relaxNodes_tidy α (.ofGraph graph) tidy
    have start : (relaxed graph).graph.IsTidy := by
      unfold relaxed
      rcases ran : RunRevision.relaxNodes.runOn (RunState.ofGraph graph) with ⟨outcome, after⟩
      cases outcome with
      | error => exact (relaxes.of_runOn_error ran).elim
      | ok => exact relaxes.of_runOn ran
    let invariant (selections : List (OpKind → List Transformation)) (past : List (Attempt α))
        (state : RunState α) : Prop :=
      (∀ select ∈ selections, select ∈ (RunRevision.traversals registry).map Prod.snd) ∧
        state.graph.IsTidy ∧ ∀ attempt ∈ past, attempt.LeavesAllUsed registry
    have each (select : OpKind → List Transformation)
        (rest : List (OpKind → List Transformation)) (_ : Nat) :
        Records (fun past => ∀ attempt ∈ past, attempt.LeavesAllUsed registry)
          (invariant (select :: rest)) (invariant rest) (RunRevision.traverse registry select)
          (RunRevision.attemptsIn registry select) := by
      rintro past state ⟨known, held⟩
      obtain ⟨recorded, ensures⟩ :=
        records_tidy keyed spares (known select List.mem_cons_self) past state held
      exact ⟨recorded, ensures.mono (fun _ _ => trivial) fun _ _ held =>
        ⟨fun other listed => known other (List.mem_cons_of_mem select listed), held⟩⟩
    have run := records_foldlM invariant (fun _ _ held => held.2.2) each
      ((RunRevision.traversals registry).map Prod.snd) 0
    exact (run [] (relaxed graph) ⟨fun _ known => known, start, by simp⟩).1 attempt member

theorem allUsed_transform (keyed : registry.IsKeyed) (spares : registry.find .result = [])
    (tidy : graph.IsTidy) {report : RunReport} {after : Graph α}
    (ran : registry.transform graph = (.ok report, after)) : after.AllUsed := by
  have keeps (pass : RunRevision α PhaseReport) (member : pass ∈ RunRevision.phases registry)
      (state : RunState α) (tidy : state.graph.IsTidy) :
      pass.Ensures state (fun _ => True) fun _ after => after.graph.IsTidy := by
    rcases List.mem_cons.mp member with rfl | member
    · exact (RunRevision.ensures_phase (RunRevision.ensures_relaxNodes_tidy tidy)).mono
        (fun _ _ => trivial) fun _ _ tidy => tidy
    · obtain ⟨⟨name, select⟩, known, rfl⟩ := List.mem_map.mp member
      have records := records_tidy keyed spares (List.mem_map_of_mem known) [] state
        ⟨tidy, by simp⟩
      exact RunRevision.ensures_phase (records.2.mono (fun _ _ => trivial) fun _ _ held => held.1)
  have whole : (RunRevision.all registry).Ensures (RunState.ofGraph graph) (fun _ => True)
      fun _ after => after.graph.IsTidy := by
    unfold RunRevision.all
    rw [ensures_bind, ensures_get, ensures_bind]
    exact ensures_mapM (fun state : RunState α => state.graph.IsTidy) tidy keeps
  unfold transform at ran
  split at ran
  case isTrue => cases (Prod.mk.inj ran).1
  case isFalse =>
    rcases ended : (RunRevision.all registry).runOn (RunState.ofGraph graph) with ⟨outcome, last⟩
    rw [ended] at ran
    obtain ⟨rfl, rfl⟩ := Prod.mk.inj ran
    exact (whole.of_runOn ended).used

/-- Of a well-formed graph in which every node is read that is neither a parameter nor a
result, and a registry without transformations for results: after every call that does not
give up, and after a run that does not, every such node is read. -/
theorem allUsed_of_runs (built : registry.IsBuilt) (spares : registry.find .result = [])
    (wellFormed : graph.WellFormed) (used : graph.AllUsed) :
    (∀ attempt ∈ registry.attempts graph, attempt.LeavesAllUsed registry) ∧
      ∀ report after, registry.transform graph = (.ok report, after) → after.AllUsed :=
  ⟨fun _ member => leavesAllUsed_of_mem_attempts built.isKeyed spares ⟨wellFormed, used⟩ member,
    fun _ _ ran => allUsed_transform built.isKeyed spares ⟨wellFormed, used⟩ ran⟩

/-- A run over the pooled input makes eight attempts. -/
theorem allUsed_pooledInput :
    ∃ graph report after, Graph.empty.addAll pooledInput = .ok graph ∧ (all {}).IsBuilt ∧
      (all {}).find .result = [] ∧ graph.WellFormed ∧ graph.AllUsed ∧
      (all {}).transform graph = (.ok report, after) ∧ report.totalRevisions = 4 ∧
      ((all {}).attempts graph).length = 8 ∧
      (∀ attempt ∈ (all {}).attempts graph, attempt.LeavesAllUsed (all {})) ∧
      after.AllUsed := by
  have spares : (all {}).find .result = [] := by rfl
  have ordered : ∀ draft ∈ pooledInput, draft.IsInOrder := by decide
  have used : (Graph.empty.addAll pooledInput).map (fun graph => decide graph.AllUsed) =
      .ok true := by decide +kernel
  obtain ⟨graph, added, facts⟩ := Outcome.map_eq_ok.mp run_pooledInput
  obtain ⟨counted, called⟩ := Prod.mk.inj facts
  rw [calls_eq_map, List.length_map] at called
  obtain ⟨report, ran, revisions⟩ := Outcome.map_eq_ok.mp counted
  rw [added] at used
  have used : graph.AllUsed := of_decide_eq_true (Except.ok.inj used)
  have wellFormed := Graph.wellFormed_empty.addAll ordered added
  have kept := allUsed_of_runs (isBuilt_all {}) spares wellFormed used
  exact ⟨graph, report, _, added, isBuilt_all {}, spares, wellFormed, used, Prod.ext ran rfl,
    revisions, called, kept.1, kept.2 report _ (Prod.ext ran rfl)⟩

set_option synthInstance.maxSize 512 in
/-- A result that is moved is copied, and nothing reads the Multiply behind the copy. -/
theorem exists_not_allUsed :
    movingPastResults.IsBuilt ∧
      ∃ graph report after, Graph.empty.addAll doubledInput = .ok graph ∧ graph.WellFormed ∧
        graph.AllUsed ∧ movingPastResults.transform graph = (.ok report, after) ∧
        ¬ after.AllUsed ∧
        ∃ attempt ∈ movingPastResults.attempts graph,
          ¬ attempt.LeavesAllUsed movingPastResults := by
  have ordered : ∀ draft ∈ doubledInput, draft.IsInOrder := by decide
  have made : (Graph.empty.addAll doubledInput).map (fun graph =>
      (decide graph.AllUsed, (movingPastResults.transform graph).1.map RunReport.totalRevisions,
        (movingPastResults.transform graph).2.isDead (NodeId.mk 5),
        ((movingPastResults.attempts graph)[1]?).map fun attempt =>
          (((attempt.transformation.apply movingPastResults attempt.id).runOn attempt.before).1,
            (attempt.after movingPastResults).graph.isDead (NodeId.mk 5)))) =
      .ok (true, .ok 2, true, some (.ok true, true)) := by decide +kernel
  obtain ⟨graph, added, facts⟩ := Outcome.map_eq_ok.mp made
  obtain ⟨used, facts⟩ := Prod.mk.inj facts
  obtain ⟨counted, facts⟩ := Prod.mk.inj facts
  obtain ⟨dead, attempted⟩ := Prod.mk.inj facts
  obtain ⟨report, ran, _⟩ := Outcome.map_eq_ok.mp counted
  obtain ⟨attempt, listed, told⟩ := Option.map_eq_some_iff.mp attempted
  obtain ⟨changed, left⟩ := Prod.mk.inj told
  refine ⟨.addGeneral (isBuilt_all {}) _, graph, report, _, added,
    Graph.wellFormed_empty.addAll ordered added, of_decide_eq_true used, Prod.ext ran rfl,
    not_allUsed_of_isDead dead, attempt, List.mem_of_getElem? listed, fun leaves => ?_⟩
  exact not_allUsed_of_isDead left (leaves true _ (Prod.ext changed rfl))

end Registry

end QuantGraph
