import QuantGraph.Proofs.Joint.Creation
import QuantGraph.Proofs.Revision.Records
import QuantGraph.Proofs.Run.Passes

/-! The passes while the surroundings of a Concat are quantized. Each of the fake
quantizations waits for its turn as it stood when the subgraph was discovered. -/

namespace QuantGraph

namespace JointRevision

open Revision

variable [Scalar α]

/-- Narrow one fake quantization to its target. -/
def narrowToTarget (updatePrecisions : Bool) (cache : DequantizationCache α)
    (entry : NodeId × TargetRange α) : JointRevision α (DequantizationCache α) := do
  let values ← Revision.ofExcept ((← get).graph.restoringDequantization entry.1 entry.2)
  let precision := if updatePrecisions then entry.2.precision else values.restoredType
  narrow cache entry.1 values precision (Scalar.round entry.2.min) (Scalar.round entry.2.max)

theorem narrowToTargets_eq (targets : List (TargetRange α)) (updatePrecisions : Bool) :
    narrowToTargets targets updatePrecisions = (do
      let producers := (← get).subgraph.quantizers.zip targets
      producers.foldlM (narrowToTarget updatePrecisions) .empty) := rfl

/-- Narrow one fake quantization to its share. -/
def narrowToShare (shared : SharedScale α) (updatePrecisions : Bool)
    (cache : DequantizationCache α) (entry : NodeId × QuantizationLimits α) :
    JointRevision α (DequantizationCache α) := do
  let graph := (← get).graph
  let precision :=
    if updatePrecisions then shared.target.precision
    else (graph.elementType? entry.1).getD shared.restoredType
  narrow cache entry.1 shared.dequantization precision
    (shared.integerFor (entry.2.outputLow.getD 0 0))
    (shared.integerFor (entry.2.outputHigh.getD 0 0))

theorem narrowToShares_eq (shared : SharedScale α) (updatePrecisions : Bool) :
    narrowToShares shared updatePrecisions = (do
      let producers := (← get).subgraph.quantizers.zip shared.limits
      producers.foldlM (narrowToShare shared updatePrecisions) .empty) := rfl

/-! ## Passes -/

omit [Scalar α] in
/-- The pass in which a step takes a fake quantization. -/
def passOf (step : JointRevision α β) (id : NodeId) (state : JointState α) : Pass α :=
  { id := id, before := state.graph, after := (step.runOn state).2.graph }

/-- The pass to a target. There is none when the dequantization cannot be computed. -/
def passesToTarget (updatePrecisions : Bool) (cache : DequantizationCache α)
    (entry : NodeId × TargetRange α) (state : JointState α) : List (Pass α) :=
  match state.graph.restoringDequantization entry.1 entry.2 with
  | .ok _ => [passOf (narrowToTarget updatePrecisions cache entry) entry.1 state]
  | .error _ => []

/-- The pass to a share. -/
def passesToShare (shared : SharedScale α) (updatePrecisions : Bool)
    (cache : DequantizationCache α) (entry : NodeId × QuantizationLimits α)
    (state : JointState α) : List (Pass α) :=
  [passOf (narrowToShare shared updatePrecisions cache entry) entry.1 state]

/-- The passes while a subgraph is quantized with one scale for each channel. -/
def passesPerChannel (policy : Policy) (state : JointState α) : List (Pass α) :=
  match ChannelTargets.forSubgraph state.graph state.subgraph policy with
  | .ok (some found) =>
      along (narrowToTarget policy.updatePrecisions) (passesToTarget policy.updatePrecisions)
        (state.subgraph.quantizers.zip found.targets) .empty state
  | _ => []

/-- The passes while a subgraph is quantized with one scale. -/
def passesWithSharedScale (policy : Policy) (state : JointState α) : List (Pass α) :=
  match SharedScale.forSubgraph state.graph state.subgraph policy with
  | .ok (some shared) =>
      along (narrowToShare shared policy.updatePrecisions)
        (passesToShare shared policy.updatePrecisions)
        (state.subgraph.quantizers.zip shared.limits) .empty state
  | _ => []

end JointRevision

namespace JointState

open QuantGraph.Graph

variable {start : Graph α} {past : List (Pass α)} {state : JointState α}

/-- Some fake quantizations wait for their turn. -/
structure Awaits (start : Graph α) (waiting : List NodeId) (past : List (Pass α))
    (state : JointState α) : Prop where
  tracks : state.toRunState.Tracks start past
  wellFormed : state.graph.WellFormed
  constants : state.graph.ConstantsReadNothing
  nodup : waiting.Nodup
  works : ∀ id ∈ waiting, state.graph.Works id
  limits : ∀ id ∈ waiting, state.graph.HasConstantLimits id
  unpassed : ∀ id ∈ waiting, ∃ uid, state.graph.uid? id = some uid ∧ start.Unpassed past uid

/-- Before the first turn. -/
theorem awaits_of_discovers (tracks : state.toRunState.Tracks start past)
    (wellFormed : state.graph.WellFormed) (constants : state.graph.ConstantsReadNothing)
    (discovers : Subgraph.Discovers state.graph [] state.subgraph)
    (unhandled : ∀ layer ∈ state.subgraph.layers, state.isHandled layer = false)
    (limits : ∀ id ∈ state.subgraph.quantizers, state.graph.HasConstantLimits id) :
    state.Awaits start state.subgraph.quantizers past where
  tracks := tracks
  wellFormed := wellFormed
  constants := constants
  nodup := discovers.quantizers_nodup
  works := fun _ member => discovers.quantizer_works member
  limits := limits
  unpassed := by
    intro id member
    obtain ⟨layer, kind⟩ := discovers.quantizer_layer id member
    obtain ⟨uid, isQuantizer⟩ := exists_isQuantizer kind
    exact ⟨uid, isQuantizer.1, tracks.unpassed isQuantizer (unhandled id layer)⟩

end JointState

namespace JointRevision

open QuantGraph.Graph Revision

variable {start : Graph α} {past : List (Pass α)} {state : JointState α} {id : NodeId}
  {waiting : List NodeId} {pass : Pass α}

theorem once_of_awaits (awaits : state.Awaits start (id :: waiting) past)
    (before_eq : pass.before = state.graph) (id_eq : pass.id = id) :
    start.PassesOnce (past ++ [pass]) := by
  obtain ⟨uid, found, unpassed⟩ := awaits.unpassed id List.mem_cons_self
  refine awaits.tracks.once.concat unpassed ?_ ?_
  · rw [Pass.given, before_eq, id_eq, found]
  · rw [before_eq]
    exact awaits.tracks.nextUid_le

/-- A turn leaves the others as they stood. -/
theorem ensures_narrow_awaits [Scalar α] {cache : DequantizationCache α}
    {values : Dequantization α} {precision : ElementType} {min max : α}
    (awaits : state.Awaits start (id :: waiting) past) (before_eq : pass.before = state.graph)
    (id_eq : pass.id = id) :
    (narrow cache id values precision min max).Ensures state (fun _ => True)
      fun _ after => after.Awaits start waiting (past ++ [pass]) := by
  obtain ⟨uid, found, _⟩ := awaits.unpassed id List.mem_cons_self
  have given : pass.given = some uid := by rw [Pass.given, before_eq, id_eq, found]
  have wellFormed := awaits.wellFormed
  obtain ⟨absent, nodup⟩ := List.nodup_cons.mp awaits.nodup
  unfold narrow
  simp only [ensures_bind, ensures_onGraph, ensures_modify, ensures_markHandled, ensures_pure]
  refine ((GraphRevision.ensures_narrowFakeQuantize wellFormed .refl).and
    (GraphRevision.ensures_narrowFakeQuantize_makes Creates.allowsQuantization_any .none)).mono
    (fun _ _ => trivial) ?_
  rintro narrowed after ⟨⟨_, narrows⟩, makes⟩
  have requantizes : state.graph.Requantizes [⟨id, values, precision, min, max⟩]
      (moving id narrowed) after :=
    Narrows.requantizes narrows wellFormed awaits.constants (awaits.limits id List.mem_cons_self)
  have apart {other : NodeId} (member : other ∈ waiting) : other ≠ id := by
    rintro rfl
    exact absent member
  have outside {other : NodeId} (member : other ∈ waiting) :
      other ∉ [Narrowing.mk id values precision min max].map Narrowing.id := by
    simpa using apart member
  have works {other : NodeId} (member : other ∈ waiting) : state.graph.Works other :=
    awaits.works other (List.mem_cons_of_mem id member)
  have same {other : NodeId} (member : other ∈ waiting) :
      after.node? other = state.graph.node? other :=
    requantizes.node_other other (works member) (outside member)
  have firstWorks : ∀ narrowing ∈ [Narrowing.mk id values precision min max],
      state.graph.Works narrowing.id := by
    simpa using awaits.works id List.mem_cons_self
  exact
    { tracks := by
        refine awaits.tracks.exchange wellFormed.consistent found given
          (once_of_awaits awaits before_eq id_eq) narrows.exchanges ?_
        rw [Creates.nextUid_eq makes.creates]
        exact Nat.le_add_right _ _
      wellFormed := by
        rw [RunState.graph_markHandled]
        exact requantizes.wellFormed
      constants := by
        rw [RunState.graph_markHandled]
        exact requantizes.constants
      nodup := nodup
      works := by
        intro other member
        rw [RunState.graph_markHandled]
        exact (works member).congr (same member)
      limits := by
        intro other member
        rw [RunState.graph_markHandled]
        exact requantizes.hasConstantLimits wellFormed firstWorks (works member) (outside member)
          (awaits.limits other (List.mem_cons_of_mem id member))
      unpassed := by
        intro other member
        rw [RunState.graph_markHandled]
        obtain ⟨number, isUid, unpassed⟩ := awaits.unpassed other (List.mem_cons_of_mem id member)
        refine ⟨number, (uid?_congr (same member)).trans isUid, unpassed.concat fun equal => ?_⟩
        cases given.symm.trans equal
        exact apart member (wellFormed.consistent.uid_unique other id uid isUid found) }

variable [Scalar α] {updatePrecisions : Bool} {cache : DequantizationCache α} {policy : Policy}

theorem records_narrowToTarget (head : NodeId × TargetRange α) (tail : List (NodeId × TargetRange α))
    (cache : DequantizationCache α) :
    Records start.PassesOnce (fun past state => state.Awaits start ((head :: tail).map Prod.fst) past)
      (fun past state => state.Awaits start (tail.map Prod.fst) past)
      (narrowToTarget updatePrecisions cache head)
      (passesToTarget updatePrecisions cache head) := by
  intro past state awaits
  unfold passesToTarget
  cases restores : state.graph.restoringDequantization head.1 head.2 with
  | error error =>
      rw [List.append_nil]
      refine ⟨awaits.tracks.once, ?_⟩
      unfold narrowToTarget
      rw [ensures_bind, ensures_get, restores]
      trivial
  | ok values =>
      refine ⟨once_of_awaits awaits rfl rfl, ?_⟩
      generalize isPass : passOf _ head.1 state = pass
      unfold narrowToTarget
      rw [ensures_bind, ensures_get, ensures_bind]
      refine ensures_ofExcept trivial fun values _ => ?_
      exact ensures_narrow_awaits awaits (by rw [← isPass]; rfl) (by rw [← isPass]; rfl)

theorem records_narrowToShare {shared : SharedScale α} (head : NodeId × QuantizationLimits α)
    (tail : List (NodeId × QuantizationLimits α)) (cache : DequantizationCache α) :
    Records start.PassesOnce (fun past state => state.Awaits start ((head :: tail).map Prod.fst) past)
      (fun past state => state.Awaits start (tail.map Prod.fst) past)
      (narrowToShare shared updatePrecisions cache head)
      (passesToShare shared updatePrecisions cache head) := by
  intro past state awaits
  unfold passesToShare
  refine ⟨once_of_awaits awaits rfl rfl, ?_⟩
  generalize isPass : passOf _ head.1 state = pass
  unfold narrowToShare
  rw [ensures_bind, ensures_get]
  exact ensures_narrow_awaits awaits (by rw [← isPass]; rfl) (by rw [← isPass]; rfl)

/-! ## Behind the fake quantizations -/

theorem ensures_finish_noted {precision : ElementType} :
    (finish cache precision updatePrecisions).Ensures state (fun _ => True)
      fun _ after => ∀ uid ∈ state.handled, uid ∈ after.handled := by
  unfold finish
  rw [ensures_bind, ensures_get, ensures_bind, ensures_onGraph]
  refine ensures_trivial.mono (fun _ _ => trivial) fun _ dequantized _ => ?_
  refine ensures_forM (fun after : JointState α => ∀ uid ∈ state.handled, uid ∈ after.handled)
    (fun _ noted => noted) ?_
  intro layer middle noted
  unfold finishLayer
  rw [ensures_bind, ensures_get]
  dsimp only
  refine ensures_ite_bind
    (fun after : JointState α => ∀ uid ∈ state.handled, uid ∈ after.handled) (fun _ => ?_)
    (fun _ => noted) ?_
  · rw [ensures_onGraph]
    exact ensures_trivial.mono (fun _ _ => trivial) fun _ _ _ => noted
  · intro after noted
    rw [ensures_markHandled]
    exact fun uid member => RunState.mem_handled_markHandled.mpr (Or.inl (noted uid member))

theorem ensures_finish_tracks {precision : ElementType}
    (tracks : state.toRunState.Tracks start past) :
    (finish cache precision updatePrecisions).Ensures state (fun _ => True)
      fun _ after => after.toRunState.Tracks start past := by
  refine ((ensures_finish_makes Creates.allowsArithmetic_ne .none).and
    ensures_finish_noted).mono (fun _ _ => trivial) ?_
  rintro _ after ⟨⟨more, makes⟩, noted⟩
  exact tracks.creates makes.creates noted

/-! ## The two ways of quantizing -/

/-- All fake quantizations take their turns, and then the subgraph is finished. -/
theorem tracks_rounds {β : Type} {entries : List (NodeId × β)}
    {body : DequantizationCache α → NodeId × β → JointRevision α (DequantizationCache α)}
    {record : DequantizationCache α → NodeId × β → JointState α → List (Pass α)}
    {precision : ElementType}
    (each : ∀ head tail cache, Records start.PassesOnce
      (fun past state => state.Awaits start ((head :: tail).map Prod.fst) past)
      (fun past state => state.Awaits start (tail.map Prod.fst) past)
      (body cache head) (record cache head))
    (awaits : state.Awaits start (entries.map Prod.fst) past) :
    start.PassesOnce (past ++ along body record entries .empty state) ∧
      (do
        let cache ← entries.foldlM body .empty
        finish cache precision updatePrecisions
        return true : JointRevision α Bool).Ensures state (fun _ => True) fun _ after =>
          after.toRunState.Tracks start (past ++ along body record entries .empty state) := by
  obtain ⟨once, ensures⟩ := records_foldlM
    (fun entries past (state : JointState α) => state.Awaits start (entries.map Prod.fst) past)
    (fun _ _ awaits => awaits.tracks.once) each entries DequantizationCache.empty past state awaits
  refine ⟨once, ensures_bind.mpr (ensures.mono (fun _ _ => trivial) ?_)⟩
  intro cache narrowed awaits
  exact ensures_bind.mpr ((ensures_finish_tracks awaits.tracks).mono (fun _ _ => trivial)
    fun _ _ tracks => tracks)

section Discovered

variable (tracks : state.toRunState.Tracks start past) (wellFormed : state.graph.WellFormed)
  (constants : state.graph.ConstantsReadNothing)
  (discovers : Subgraph.Discovers state.graph [] state.subgraph)
  (unhandled : ∀ layer ∈ state.subgraph.layers, state.isHandled layer = false)

include tracks wellFormed constants discovers unhandled

theorem tracks_quantizePerChannel :
    start.PassesOnce (past ++ passesPerChannel policy state) ∧
      (quantizePerChannel policy).Ensures state (fun _ => True)
        fun _ after => after.toRunState.Tracks start (past ++ passesPerChannel policy state) := by
  unfold quantizePerChannel passesPerChannel
  rw [ensures_bind, ensures_get, ensures_bind]
  rcases resolves : ChannelTargets.forSubgraph state.graph state.subgraph policy with _ | found
  · exact ⟨tracks.idle.1, trivial⟩
  cases found with
  | none => exact tracks.idle
  | some found =>
      obtain ⟨length_eq, limits⟩ := JointState.targets_of_forSubgraph resolves
      have awaits := JointState.awaits_of_discovers tracks wellFormed constants discovers unhandled
        limits
      rw [← List.map_fst_zip (Nat.le_of_eq length_eq.symm)] at awaits
      exact tracks_rounds records_narrowToTarget awaits

theorem tracks_quantizeWithSharedScale :
    start.PassesOnce (past ++ passesWithSharedScale policy state) ∧
      (quantizeWithSharedScale policy).Ensures state (fun _ => True)
        fun _ after => after.toRunState.Tracks start (past ++ passesWithSharedScale policy state) := by
  unfold quantizeWithSharedScale passesWithSharedScale
  rw [ensures_bind, ensures_get, ensures_bind]
  rcases resolves : SharedScale.forSubgraph state.graph state.subgraph policy with _ | shared
  · exact ⟨tracks.idle.1, trivial⟩
  cases shared with
  | none => exact tracks.idle
  | some shared =>
      obtain ⟨length_eq, limits⟩ := JointState.limits_of_forSubgraph resolves
      have awaits := JointState.awaits_of_discovers tracks wellFormed constants discovers unhandled
        limits
      rw [← List.map_fst_zip (Nat.le_of_eq length_eq.symm)] at awaits
      exact tracks_rounds records_narrowToShare awaits

end Discovered

end JointRevision

/-! ## The rules -/

namespace RunRevision

open QuantGraph.Graph Revision

variable [Scalar α] {start : Graph α} {past : List (Pass α)} {state : RunState α}
  {registry : Registry} {policy : Policy} {id : NodeId}

/-- The passes of an attempt to quantize the surroundings of a Concat with one scale. -/
def passesAroundConcat (registry : Registry) (policy : Policy) (id : NodeId)
    (state : RunState α) : List (Pass α) :=
  if state.isHandled id then []
  else
    match state.subgraphAround? registry id with
    | none => []
    | some subgraph =>
        JointRevision.passesWithSharedScale policy { toRunState := state, subgraph := subgraph }

/-- The passes of an attempt to quantize the surroundings of a Concat with one scale for each
channel, or with one scale where a Convolution reads the result. -/
def passesAroundConcatChannels (registry : Registry) (policy : Policy) (id : NodeId)
    (state : RunState α) : List (Pass α) :=
  if state.isHandled id then []
  else
    match state.subgraphAround? registry id with
    | none => []
    | some subgraph =>
        let joint : JointState α := { toRunState := state, subgraph := subgraph }
        if state.graph.isMultiChannel subgraph.concats then
          JointRevision.passesPerChannel policy joint
        else JointRevision.passesWithSharedScale policy joint

theorem tracks_quantizeConcatChannels (tracks : state.Tracks start past)
    (wellFormed : state.graph.WellFormed) (constants : state.graph.ConstantsReadNothing)
    (kind : state.graph.kind? id = some .concat) :
    start.PassesOnce (past ++ passesAroundConcatChannels registry policy id state) ∧
      (quantizeConcatChannels registry policy id).Ensures state (fun _ => True) fun _ after =>
        after.Tracks start (past ++ passesAroundConcatChannels registry policy id state) := by
  unfold quantizeConcatChannels passesAroundConcatChannels
  rw [ensures_bind, ensures_get]
  split
  case isTrue => exact tracks.idle
  case isFalse =>
    cases found : state.subgraphAround? registry id with
    | none => exact tracks.idle
    | some subgraph =>
        obtain ⟨around, unhandled⟩ := RunState.subgraphAround?_eq_some found
        obtain ⟨discovers, _⟩ := Subgraph.discovers_around? kind around
        dsimp only
        split
        case isTrue =>
          rw [ensures_onSubgraph]
          exact JointRevision.tracks_quantizePerChannel tracks wellFormed constants discovers
            unhandled
        case isFalse =>
          rw [ensures_onSubgraph]
          exact JointRevision.tracks_quantizeWithSharedScale tracks wellFormed constants discovers
            unhandled

end RunRevision

end QuantGraph
