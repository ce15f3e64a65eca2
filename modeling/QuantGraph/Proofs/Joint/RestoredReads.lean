import Mathlib
import QuantGraph.Proofs.Joint.ChannelValues
import QuantGraph.Proofs.Joint.SignedScale

/-! What is read from the surroundings of a Concat once a rule has quantized them, with one scale for
each channel or with one scale for all. -/

namespace QuantGraph

open QuantGraph.Graph

/-! ## Channels -/

namespace Subgraph

variable {subgraph : Subgraph} {graph after : Graph Rat} {axes : List Nat} {feeds : Assignment Rat}
  {relation : Rat → Rat → Prop}

/-- The output limits of every fake quantization of a subgraph are related channel by channel. -/
def RelatesChannels (subgraph : Subgraph) (graph : Graph Rat) (relation : Rat → Rat → Prop) : Prop :=
  ∀ quantizer ∈ subgraph.quantizers, ∀ limits, graph.quantizationLimits? quantizer = some limits →
    ∀ interval ∈ limits.outputLow.zip limits.outputHigh, relation interval.1 interval.2

instance [DecidableRel relation] : Decidable (subgraph.RelatesChannels graph relation) :=
  inferInstanceAs (Decidable (∀ quantizer ∈ subgraph.quantizers,
    ∀ limits ∈ graph.quantizationLimits? quantizer,
      ∀ interval ∈ limits.outputLow.zip limits.outputHigh, relation interval.1 interval.2))

/-- The two output limits of every fake quantization of a subgraph have the same shape. -/
def HasLikeOutputs (subgraph : Subgraph) (graph : Graph Rat) : Prop :=
  ∀ quantizer ∈ subgraph.quantizers, ∀ low ∈ graph.limit? quantizer .outputLow,
    ∀ high ∈ graph.limit? quantizer .outputHigh, high.shape = low.shape

instance : Decidable (subgraph.HasLikeOutputs graph) :=
  inferInstanceAs (Decidable (∀ quantizer ∈ subgraph.quantizers,
    ∀ low ∈ graph.limit? quantizer .outputLow, ∀ high ∈ graph.limit? quantizer .outputHigh,
      high.shape = low.shape))

/-- Limits of one shape are read at any place as the limits of one channel. -/
theorem HasLikeOutputs.exists_channel (alike : subgraph.HasLikeOutputs graph)
    (keeps : subgraph.KeepsChannels graph axes) {quantizer : NodeId}
    (member : quantizer ∈ subgraph.quantizers) {limits : QuantizationLimits Rat}
    (found : graph.quantizationLimits? quantizer = some limits) {low high : Tensor Rat}
    (isLow : graph.limit? quantizer .outputLow = some low)
    (isHigh : graph.limit? quantizer .outputHigh = some high) {shape : Shape}
    (isShape : graph.shape? quantizer = some shape) {index : Index} (holds : shape.Holds index) :
    ∃ channel : Nat, limits.outputLow[channel]? = some (low.values.read index) ∧
      limits.outputHigh[channel]? = some (high.values.read index) := by
  have same : high.shape = low.shape := alike quantizer member low isLow high isHigh
  obtain ⟨lows, highs⟩ := outputLimits_of_quantizationLimits? found isLow isHigh
  have lowStretches := keeps.stretchesTo member (by simp) isLow isShape
  have highStretches : high.shape.StretchesTo shape := same ▸ lowStretches
  refine ⟨low.shape.offset (low.shape.stretchedIndex index), ?_, ?_⟩
  · rw [lows]
    exact NDArray.getElem?_toList_stretchedIndex lowStretches holds
  · rw [highs, ← same]
    exact NDArray.getElem?_toList_stretchedIndex highStretches holds

theorem RelatesChannels.relatesOutputs (relates : subgraph.RelatesChannels graph relation)
    (alike : subgraph.HasLikeOutputs graph) (keeps : subgraph.KeepsChannels graph axes)
    (limited : ∀ quantizer ∈ subgraph.quantizers, ∃ limits,
      graph.quantizationLimits? quantizer = some limits) :
    subgraph.RelatesOutputs graph relation := by
  intro quantizer member low isLow high isHigh shape isShape index holds
  obtain ⟨limits, found⟩ := limited quantizer member
  obtain ⟨channel, isLowest, isHighest⟩ := alike.exists_channel keeps member found isLow isHigh
    isShape holds
  exact relates quantizer member limits found (low.values.read index, high.values.read index)
    (List.mem_iff_getElem?.mpr ⟨channel, List.getElem?_zip_eq_some.mpr ⟨isLowest, isHighest⟩⟩)

theorem ReadsRestored.mono {describes describes' : NodeId → Index → Rat → Rat → Prop}
    (restored : subgraph.ReadsRestored graph after feeds describes)
    (weaker : ∀ id value index scale difference, graph.HasValue feeds id value →
      value.shape.Holds index → describes id index scale difference →
        describes' id index scale difference) :
    subgraph.ReadsRestored graph after feeds describes' := by
  intro consumer outside position output value read isLayer has
  obtain ⟨source, scale, array, readsSource, applies, hasRestored, shape_eq, each⟩ :=
    restored consumer outside position output value read isLayer has
  exact ⟨source, scale, array, readsSource, applies, hasRestored, shape_eq, fun index holds =>
    weaker _ _ _ _ _ has holds (each index holds)⟩

end Subgraph

/-! ## Shifts that are left out -/

namespace JointState

variable {policy : Policy} {state final : JointState Rat} {feeds : Assignment Rat}
  {axes : List Nat} {targets : List (TargetRange Rat)} {narrowings : List (Narrowing Rat)}
  {moved : NodeId → NodeId} {chains : NodeId → Option DequantizationChain}

/-- What a shift would have taken away is hardly more than a scale, where it is left out. -/
theorem ScalesChannels.abs_le_of_leavesOutShifts
    (scales : state.ScalesChannels policy targets narrowings moved chains final)
    (shapes : state.graph.HasConsistentShapes feeds)
    (keeps : state.subgraph.KeepsChannels state.graph axes)
    (alike : state.subgraph.HasLikeOutputs state.graph)
    (differ : state.subgraph.RelatesOutputs state.graph (· ≠ ·)) {id : NodeId} {index : Index}
    {value : NDArray Rat} {scale difference : Rat} (has : state.graph.HasValue feeds id value)
    (holds : value.shape.Holds index)
    (leaves : state.subgraph.LeavesOutShifts state.graph targets id index scale difference) :
    |difference| ≤ (1 + 1 / 10 ^ 6) * |scale| := by
  obtain ⟨origin, position, stems⟩ := leaves.stems
  obtain ⟨target, kept, low, high, listed, restoring, isLow, isHigh, rfl, rfl⟩ :=
    leaves.moves origin position stems
  obtain ⟨origins, hasOrigin, inside⟩ := stems.exists_holds shapes has holds
  have isShape := shapes.declared _ _ hasOrigin
  have member := stems.mem_quantizers
  generalize isScale : (high.values.read position - low.values.read position) /
    (target.max - target.min) = scale
  have positive := abs_nonneg scale
  by_cases unshifted : kept.shift = none
  · rw [if_pos unshifted]
    obtain ⟨narrowing, _, rfl, retargets⟩ := scales.exists_retargets listed
    obtain ⟨limits, isLimits, _, _, resolved⟩ := retargets.limits
    cases pointed : target.hasZeroPoint with
    | true =>
        obtain ⟨node, isNode, _⟩ := Option.bind_eq_some_iff.mp isLimits
        obtain ⟨_, restores⟩ := restoringDequantization_eq_ok isNode isLow isHigh restoring
        have small := restores.abs_left_out_le
          (keeps.stretchesTo member (by simp) isLow isShape)
          (keeps.stretchesTo member (by simp) isHigh isShape) inside unshifted pointed
          (differ _ member low isLow high isHigh _ isShape position inside)
        rw [isScale] at small
        linarith
    | false =>
        obtain ⟨channel, isLowest, isHighest⟩ := alike.exists_channel keeps member isLimits isLow
          isHigh isShape inside
        have small := TargetRange.abs_unshifted_le (resolved pointed) pointed isLowest isHighest
        rw [isScale] at small
        linarith
  · rw [if_neg unshifted, abs_zero]
    positivity

end JointState

/-! ## One scale -/

namespace JointState

variable {policy : Policy} {state final : JointState Rat} {feeds : Assignment Rat}
  {registry : Registry} {concat : NodeId}

/-- With one scale, intervals that run upwards are as good as limits that lie in order. -/
theorem SharesScale.keepsMaxima {shared : SharedScale Rat} {levels : Nat}
    {narrowings : List (Narrowing Rat)} {moved : NodeId → NodeId}
    {chains : NodeId → Option DequantizationChain}
    (shares : state.SharesScale policy shared levels narrowings moved chains final)
    (ordered : state.subgraph.TakesMaxima state.graph →
      state.subgraph.RelatesChannels state.graph (· < ·)) :
    shared.KeepsMaxima state.graph state.subgraph := by
  by_cases maxima : state.subgraph.TakesMaxima state.graph
  · refine Or.inl (shares.serves.maps.scale_pos (shares.union_wide ?_))
    intro id member limits found low isLow high isHigh
    obtain ⟨narrowing, isNarrowing, rfl⟩ := shares.exists_narrowing member
    obtain ⟨limits', lowest, highest, share⟩ := shares.share narrowing isNarrowing
    cases Option.some.inj (found.symm.trans share.found)
    obtain ⟨_, lows⟩ := share.outputs.low
    obtain ⟨_, highs⟩ := share.outputs.high
    rw [lows] at isLow
    rw [highs] at isHigh
    rw [List.eq_of_mem_replicate isLow, List.eq_of_mem_replicate isHigh]
    exact ordered maxima _ member limits found _ share.outputs.mem_zip
  · exact Or.inr fun layer member isMaximum => maxima ⟨layer, member, isMaximum⟩

theorem readsRestored_of_sharedScale (wellFormed : state.graph.WellFormed)
    (constants : state.graph.ConstantsReadNothing)
    (kind : state.graph.kind? concat = some .concat)
    (around : Subgraph.around? registry state.graph concat = some state.subgraph)
    (later : final.graph.WellFormed)
    (ordered : state.subgraph.TakesMaxima state.graph →
      state.subgraph.RelatesChannels state.graph (· < ·))
    (real : state.subgraph.IsReal state.graph) (apart : state.subgraph.IsApart state.graph)
    (shapes : state.graph.HasConsistentShapes feeds)
    (quantizes : QuantizesWithSharedScale policy state final) :
    state.subgraph.ReadsRestored state.graph final.graph feeds fun _ _ scale difference =>
      |difference| ≤ (1 + 1 / 10 ^ 6) * |scale| := by
  obtain ⟨shared, _, _, _, _, resolves, shares⟩ :=
    exists_sharesScale_of_quantizes wellFormed constants kind around later quantizes
  refine (shares.readsRestored resolves wellFormed constants (shares.keepsMaxima ordered) real apart
    shapes).mono fun _ _ _ scale _ _ _ ⟨_, bound⟩ => bound.trans ?_
  refine mul_le_mul_of_nonneg_right (add_le_add_left ?_ _) (abs_nonneg scale)
  split <;> norm_num

theorem readsRestored_of_perChannel {axes : List Nat} (wellFormed : state.graph.WellFormed)
    (constants : state.graph.ConstantsReadNothing)
    (discovers : Subgraph.Discovers state.graph [] state.subgraph)
    (ordered : state.subgraph.TakesMaxima state.graph →
      state.subgraph.RelatesChannels state.graph (· < ·))
    (keeps : state.subgraph.KeepsChannels state.graph axes)
    (alike : state.subgraph.HasLikeOutputs state.graph)
    (differ : state.subgraph.RelatesChannels state.graph (· ≠ ·))
    (real : state.subgraph.IsReal state.graph) (apart : state.subgraph.IsApart state.graph)
    (shapes : state.graph.HasConsistentShapes feeds)
    (quantizes : QuantizesPerChannel policy state final) :
    state.subgraph.ReadsRestored state.graph final.graph feeds fun _ _ scale difference =>
      |difference| ≤ (1 + 1 / 10 ^ 6) * |scale| := by
  obtain ⟨found, narrowings, moved, chains, _, scales⟩ :=
    exists_scalesChannels wellFormed constants discovers quantizes
  have limited := scales.exists_limits
  have keepsOrder : state.subgraph.KeepsOrder state.graph :=
    ⟨differ.relatesOutputs alike keeps limited,
      fun maxima => (ordered maxima).relatesOutputs alike keeps limited⟩
  exact (scales.readsRestored shapes keeps real wellFormed apart keepsOrder constants).mono
    fun _ _ _ _ _ has holds leaves =>
      scales.abs_le_of_leavesOutShifts shapes keeps alike keepsOrder.differ has holds leaves

end JointState

/-! ## The rules -/

namespace Transformation

variable {transformation : Transformation} {registry : Registry} {id : NodeId} {changed : Bool}
  {state after : RunState Rat} {subgraph : Subgraph} {axes : List Nat} {feeds : Assignment Rat}

/-- With one scale for each channel, whatever is read from the surroundings of a Concat elsewhere is
restored by the scale of the channel from which it stems. It stays as it was, but for shifts that
were left out. -/
theorem leavesOutShifts_of_apply (wellFormed : state.graph.WellFormed)
    (constants : state.graph.ConstantsReadNothing)
    (kind : state.graph.kind? id = some .concat)
    (around : state.subgraphAround? registry id = some subgraph)
    (channels : transformation.worksPerChannel state.graph subgraph = true)
    (real : subgraph.IsReal state.graph) (apart : subgraph.IsApart state.graph)
    (shapes : state.graph.HasConsistentShapes feeds)
    (keeps : subgraph.KeepsChannels state.graph axes) (ordered : subgraph.KeepsOrder state.graph)
    (applied : (transformation.apply registry id).runOn state = (.ok true, after)) :
    ∃ found, ChannelTargets.forSubgraph state.graph subgraph transformation.policy =
        .ok (some found) ∧
      subgraph.ReadsRestored state.graph after.graph feeds
        (subgraph.LeavesOutShifts state.graph found.targets) := by
  obtain ⟨_, subgraph', around', final, rfl, quantizes⟩ :=
    exists_quantizesSubgraph (Or.inr (rule_of_worksPerChannel channels)) wellFormed kind applied
  cases Option.some.inj (around.symm.trans around')
  rw [channels, if_pos rfl] at quantizes
  obtain ⟨discovers, _⟩ :=
    Subgraph.discovers_around? kind (RunState.subgraphAround?_eq_some around).1
  obtain ⟨found, narrowings, moved, chains, resolves, scales⟩ :=
    JointState.exists_scalesChannels wellFormed constants discovers quantizes
  exact ⟨found, resolves,
    scales.readsRestored shapes keeps real wellFormed apart ordered constants⟩

/-- An image of two channels, quantized with an interval for each of them and with one for both, and
a Concat of what is pooled from either. -/
def separateIntervals : List (Draft Rat) :=
  let image := (NodeId.mk 0).output
  let low := (NodeId.mk 1).output
  let high := (NodeId.mk 2).output
  let least := (NodeId.mk 3).output
  let largest := (NodeId.mk 4).output
  let channels (first second : Rat) : Op Rat := .constant
    { elementType := .f32
      values := .ofFn [1, 2, 1, 1] fun index => if index.getD 1 0 = 0 then first else second }
  [{ op := .parameter, name := "image"
     declared := some { elementType := .f32, shape := [1, 2, 2, 1] } },
    (channels (-128) (-257)).draft "low",
    (channels 127 255).draft "high",
    (Op.constant (.scalar .f32 (-129))).draft "least",
    (Op.constant (.scalar .f32 127)).draft "largest",
    ((Op.fakeQuantize 256).draft "apart").readOutputs [image, low, high, low, high],
    ((Op.fakeQuantize 256).draft "alike").readOutputs [image, least, largest, least, largest],
    ((Op.maxPool ⟨2, 1⟩).draft "brightest").readAll [NodeId.mk 5],
    ((Op.avgPool ⟨2, 1⟩).draft "average").readAll [NodeId.mk 6],
    ((Op.concat 1).draft "joined").readAll [NodeId.mk 7, NodeId.mk 8],
    (Op.result.draft "output").readAll [NodeId.mk 9],
    (Op.relu.draft "direct").readAll [NodeId.mk 6]]

def separateSubgraph : Subgraph :=
  { quantizers := [NodeId.mk 5, NodeId.mk 6], concats := [NodeId.mk 9]
    layers := [NodeId.mk 9, NodeId.mk 7, NodeId.mk 5, NodeId.mk 8, NodeId.mk 6] }

theorem leavesOutShifts_separateIntervals :
    ∃ graph after feeds, Graph.empty.addAll separateIntervals = .ok graph ∧ graph.WellFormed ∧
      graph.ConstantsReadNothing ∧ graph.kind? (NodeId.mk 9) = some .concat ∧
      (RunState.ofGraph graph).subgraphAround? (.all {}) (NodeId.mk 9) = some separateSubgraph ∧
      scaleChannels.worksPerChannel graph separateSubgraph = true ∧
      separateSubgraph.IsReal graph ∧ separateSubgraph.IsApart graph ∧
      graph.HasConsistentShapes feeds ∧ separateSubgraph.KeepsChannels graph [1] ∧
      separateSubgraph.KeepsOrder graph ∧
      (scaleChannels.apply (.all {}) (NodeId.mk 9)).runOn (.ofGraph graph) = (.ok true, after) ∧
      ∃ found, ChannelTargets.forSubgraph graph separateSubgraph scaleChannels.policy =
          .ok (some found) ∧
        separateSubgraph.ReadsRestored graph after.graph feeds
          (separateSubgraph.LeavesOutShifts graph found.targets) := by
  let feeds : Assignment Rat := Assignment.none.set (NodeId.mk 0) (.replicate [1, 2, 2, 1] 33)
  have inOrder : ∀ draft ∈ separateIntervals, draft.IsInOrder := by decide
  have undeclared : ∀ draft ∈ separateIntervals,
      draft.op.kind ≠ .parameter → draft.declared = none := by decide
  have made : (Graph.empty.addAll separateIntervals).map (fun graph =>
      (graph.kind? (NodeId.mk 9),
        graph.nodeIds.all fun id => (graph.constant? id).isNone || (graph.inputs id).isEmpty,
        (RunState.ofGraph graph).subgraphAround? (.all {}) (NodeId.mk 9),
        scaleChannels.worksPerChannel graph separateSubgraph,
        decide (separateSubgraph.IsReal graph),
        decide (∀ quantizer ∈ separateSubgraph.quantizers, ∀ output ∈ graph.inputs quantizer,
          graph.inputs output.node = [] ∧ output.node ∉ separateSubgraph.layers),
        decide graph.IsEvaluable, decide (graph.IsFed feeds),
        decide (separateSubgraph.KeepsChannels graph [1]),
        decide (separateSubgraph.HasLikeOutputs graph),
        decide (separateSubgraph.RelatesChannels graph (· < ·)),
        decide (∀ quantizer ∈ separateSubgraph.quantizers,
          (graph.quantizationLimits? quantizer).isSome),
        ((scaleChannels.apply (.all {}) (NodeId.mk 9)).runOn (.ofGraph graph)).1)) =
      .ok (some .concat, true, some separateSubgraph, true, true, true, true, true, true, true, true,
        true, .ok true) := by cbv
  obtain ⟨graph, added, facts⟩ := Outcome.map_eq_ok.mp made
  simp only [Prod.mk.injEq] at facts
  obtain ⟨kind, constants, around, channels, real, apart, evaluable, fed, keeps, alike, increasing,
    limited, changed⟩ := facts
  have wellFormed := Graph.wellFormed_empty.addAll inOrder added
  have constants := constantsReadNothing_of_all constants
  have real : separateSubgraph.IsReal graph := of_decide_eq_true real
  have apart := Subgraph.isApart_of_inputs (of_decide_eq_true apart)
  have inferred := Graph.isInferred_empty.addAll Graph.wellFormed_empty inOrder undeclared added
  have shapes : graph.HasConsistentShapes feeds :=
    inferred.hasConsistentShapes wellFormed (of_decide_eq_true evaluable) (of_decide_eq_true fed)
  have keeps : separateSubgraph.KeepsChannels graph [1] := of_decide_eq_true keeps
  have increasing : separateSubgraph.RelatesChannels graph (· < ·) := of_decide_eq_true increasing
  have ordered : separateSubgraph.KeepsOrder graph :=
    .of_lt (increasing.relatesOutputs (of_decide_eq_true alike) keeps fun quantizer member =>
      Option.isSome_iff_exists.mp (of_decide_eq_true limited quantizer member))
  have applied : (scaleChannels.apply (.all {}) (NodeId.mk 9)).runOn (.ofGraph graph) =
      (.ok true, _) := Prod.ext changed rfl
  exact ⟨graph, _, feeds, added, wellFormed, constants, kind, around, channels, real, apart, shapes,
    keeps, ordered, applied, leavesOutShifts_of_apply wellFormed constants kind around channels real
      apart shapes keeps ordered applied⟩

/-- A rule for Concats changes nothing, or what is read from the surroundings elsewhere stays within
a scale of what was read there, whatever its sign, but for the shift that is dropped when it is
nearly zero. Maxima ask for intervals that run upwards, and channels for limits of their own. -/
theorem readsRestored_of_apply
    (joint : transformation.rule = .concat ∨ transformation.rule = .concatMultiChannels)
    (wellFormed : state.graph.WellFormed) (constants : state.graph.ConstantsReadNothing)
    (kind : state.graph.kind? id = some .concat)
    (around : state.subgraphAround? registry id = some subgraph)
    (real : subgraph.IsReal state.graph) (apart : subgraph.IsApart state.graph)
    (shapes : state.graph.HasConsistentShapes feeds)
    (ordered : subgraph.TakesMaxima state.graph → subgraph.RelatesChannels state.graph (· < ·))
    (channels : transformation.worksPerChannel state.graph subgraph = true →
      subgraph.KeepsChannels state.graph axes ∧ subgraph.HasLikeOutputs state.graph ∧
        subgraph.RelatesChannels state.graph (· ≠ ·))
    (applied : (transformation.apply registry id).runOn state = (.ok changed, after)) :
    if changed then
      subgraph.ReadsRestored state.graph after.graph feeds fun _ _ scale difference =>
        |difference| ≤ (1 + 1 / 10 ^ 6) * |scale|
    else after = state := by
  cases changed with
  | false =>
      have matched : transformation.matchedKind = .concat := by
        rcases joint with rule | rule <;> rw [matchedKind, rule] <;> rfl
      have not_result : transformation.matchedKind ≠ .result := by
        rw [matched]
        decide
      exact ((ensures_apply wellFormed .refl (matched ▸ kind) not_result).of_runOn applied).2
  | true =>
      obtain ⟨later, subgraph', around', final, rfl, quantizes⟩ :=
        exists_quantizesSubgraph joint wellFormed kind applied
      cases Option.some.inj (around.symm.trans around')
      have found := (RunState.subgraphAround?_eq_some around).1
      rw [if_pos rfl]
      split at quantizes
      case isTrue perChannel =>
        obtain ⟨keeps, alike, differ⟩ := channels perChannel
        exact JointState.readsRestored_of_perChannel wellFormed constants
          (Subgraph.discovers_around? kind found).1 ordered keeps alike differ real apart shapes
          quantizes
      case isFalse =>
        exact JointState.readsRestored_of_sharedScale wellFormed constants kind found later ordered
          real apart shapes quantizes

/-- Two pixels, quantized with an output interval that runs downwards, the mean of both, and a Concat
of it. -/
def mirroredMean : List (Draft Rat) :=
  let zero := (NodeId.mk 1).output
  let full := (NodeId.mk 2).output
  [{ op := .parameter, name := "pixels"
     declared := some { elementType := .f32, shape := [1, 1, 1, 2] } },
    (Op.constant (.scalar .f32 0)).draft "zero",
    (Op.constant (.scalar .f32 255)).draft "full",
    ((Op.fakeQuantize 256).draft "mirrored").readOutputs
      [(NodeId.mk 0).output, zero, full, full, zero],
    ((Op.avgPool { height := 1, width := 2 }).draft "mean").readAll [NodeId.mk 3],
    ((Op.concat 1).draft "joined").readAll [NodeId.mk 4],
    (Op.result.draft "output").readAll [NodeId.mk 5]]

def mirroredSubgraph : Subgraph :=
  { quantizers := [NodeId.mk 3], concats := [NodeId.mk 5]
    layers := [NodeId.mk 5, NodeId.mk 4, NodeId.mk 3] }

theorem readsRestored_mirroredMean :
    ∃ graph feeds, Graph.empty.addAll mirroredMean = .ok graph ∧ graph.WellFormed ∧
      graph.ConstantsReadNothing ∧ graph.kind? (NodeId.mk 5) = some .concat ∧
      (RunState.ofGraph graph).subgraphAround? (.all {}) (NodeId.mk 5) = some mirroredSubgraph ∧
      mirroredSubgraph.IsReal graph ∧ mirroredSubgraph.IsApart graph ∧
      graph.HasConsistentShapes feeds ∧ ¬ mirroredSubgraph.RelatesChannels graph (· < ·) ∧
      (mirroredSubgraph.TakesMaxima graph → mirroredSubgraph.RelatesChannels graph (· < ·)) ∧
      ∀ transformation ∈ [scaleTogether, scaleChannels],
        (transformation.rule = .concat ∨ transformation.rule = .concatMultiChannels) ∧
        (transformation.worksPerChannel graph mirroredSubgraph = true →
          mirroredSubgraph.KeepsChannels graph [1] ∧ mirroredSubgraph.HasLikeOutputs graph ∧
            mirroredSubgraph.RelatesChannels graph (· ≠ ·)) ∧
        ∃ after, (transformation.apply (.all {}) (NodeId.mk 5)).runOn (.ofGraph graph) =
            (.ok true, after) ∧
          mirroredSubgraph.ReadsRestored graph after.graph feeds fun _ _ scale difference =>
            |difference| ≤ (1 + 1 / 10 ^ 6) * |scale| := by
  let feeds : Assignment Rat := Assignment.none.set (NodeId.mk 0) (.replicate [1, 1, 1, 2] 33)
  have inOrder : ∀ draft ∈ mirroredMean, draft.IsInOrder := by decide
  have undeclared : ∀ draft ∈ mirroredMean,
      draft.op.kind ≠ .parameter → draft.declared = none := by decide
  have made : (Graph.empty.addAll mirroredMean).map (fun graph =>
      (graph.kind? (NodeId.mk 5),
        graph.nodeIds.all fun id => (graph.constant? id).isNone || (graph.inputs id).isEmpty,
        (RunState.ofGraph graph).subgraphAround? (.all {}) (NodeId.mk 5),
        decide (mirroredSubgraph.IsReal graph),
        decide (∀ quantizer ∈ mirroredSubgraph.quantizers, ∀ output ∈ graph.inputs quantizer,
          graph.inputs output.node = [] ∧ output.node ∉ mirroredSubgraph.layers),
        decide graph.IsEvaluable, decide (graph.IsFed feeds),
        decide (mirroredSubgraph.KeepsChannels graph [1]),
        decide (mirroredSubgraph.HasLikeOutputs graph),
        decide (mirroredSubgraph.RelatesChannels graph (· ≠ ·)),
        decide (mirroredSubgraph.RelatesChannels graph (· < ·)),
        decide (mirroredSubgraph.TakesMaxima graph),
        [scaleTogether, scaleChannels].map fun transformation =>
          ((transformation.apply (.all {}) (NodeId.mk 5)).runOn (.ofGraph graph)).1)) =
      .ok (some .concat, true, some mirroredSubgraph, true, true, true, true, true, true, true,
        false, false, List.replicate 2 (.ok true)) := by cbv
  obtain ⟨graph, added, facts⟩ := Outcome.map_eq_ok.mp made
  simp only [Prod.mk.injEq] at facts
  obtain ⟨kind, constants, around, real, apart, evaluable, fed, keeps, alike, differ, downwards,
    averaged, ran⟩ := facts
  have wellFormed := Graph.wellFormed_empty.addAll inOrder added
  have constants := constantsReadNothing_of_all constants
  have real : mirroredSubgraph.IsReal graph := of_decide_eq_true real
  have apart := Subgraph.isApart_of_inputs (of_decide_eq_true apart)
  have inferred := Graph.isInferred_empty.addAll Graph.wellFormed_empty inOrder undeclared added
  have shapes : graph.HasConsistentShapes feeds :=
    inferred.hasConsistentShapes wellFormed (of_decide_eq_true evaluable) (of_decide_eq_true fed)
  have ordered (maxima : mirroredSubgraph.TakesMaxima graph) :
      mirroredSubgraph.RelatesChannels graph (· < ·) :=
    absurd maxima (of_decide_eq_false averaged)
  refine ⟨graph, feeds, added, wellFormed, constants, kind, around, real, apart, shapes,
    of_decide_eq_false downwards, ordered, fun transformation member => ?_⟩
  have joint : transformation.rule = .concat ∨ transformation.rule = .concatMultiChannels := by
    simp only [List.mem_cons, List.not_mem_nil, or_false] at member
    rcases member with rfl | rfl
    · exact Or.inl rfl
    · exact Or.inr rfl
  have channels (_ : transformation.worksPerChannel graph mirroredSubgraph = true) :
      mirroredSubgraph.KeepsChannels graph [1] ∧ mirroredSubgraph.HasLikeOutputs graph ∧
        mirroredSubgraph.RelatesChannels graph (· ≠ ·) :=
    ⟨of_decide_eq_true keeps, of_decide_eq_true alike, of_decide_eq_true differ⟩
  have changed := List.eq_of_mem_replicate (ran ▸ List.mem_map_of_mem member)
  have applied : (transformation.apply (.all {}) (NodeId.mk 5)).runOn (.ofGraph graph) =
      (.ok true, _) := Prod.ext changed rfl
  exact ⟨joint, channels, _, applied, readsRestored_of_apply joint wellFormed constants kind around
    real apart shapes ordered channels applied⟩

end Transformation

end QuantGraph
