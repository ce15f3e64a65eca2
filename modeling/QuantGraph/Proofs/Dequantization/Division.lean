import QuantGraph.Proofs.Dequantization.Exactness
import QuantGraph.Proofs.Joint.Quantized
import QuantGraph.Proofs.Quantization.TargetRange
import QuantGraph.Proofs.Run.Apply
import QuantGraph.Scalar.Single

/-! The division behind a shift. Whether there is a shift is settled for a fake quantization as
a whole, but the division is by the width of the output interval of each channel. -/

namespace QuantGraph

namespace Dequantization

/-- A shift that is kept is the one that was computed, and it is not as good as zero. -/
theorem shiftUnlessZero_eq_some [Scalar α] {shift kept : Tensor α}
    (found : shiftUnlessZero shift = some kept) : kept = shift ∧ shift.isNearZero = false := by
  unfold shiftUnlessZero at found
  split at found
  case isTrue => cases found
  case isFalse far => exact ⟨(Option.some.inj found).symm, Bool.eq_false_iff.mpr far⟩

end Dequantization

namespace Graph

section Division

variable [Scalar α] {graph before after : Graph α} {id : NodeId} {target : TargetRange α}
  {values : Dequantization α} {low high : Tensor α}

/-- The widths of the output intervals, by which the shift of a dequantization is divided;
without a zero point there is no shift. -/
def shiftDivisor? (graph : Graph α) (id : NodeId) (target : TargetRange α) : Option (Tensor α) := do
  guard target.hasZeroPoint
  let low ← graph.limit? id .outputLow
  let high ← graph.limit? id .outputHigh
  (high.subtract low).toOption

theorem shiftDivisor?_eq_some {divisor : Tensor α} :
    graph.shiftDivisor? id target = some divisor ↔ target.hasZeroPoint = true ∧
      ∃ low high, graph.limit? id .outputLow = some low ∧
        graph.limit? id .outputHigh = some high ∧ high.subtract low = .ok divisor := by
  have opened (outcome : Except BroadcastError (Tensor α)) :
      outcome.toOption = some divisor ↔ outcome = .ok divisor := by
    cases outcome <;> simp [Except.toOption]
  simp only [shiftDivisor?, Option.bind_eq_bind, Option.bind_eq_some_iff, Option.guard_eq_some',
    opened]
  simp

/-- A dequantization has its shift, if there is one, from a division by the widths. -/
theorem exists_width_of_restoring (restores : graph.restoringDequantization id target = .ok values) :
    ∃ low high width, graph.limit? id .outputLow = some low ∧
      graph.limit? id .outputHigh = some high ∧ high.subtract low = .ok width ∧
      ∀ shift, values.shift = some shift → target.hasZeroPoint = true ∧
        shift.isNearZero = false ∧ ∃ dividend : Tensor α, dividend.divide width = .ok shift := by
  unfold restoringDequantization at restores
  split at restores
  case h_1 => cases restores
  case h_2 node found =>
    dsimp only at restores
    obtain ⟨low, isLow, restores⟩ := Outcome.bind_eq_ok.mp restores
    obtain ⟨high, isHigh, restores⟩ := Outcome.bind_eq_ok.mp restores
    obtain ⟨width, isWidth, restores⟩ := Outcome.bind_eq_ok.mp restores
    refine ⟨low, high, width, constantLimit_eq_ok isLow, constantLimit_eq_ok isHigh,
      Outcome.mapError_eq_ok.mp isWidth, fun shift shifted => ?_⟩
    obtain ⟨scale, _, restores⟩ := Outcome.bind_eq_ok.mp restores
    split at restores
    case isTrue pointed =>
      obtain ⟨highPart, _, restores⟩ := Outcome.bind_eq_ok.mp restores
      obtain ⟨lowPart, _, restores⟩ := Outcome.bind_eq_ok.mp restores
      obtain ⟨difference, _, restores⟩ := Outcome.bind_eq_ok.mp restores
      obtain ⟨quotient, isQuotient, restores⟩ := Outcome.bind_eq_ok.mp restores
      cases Except.ok.inj restores
      obtain ⟨rfl, far⟩ := Dequantization.shiftUnlessZero_eq_some shifted
      exact ⟨pointed, far, difference, Outcome.mapError_eq_ok.mp isQuotient⟩
    case isFalse =>
      cases Except.ok.inj restores
      cases shifted

/-- The dequantization depends on a node and its limits. -/
theorem restoringDequantization_congr (node_eq : after.node? id = before.node? id)
    (isLow : before.limit? id .outputLow = some low)
    (isHigh : before.limit? id .outputHigh = some high)
    (low_kept : after.limit? id .outputLow = some low)
    (high_kept : after.limit? id .outputHigh = some high) :
    after.restoringDequantization id target = before.restoringDequantization id target := by
  unfold restoringDequantization constantLimit
  rw [node_eq, isLow, isHigh, low_kept, high_kept]

end Division

/-! ## The constants that are emitted -/

section Emission

variable {before after attached : Graph α} {id old new : NodeId} {op : Op α} {data : Output}
  {tensor : Tensor α}

/-- What leads to a node that takes the place of another stays as it is. -/
theorem Replaces.sameAt_of_reaches (replaces : before.Replaces old new after)
    (wellFormed : before.WellFormed) (live : after.contains new = true)
    (reaches : before.Reaches id new) :
    after.contains id = true ∧ before.SameAt after id := by
  have same {id : NodeId} (live : after.contains id = true) (reaches : before.Reaches id new) :
      before.SameAt after id := by
    refine ⟨op?_congr (replaces.node_eq live), ?_⟩
    rw [replaces.inputs_eq (wellFormed.exact id) live]
    split
    case isTrue => rfl
    case isFalse =>
      refine (List.map_congr_left fun output member => if_neg fun equal => ?_).trans (List.map_id _)
      exact replaces.apart (Relation.ReflTransGen.head (equal ▸ reads_of_mem_inputs member) reaches)
  induction reaches using Relation.ReflTransGen.head_induction_on with
  | refl => exact ⟨live, same live .refl⟩
  | @head source reader reads path kept =>
      have still : after.Reads source reader := by
        rw [reads_iff_mem_inputs, kept.2.2]
        exact reads_iff_mem_inputs.mp reads
      have stays := (replaces.wellFormed.consistent.reads_live still).1
      exact ⟨stays, same stays (Relation.ReflTransGen.head reads path)⟩

theorem AppliesConstant.congr_of_reaches (applies : before.AppliesConstant op data tensor id)
    (same : ∀ node, before.Reaches node id → before.SameAt after node) :
    after.AppliesConstant op data tensor id := by
  obtain ⟨isOp, constant, inputs, isConstant, alone⟩ := applies
  have reads : before.Reads constant.output.node id := by
    refine reads_of_mem_inputs ?_
    rw [inputs]
    simp
  have self := same id .refl
  have kept := same constant (.single reads)
  exact ⟨self.1.trans isOp, constant, self.2.trans inputs, kept.1.trans isConstant,
    kept.2.trans alone⟩

/-- The scale of a dequantization stands in a graph as the constant of a Multiply, and its shift,
if it has one, as that of a Subtract before it. -/
def Emits (graph : Graph α) (values : Dequantization α) : Prop :=
  ∃ tail data, graph.AppliesConstant .multiply data values.scale tail ∧
    ∀ shift, values.shift = some shift → ∃ difference source, data = difference.output ∧
      graph.AppliesConstant .subtract source shift difference

theorem Decomposes.emits [Scalar α] {target : TargetRange α} {updatePrecision : Bool}
    {quantize tail : NodeId} (wellFormed : before.WellFormed)
    (decomposes : before.Decomposes id target updatePrecision quantize tail after) :
    ∃ values, before.restoringDequantization id target = .ok values ∧ after.Emits values := by
  obtain ⟨view, values, narrowed, chain, _, settled, attached, splits, _⟩ :=
    decomposes.exists_splits wellFormed
  have same (node : NodeId) (reaches : attached.Reaches node chain.tail.node) :
      attached.SameAt after node :=
    (splits.replaces.sameAt_of_reaches splits.extension.wellFormed (splits.tail_live wellFormed)
      reaches).2
  obtain ⟨last, isMultiply, applies⟩ := splits.holds.multiply
  have tail_eq : chain.tail.node = last := by rw [DequantizationChain.tail, isMultiply]; rfl
  refine ⟨values, splits.restores, last, _, applies.congr_of_reaches (tail_eq ▸ same), ?_⟩
  intro shift shifted
  have subtract := splits.holds.subtract
  unfold HoldsSubtract at subtract
  rw [shifted] at subtract
  obtain ⟨difference, isSubtract, subtracts⟩ := subtract
  refine ⟨difference, _, by rw [isSubtract]; rfl, subtracts.congr_of_reaches fun node reaches => ?_⟩
  obtain ⟨_, constant, inputs, _⟩ := applies
  have reads : attached.Reads difference.output.node last := by
    refine reads_of_mem_inputs ?_
    rw [inputs, isSubtract]
    exact List.mem_cons_self
  exact same node (tail_eq ▸ reaches.trans (.single reads))

end Emission

/-! ## Exact arithmetic -/

section Exactly

variable {graph : Graph Rat} {id : NodeId} {target : TargetRange Rat}
  {values : Dequantization Rat} {low high : Tensor Rat} {limits : QuantizationLimits Rat}
  {policy : Policy}

/-- The shift for a fake quantization is somewhere a division by zero. -/
def DividesByZero (graph : Graph Rat) (id : NodeId) (target : TargetRange Rat) : Prop :=
  ∃ divisor, graph.shiftDivisor? id target = some divisor ∧
    ∃ index, divisor.shape.Holds index ∧ divisor.values.get index = 0

/-- Somewhere the output interval of a fake quantization is a point. -/
def HasPointInterval (graph : Graph Rat) (id : NodeId) : Prop :=
  ∃ low high shape index, graph.limit? id .outputLow = some low ∧
    graph.limit? id .outputHigh = some high ∧ high.shape.broadcast low.shape = some shape ∧
    shape.Holds index ∧ low.values.read index = high.values.read index

theorem dividesByZero_iff (restores : graph.restoringDequantization id target = .ok values) :
    graph.DividesByZero id target ↔
      target.hasZeroPoint = true ∧ graph.HasPointInterval id := by
  obtain ⟨low, high, width, isLow, isHigh, isWidth, _⟩ := exists_width_of_restoring restores
  obtain ⟨array, paired, rfl⟩ := Outcome.map_eq_ok.mp isWidth
  obtain ⟨common, _, each⟩ := NDArray.combine_eq_ok.mp paired
  have difference (index : Index) (holds : array.shape.Holds index) :
      array.get index = high.values.read index - low.values.read index := each index holds
  constructor
  · rintro ⟨divisor, found, index, holds, zero⟩
    obtain ⟨pointed, low', high', isLow', isHigh', isDivisor⟩ := shiftDivisor?_eq_some.mp found
    cases Option.some.inj (isLow.symm.trans isLow')
    cases Option.some.inj (isHigh.symm.trans isHigh')
    cases Except.ok.inj (isWidth.symm.trans isDivisor)
    refine ⟨pointed, low, high, array.shape, index, isLow, isHigh, common, holds, ?_⟩
    exact (sub_eq_zero.mp ((difference index holds).symm.trans zero)).symm
  · rintro ⟨pointed, low', high', shape, index, isLow', isHigh', common', holds, equal⟩
    cases Option.some.inj (isLow.symm.trans isLow')
    cases Option.some.inj (isHigh.symm.trans isHigh')
    cases Option.some.inj (common.symm.trans common')
    refine ⟨_, shiftDivisor?_eq_some.mpr ⟨pointed, low, high, isLow, isHigh, isWidth⟩, index, holds,
      ?_⟩
    exact (difference index holds).trans (sub_eq_zero.mpr equal.symm)

/-- The limits of a fake quantization in the order of their elements. -/
theorem outputLimits_of_quantizationLimits? (found : graph.quantizationLimits? id = some limits)
    (isLow : graph.limit? id .outputLow = some low)
    (isHigh : graph.limit? id .outputHigh = some high) :
    limits.outputLow = low.toList ∧ limits.outputHigh = high.toList := by
  simp only [quantizationLimits?, Option.bind_eq_bind, Option.bind_eq_some_iff] at found
  obtain ⟨_, _, _, _, _, _, _, _, low', isLow', high', isHigh', equal⟩ := found
  cases Option.some.inj (isLow.symm.trans isLow')
  cases Option.some.inj (isHigh.symm.trans isHigh')
  cases equal
  exact ⟨rfl, rfl⟩

end Exactly

end Graph

namespace TargetRange

variable {target : TargetRange Rat} {limits : QuantizationLimits Rat} {policy : Policy}
  {low high : Rat} {channel : Nat}

/-- A target without a zero point has zero alone for a point. -/
theorem eq_zero_of_point (resolved : resolve limits policy = some target)
    (plain : target.hasZeroPoint = false) (isLow : limits.outputLow[channel]? = some low)
    (isHigh : limits.outputHigh[channel]? = some low) : low = 0 := by
  rcases fits_of_resolve resolved plain isLow isHigh with ⟨_, zero⟩ | ⟨_, nonzero, near⟩
  · exact zero low (List.mem_of_getElem? isLow)
  · obtain ⟨_, least, positive, _⟩ := exists_counts_of_resolve resolved
    have ratio : target.min / target.max ≤ 0 := div_nonpos_of_nonpos_of_nonneg least positive.le
    rw [div_self nonzero, abs_le] at near
    linarith [near.2]

end TargetRange

namespace NDArray

theorem getElem?_toList_offset [Inhabited α] {array : NDArray α} {index : Index}
    (holds : array.shape.Holds index) :
    array.toList[array.shape.offset index]? = some (array.read index) := by
  have inside := offset_lt_size_data holds
  rw [read_eq_get holds, get_eq_getElem inside, toList, Array.getElem?_toList,
    Array.getElem?_eq_getElem inside]

end NDArray

namespace Graph

variable {graph : Graph Rat} {id : NodeId} {target : TargetRange Rat}
  {values : Dequantization Rat} {low high : Tensor Rat} {limits : QuantizationLimits Rat}
  {policy : Policy}

/-- Where there is no zero point, a point of a channel is zero and is restored as zero. -/
theorem restore_eq_zero_of_point (found : graph.quantizationLimits? id = some limits)
    (resolved : TargetRange.resolve limits policy = some target)
    (plain : target.hasZeroPoint = false) (isLow : graph.limit? id .outputLow = some low)
    (isHigh : graph.limit? id .outputHigh = some high) (alike : high.shape = low.shape)
    (restores : graph.restoringDequantization id target = .ok values) {index : Index}
    (holds : low.shape.Holds index) (point : low.values.read index = high.values.read index) :
    low.values.read index = 0 ∧ ∀ value, values.restore index value = 0 := by
  obtain ⟨lows, highs⟩ := outputLimits_of_quantizationLimits? found isLow isHigh
  have zero : low.values.read index = 0 := by
    have isLow : limits.outputLow[low.shape.offset index]? = some (low.values.read index) := by
      rw [lows]
      exact NDArray.getElem?_toList_offset holds
    refine TargetRange.eq_zero_of_point resolved plain isLow ?_
    have inside : high.shape.Holds index := alike ▸ holds
    rw [highs, point, ← alike]
    exact NDArray.getElem?_toList_offset inside
  obtain ⟨node, present, _⟩ := Option.bind_eq_some_iff.mp found
  obtain ⟨_, exact⟩ := restoringDequantization_eq_ok present isLow isHigh restores
  have unshifted : values.shift = none := by
    obtain ⟨_, _, _, _, _, _, divides⟩ := exists_width_of_restoring restores
    refine Option.eq_none_iff_forall_ne_some.mpr fun shift shifted => ?_
    rw [(divides shift shifted).1] at plain
    cases plain
  refine ⟨zero, fun value => ?_⟩
  have restored := exact.restore_of_unshifted (Shape.stretchesTo_refl low.shape)
    (alike ▸ Shape.stretchesTo_refl _) holds unshifted value
  have width : high.values.read index - low.values.read index = 0 := sub_eq_zero.mpr point.symm
  rw [restored]
  change value * ((high.values.read index - low.values.read index) / (target.max - target.min)) = 0
  rw [width, zero_div, mul_zero]

end Graph

namespace JointState

open QuantGraph.Graph

/-- What was kept for a fake quantization while others had been narrowed leads back from its target in
the graph before them as well. -/
theorem narrowsToTarget_of_follows [Scalar α] {graph : Graph α} {subgraph : Subgraph}
    {policy : Policy} {found : ChannelTargets α} {narrowings : List (Narrowing α)}
    {narrowing : Narrowing α} (wellFormed : graph.WellFormed)
    (works : ∀ narrowing ∈ narrowings, graph.Works narrowing.id) (member : narrowing ∈ narrowings)
    (constant : graph.HasConstantLimits narrowing.id)
    (follows : FollowsNarrowings graph narrowings (NarrowsToTarget subgraph policy found)
      narrowing) : NarrowsToTarget subgraph policy found narrowing graph := by
  obtain ⟨earlier, _, middle, unmoved, isEarlier, requantizes, target, listed, restores, rest⟩ :=
    follows
  obtain ⟨low, isLow⟩ := constant .outputLow
  obtain ⟨high, isHigh⟩ := constant .outputHigh
  have kept {limit : LimitName} {tensor : Tensor α}
      (isLimit : graph.limit? narrowing.id limit = some tensor) :
      middle.limit? narrowing.id limit = some tensor :=
    requantizes.limit?_eq wellFormed (fun other listed => works other (isEarlier other listed))
      (works narrowing member) unmoved isLimit
  refine ⟨target, listed, ?_, rest⟩
  rw [← restores, restoringDequantization_congr (requantizes.node_other narrowing.id
    (works narrowing member) unmoved) isLow isHigh (kept isLow) (kept isHigh)]

end JointState

/-! ## The rules -/

namespace Transformation

open QuantGraph.Graph

section Rules

variable [Scalar α] {transformation : Transformation} {registry : Registry}
  {id quantizer : NodeId} {target : TargetRange α} {state after : RunState α}

/-- A transformation on a node leads a fake quantization to a target of its own. -/
def Retargets (transformation : Transformation) (registry : Registry) (id : NodeId)
    (state : RunState α) (quantizer : NodeId) (target : TargetRange α) : Prop :=
  match transformation.rule with
  | .fakeQuantize =>
      quantizer = id ∧ registry.target? state.graph id transformation.policy = some target
  | .concatMultiChannels =>
      ∃ subgraph found, state.subgraphAround? registry id = some subgraph ∧
        state.graph.isMultiChannel subgraph.concats = true ∧
        ChannelTargets.forSubgraph state.graph subgraph transformation.policy = .ok (some found) ∧
        (quantizer, target) ∈ subgraph.quantizers.zip found.targets
  | _ => False

omit [Scalar α] in
/-- Of what is paired with entries that are all different, one stands for each. -/
theorem eq_of_mem_zip {β : Type} {ids : List NodeId} {others : List β} (nodup : ids.Nodup) {id : NodeId}
    {first second : β} (isFirst : (id, first) ∈ ids.zip others)
    (isSecond : (id, second) ∈ ids.zip others) : first = second := by
  obtain ⟨place, found⟩ := List.mem_iff_getElem?.mp isFirst
  obtain ⟨other, found'⟩ := List.mem_iff_getElem?.mp isSecond
  rw [List.getElem?_zip_eq_some] at found found'
  have inside := (List.getElem?_eq_some_iff.mp found.1).1
  have same : place = other := (List.getElem?_inj inside nodup).mp (found.1.trans found'.1.symm)
  subst same
  exact Option.some.inj (found.2.symm.trans found'.2)

/-- The targets of a subgraph are resolved one by one, or all are the range of one precision, with a
zero point. -/
theorem exists_limits_of_forSubgraph {graph : Graph α} {subgraph : Subgraph} {policy : Policy}
    {found : ChannelTargets α}
    (resolves : ChannelTargets.forSubgraph graph subgraph policy = .ok (some found))
    (listed : (quantizer, target) ∈ subgraph.quantizers.zip found.targets) :
    ∃ limits, graph.quantizationLimits? quantizer = some limits ∧
      QuantizationLimits.supportsLevels limits.levels = true ∧
      TargetRange.bounds target.precision limits.levels = some (target.min, target.max) ∧
      (target.hasZeroPoint = false → TargetRange.resolve limits policy = some target) := by
  obtain ⟨place, read⟩ := List.mem_iff_getElem?.mp listed
  rw [List.getElem?_zip_eq_some] at read
  obtain ⟨quantizerInside, isQuantizer⟩ := List.getElem?_eq_some_iff.mp read.1
  obtain ⟨targetInside, isTarget⟩ := List.getElem?_eq_some_iff.mp read.2
  unfold ChannelTargets.forSubgraph at resolves
  split at resolves
  case h_1 concat limits _ isLimits =>
    obtain ⟨levels, common, resolves⟩ := Outcome.bind_eq_ok.mp resolves
    have all := Outcome.mapM_eq_some.mp isLimits
    have limitsInside : place < limits.length := all.length_eq ▸ quantizerInside
    have isLimit : graph.quantizationLimits? subgraph.quantizers[place] = some limits[place] :=
      all.get quantizerInside limitsInside
    rw [isQuantizer] at isLimit
    split at resolves
    case h_1 resolved isResolved =>
      have each := Outcome.mapM_eq_some.mp isResolved
      have resolvedInside : place < resolved.length := each.length_eq ▸ limitsInside
      have fits : TargetRange.resolve limits[place] policy = some resolved[place] :=
        each.get limitsInside resolvedInside
      obtain ⟨supported, range, _⟩ := TargetRange.resolve_eq_some fits
      refine ⟨limits[place], isLimit, supported, ?_⟩
      have reconciled := Except.ok.inj resolves
      unfold ChannelTargets.reconcile at reconciled
      obtain ⟨first, _, reconciled⟩ := Option.bind_eq_some_iff.mp reconciled
      split at reconciled
      case isTrue =>
        cases reconciled
        rw [show resolved[place] = target from isTarget] at fits range
        exact ⟨range, fun _ => fits⟩
      case isFalse =>
        obtain ⟨_, _, reconciled⟩ := Option.bind_eq_some_iff.mp reconciled
        obtain ⟨⟨min, max⟩, isRange, reconciled⟩ := Option.bind_eq_some_iff.mp reconciled
        cases reconciled
        rw [List.getElem_map] at isTarget
        dsimp only at isTarget
        rw [← isTarget, JointState.levels_eq_of_commonLevels common (List.getElem_mem limitsInside)]
        exact ⟨isRange, fun plain => by cases plain⟩
    case h_2 => cases Except.ok.inj resolves
  case h_2 => cases Except.ok.inj resolves

theorem exists_restoring_of_apply
    (alone : transformation.rule = .fakeQuantize ∨ transformation.rule = .concatMultiChannels)
    (wellFormed : state.graph.WellFormed) (constants : state.graph.ConstantsReadNothing)
    (kind : state.graph.kind? id = some transformation.matchedKind)
    (applied : (transformation.apply registry id).runOn state = (.ok true, after))
    (retargets : transformation.Retargets registry id state quantizer target) :
    ∃ values limits policy, state.graph.restoringDequantization quantizer target = .ok values ∧
      (transformation.rule = .fakeQuantize → after.graph.Emits values) ∧
      state.graph.quantizationLimits? quantizer = some limits ∧
      (target.hasZeroPoint = false → TargetRange.resolve limits policy = some target) := by
  have not_result : transformation.matchedKind ≠ .result := by
    rcases alone with rule | rule <;> rw [matchedKind, rule] <;> decide
  obtain ⟨_, rewrites⟩ := (ensures_apply wellFormed .refl kind not_result).of_runOn applied
  rcases alone with rule | rule
  · simp only [Retargets, rule] at retargets
    obtain ⟨rfl, isTarget⟩ := retargets
    simp only [Rewrites, rule, if_true] at rewrites
    obtain ⟨_, target', _, _, _, isTarget', decomposes, after_eq⟩ := rewrites
    cases Option.some.inj (isTarget.symm.trans isTarget')
    obtain ⟨values, restores, emits⟩ := decomposes.emits wellFormed
    obtain ⟨limits, isLimits, resolved⟩ := Option.bind_eq_some_iff.mp isTarget
    refine ⟨values, limits, _, restores, fun _ => ?_, isLimits, fun _ => resolved⟩
    rw [after_eq, RunState.graph_markHandled]
    exact emits
  · simp only [Retargets, rule] at retargets
    obtain ⟨subgraph, found, isSubgraph, multi, resolves, listed⟩ := retargets
    simp only [Rewrites, rule, if_true] at rewrites
    obtain ⟨subgraph', isSubgraph', final, _, quantizes⟩ := rewrites
    cases Option.some.inj (isSubgraph.symm.trans isSubgraph')
    rw [multi, if_pos rfl] at quantizes
    rw [matchedKind, rule] at kind
    obtain ⟨discovers, _⟩ :=
      Subgraph.discovers_around? kind (RunState.subgraphAround?_eq_some isSubgraph).1
    obtain ⟨found', narrowings, moved, cache, chains, narrowed, dequantized, resolves', together,
      follows⟩ := JointState.quantizesTogether_of_perChannel wellFormed constants discovers quantizes
    cases Option.some.inj (Except.ok.inj (resolves.symm.trans resolves'))
    have member : quantizer ∈ narrowings.map Narrowing.id := by
      rw [together.ids_eq]
      exact (List.of_mem_zip listed).1
    obtain ⟨narrowing, isNarrowing, rfl⟩ := List.mem_map.mp member
    obtain ⟨limits, isLimits, _, _, resolved⟩ := exists_limits_of_forSubgraph resolves listed
    have works : ∀ narrowing ∈ narrowings, state.graph.Works narrowing.id := fun _ member =>
      discovers.quantizer_works (together.ids_eq ▸ List.mem_map_of_mem member)
    obtain ⟨target', listed', restores, _⟩ := JointState.narrowsToTarget_of_follows wellFormed works
      isNarrowing (hasConstantLimits_of_quantizationLimits? isLimits) (follows narrowing isNarrowing)
    cases eq_of_mem_zip discovers.quantizers_nodup listed listed'
    exact ⟨narrowing.values, limits, _, restores, fun other => by simp [rule] at other, isLimits,
      resolved⟩

/-- A rule that gives fake quantizations targets of their own divides by zero if and only if it
computes a shift and the output interval of some channel is a point: nothing looks at channels
one by one. Where it computes no shift, points are zero and are restored as zero, provided that
each channel has both limits of its own. -/
theorem dividesByZero_iff_of_apply {state after : RunState Rat} {target : TargetRange Rat}
    (alone : transformation.rule = .fakeQuantize ∨ transformation.rule = .concatMultiChannels)
    (wellFormed : state.graph.WellFormed) (constants : state.graph.ConstantsReadNothing)
    (kind : state.graph.kind? id = some transformation.matchedKind)
    (applied : (transformation.apply registry id).runOn state = (.ok true, after))
    (retargets : transformation.Retargets registry id state quantizer target) :
    ∃ values, state.graph.restoringDequantization quantizer target = .ok values ∧
      (transformation.rule = .fakeQuantize → after.graph.Emits values) ∧
      (values.shift ≠ none → ∃ dividend divisor shift : Tensor Rat, values.shift = some shift ∧
        state.graph.shiftDivisor? quantizer target = some divisor ∧
        dividend.divide divisor = .ok shift) ∧
      (state.graph.DividesByZero quantizer target ↔
        target.hasZeroPoint = true ∧ state.graph.HasPointInterval quantizer) ∧
      ∀ low high, state.graph.limit? quantizer .outputLow = some low →
        state.graph.limit? quantizer .outputHigh = some high → high.shape = low.shape →
        target.hasZeroPoint = false → ∀ index, low.shape.Holds index →
          low.values.read index = high.values.read index →
          low.values.read index = 0 ∧ ∀ value, values.restore index value = 0 := by
  obtain ⟨values, limits, policy, restores, emits, isLimits, resolved⟩ :=
    exists_restoring_of_apply alone wellFormed constants kind applied retargets
  refine ⟨values, restores, emits, fun shifted => ?_, dividesByZero_iff restores, ?_⟩
  · obtain ⟨shift, isShift⟩ := Option.ne_none_iff_exists'.mp shifted
    obtain ⟨low, high, width, isLow, isHigh, isWidth, divides⟩ := exists_width_of_restoring restores
    obtain ⟨pointed, _, dividend, quotient⟩ := divides shift isShift
    exact ⟨dividend, width, shift, isShift,
      shiftDivisor?_eq_some.mpr ⟨pointed, low, high, isLow, isHigh, isWidth⟩, quotient⟩
  · intro low high isLow isHigh alike plain index holds point
    exact restore_eq_zero_of_point isLimits (resolved plain) plain isLow isHigh alike restores holds
      point

end Rules

/-- A pixel of two channels, quantized with a signed interval for the one and a point for the
other, and a Concat of it. -/
def pointBesideInterval [Scalar α] : List (Draft α) :=
  let low := (NodeId.mk 1).output
  let high := (NodeId.mk 2).output
  let limit (first : Int) : Op α := .constant
    { elementType := .f32
      values := .ofFn [1, 2, 1, 1] fun index =>
        if index.getD 1 0 = 0 then Scalar.ofInt first else 0 }
  [{ op := .parameter, name := "pixel"
     declared := some { elementType := .f32, shape := [1, 2, 1, 1] } },
    (limit (-128)).draft "low",
    (limit 127).draft "high",
    ((Op.fakeQuantize 256).draft "quantized").readOutputs
      [(NodeId.mk 0).output, low, high, low, high],
    ((Op.concat 1).draft "joined").readAll [NodeId.mk 3],
    (Op.result.draft "output").readAll [NodeId.mk 4]]

/-- Fake quantizations, each with a target of its own. -/
def splitting : Transformation := { rule := .fakeQuantize, policy := {} }

theorem dividesByZero_iff_pointBesideInterval :
    ∃ graph after target, Graph.empty.addAll pointBesideInterval = .ok graph ∧
      (splitting.rule = .fakeQuantize ∨ splitting.rule = .concatMultiChannels) ∧
      graph.WellFormed ∧ graph.ConstantsReadNothing ∧
      graph.kind? (NodeId.mk 3) = some splitting.matchedKind ∧
      (splitting.apply (.all {}) (NodeId.mk 3)).runOn (.ofGraph graph) = (.ok true, after) ∧
      splitting.Retargets (.all {}) (NodeId.mk 3) (.ofGraph graph) (NodeId.mk 3) target ∧
      ∃ values, graph.restoringDequantization (NodeId.mk 3) target = .ok values ∧
        (splitting.rule = .fakeQuantize → after.graph.Emits values) ∧
        (values.shift ≠ none → ∃ dividend divisor shift : Tensor Rat, values.shift = some shift ∧
          graph.shiftDivisor? (NodeId.mk 3) target = some divisor ∧
          dividend.divide divisor = .ok shift) ∧
        (graph.DividesByZero (NodeId.mk 3) target ↔
          target.hasZeroPoint = true ∧ graph.HasPointInterval (NodeId.mk 3)) ∧
        ∀ low high, graph.limit? (NodeId.mk 3) .outputLow = some low →
          graph.limit? (NodeId.mk 3) .outputHigh = some high → high.shape = low.shape →
          target.hasZeroPoint = false → ∀ index, low.shape.Holds index →
            low.values.read index = high.values.read index →
            low.values.read index = 0 ∧ ∀ value, values.restore index value = 0 := by
  have ordered : ∀ draft ∈ (pointBesideInterval : List (Draft Rat)), draft.IsInOrder := by decide
  let target : TargetRange Rat := { precision := .i8, min := -128, max := 127, hasZeroPoint := true }
  have made : (Graph.empty.addAll (pointBesideInterval : List (Draft Rat))).map (fun graph =>
      (graph.kind? (NodeId.mk 3),
        graph.nodeIds.all fun id => (graph.constant? id).isNone || (graph.inputs id).isEmpty,
        (Registry.all {}).target? graph (NodeId.mk 3) splitting.policy,
        ((splitting.apply (.all {}) (NodeId.mk 3)).runOn (.ofGraph graph)).1)) =
      .ok (some splitting.matchedKind, true, some target, .ok true) := by decide +kernel
  obtain ⟨graph, added, facts⟩ := Outcome.map_eq_ok.mp made
  simp only [Prod.mk.injEq] at facts
  obtain ⟨kind, constants, isTarget, changed⟩ := facts
  have wellFormed := Graph.wellFormed_empty.addAll ordered added
  have constants := Graph.constantsReadNothing_of_all constants
  let state := RunState.ofGraph graph
  have applied : (splitting.apply (.all {}) (NodeId.mk 3)).runOn state = (.ok true, _) :=
    Prod.ext changed rfl
  have retargets : splitting.Retargets (.all {}) (NodeId.mk 3) state (NodeId.mk 3) target :=
    ⟨rfl, isTarget⟩
  exact ⟨graph, _, target, added, Or.inl rfl, wellFormed, constants, kind, applied, retargets,
    @dividesByZero_iff_of_apply splitting (.all {}) (NodeId.mk 3) (NodeId.mk 3) state _ target
      (Or.inl rfl) wellFormed constants kind applied retargets⟩

/-- In single precision the division by zero puts something into the graph that is not a number,
as the shift for the channel that was a point. -/
theorem exists_emits_isNaN :
    ∃ (graph : Graph Single) (after : RunState Single) (values : Dequantization Single)
      (shift : Tensor Single), Graph.empty.addAll pointBesideInterval = .ok graph ∧
      (splitting.apply (.all {}) (NodeId.mk 3)).runOn (.ofGraph graph) = (.ok true, after) ∧
      after.graph.Emits values ∧ values.shift = some shift ∧ shift.toList = [0, Single.invalid] ∧
      Single.invalid.isNaN = true := by
  have ordered : ∀ draft ∈ (pointBesideInterval : List (Draft Single)), draft.IsInOrder := by decide
  let target : TargetRange Single :=
    { precision := .i8, min := -Scalar.ofNat 128, max := Scalar.ofNat 127, hasZeroPoint := true }
  have made : (Graph.empty.addAll (pointBesideInterval : List (Draft Single))).map (fun graph =>
      (graph.kind? (NodeId.mk 3),
        graph.nodeIds.all fun id => (graph.constant? id).isNone || (graph.inputs id).isEmpty,
        ((splitting.apply (.all {}) (NodeId.mk 3)).runOn (.ofGraph graph)).1,
        (Registry.all {}).target? graph (NodeId.mk 3) splitting.policy)) =
      .ok (some .fakeQuantize, true, .ok true, some target) := by decide +kernel
  have divided : (Graph.empty.addAll (pointBesideInterval : List (Draft Single))).map (fun graph =>
      (graph.restoringDequantization (NodeId.mk 3) target).map fun values =>
        values.shift.map Tensor.toList) = .ok (.ok (some [0, Single.invalid])) := by decide +kernel
  obtain ⟨graph, added, facts⟩ := Outcome.map_eq_ok.mp made
  simp only [Prod.mk.injEq] at facts
  obtain ⟨kind, constants, changed, isTarget⟩ := facts
  rw [added] at divided
  obtain ⟨values, isValues, shifted⟩ := Outcome.map_eq_ok.mp (Except.ok.inj divided)
  obtain ⟨shift, isShift, listed⟩ := Option.map_eq_some_iff.mp shifted
  have applied : (splitting.apply (.all {}) (NodeId.mk 3)).runOn (.ofGraph graph) =
      (.ok true, _) := Prod.ext changed rfl
  obtain ⟨values', _, _, restores, emits, _⟩ := exists_restoring_of_apply (Or.inl rfl)
    (Graph.wellFormed_empty.addAll ordered added) (Graph.constantsReadNothing_of_all constants) kind
    applied ⟨rfl, isTarget⟩
  cases Except.ok.inj (isValues.symm.trans restores)
  exact ⟨graph, _, values, shift, added, applied, emits rfl, isShift, listed, by decide +kernel⟩

end Transformation

end QuantGraph
