import Mathlib
import QuantGraph.Proofs.Joint.ErrorBound
import QuantGraph.Proofs.Joint.Stems

/-! The values of a subgraph that has been quantized with one scale for each channel. Every raw value
lies where the target of a fake quantization, from which it stems, has the value that there was.
What is carried along restores it as it would be restored right behind that fake quantization. -/

namespace QuantGraph

/-! ## Places -/

namespace TargetRange

variable {target : TargetRange Rat} {low high step value : Rat}

/-- Where a number between two limits lies in the range. -/
def placeIn (target : TargetRange Rat) (low high value : Rat) : Rat :=
  target.min + (value - low) / ((high - low) / (target.max - target.min))

theorem placeIn_eq (target : TargetRange Rat) (low high : Rat) :
    target.placeIn low high = fun value => value / ((high - low) / (target.max - target.min)) +
      (target.min - low / ((high - low) / (target.max - target.min))) := by
  funext value
  rw [placeIn]
  ring

/-- Steps above the lower limit lie as many units above the least integer. -/
theorem placeIn_step (width : 0 < target.max - target.min) (differ : low ≠ high) :
    target.placeIn low high (low + step / (target.max - target.min) * (high - low)) =
      target.min + step := by
  have spread : high - low ≠ 0 := sub_ne_zero.mpr differ.symm
  rw [placeIn]
  field_simp
  ring

theorem exists_step_eq (width : 0 < target.max - target.min) (differ : low ≠ high) (value : Rat) :
    ∃ step, value = low + step / (target.max - target.min) * (high - low) := by
  have spread : high - low ≠ 0 := sub_ne_zero.mpr differ.symm
  refine ⟨(value - low) / (high - low) * (target.max - target.min), ?_⟩
  field_simp
  ring

/-- What is quantized to the range is the place of what is quantized between the limits. -/
theorem Counts.quantize_eq_placeIn {levels : Nat} {minimum : Int}
    (counts : target.Counts levels minimum) (enough : 2 ≤ levels) (differ : low ≠ high)
    (inputLow inputHigh value : Rat) (rounding : Bool) :
    (Interval.mk inputLow inputHigh target.min target.max).quantize levels rounding value =
      target.placeIn low high ((Interval.mk inputLow inputHigh low high).project levels value) := by
  obtain ⟨step, _, project, _⟩ := counts.exists_step enough inputLow inputHigh value
  have width := counts.width_pos enough
  rw [(counts.isStable enough).quantize_eq, project, project, placeIn_step width differ,
    div_mul_cancel₀ _ width.ne']

theorem keepsNear_placeIn {op : Op Rat} {kernel : Kernel} {reduce : List Rat → Rat}
    (pools : op.Pools kernel reduce) (width : 0 < target.max - target.min)
    (ordered : op.kind = .maxPool → low < high) :
    NDArray.KeepsNear reduce (target.placeIn low high) 0 := by
  rw [placeIn_eq]
  rcases pools with ⟨rfl, rfl⟩ | ⟨_, rfl⟩
  · have positive : 0 < (high - low) / (target.max - target.min) :=
      div_pos (sub_pos.mpr (ordered rfl)) width
    exact NDArray.keepsNear_largest fun _ _ le =>
      add_le_add_left (div_le_div_of_nonneg_right le positive.le) _
  · exact NDArray.keepsNear_mean

end TargetRange

namespace NDArray

/-- What a window reduces to keeps its place exactly when all elements do. -/
theorem KeepsNear.eq_of_zero {reduce : List Rat → Rat} {place : Rat → Rat}
    (keeps : KeepsNear reduce place 0) {positions : List Index} {raw value : NDArray Rat}
    (nonempty : positions ≠ [])
    (each : ∀ position ∈ positions, raw.get position = place (value.get position)) :
    reduce (positions.map raw.get) = place (reduce (positions.map value.get)) := by
  refine sub_eq_zero.mp (abs_nonpos_iff.mp (keeps _ _ (by simpa using nonempty) ?_))
  rw [List.forall₂_map_left_iff, List.forall₂_map_right_iff, List.forall₂_same]
  exact fun position member => by rw [each position member, sub_self, abs_zero]

end NDArray

namespace Subgraph

variable {subgraph : Subgraph} {graph : Graph Rat} {axes : List Nat} {feeds : Assignment Rat}

/-- The output limits of the fake quantizations of a subgraph are related at every position. -/
def RelatesOutputs (subgraph : Subgraph) (graph : Graph Rat) (relation : Rat → Rat → Prop) : Prop :=
  ∀ quantizer ∈ subgraph.quantizers, ∀ low ∈ graph.limit? quantizer .outputLow,
    ∀ high ∈ graph.limit? quantizer .outputHigh, ∀ shape ∈ graph.shape? quantizer,
      ∀ index, shape.Holds index → relation (low.values.read index) (high.values.read index)

/-- Some maximum is taken in a subgraph. -/
def TakesMaxima (subgraph : Subgraph) (graph : Graph Rat) : Prop :=
  ∃ layer ∈ subgraph.layers, graph.kind? layer = some .maxPool

/-- Output limits are apart from each other, and they are in order where a maximum is taken. -/
structure KeepsOrder (subgraph : Subgraph) (graph : Graph Rat) : Prop where
  differ : subgraph.RelatesOutputs graph (· ≠ ·)
  ordered : subgraph.TakesMaxima graph → subgraph.RelatesOutputs graph (· < ·)

instance : Decidable (subgraph.TakesMaxima graph) :=
  inferInstanceAs (Decidable (∃ layer ∈ subgraph.layers, graph.kind? layer = some .maxPool))

theorem KeepsOrder.of_lt (increasing : subgraph.RelatesOutputs graph (· < ·)) :
    subgraph.KeepsOrder graph where
  differ quantizer member low isLow high isHigh shape isShape index holds :=
    (increasing quantizer member low isLow high isHigh shape isShape index holds).ne
  ordered _ := increasing

/-- Raw values lie where the targets have the values that there were, whichever fake quantization
they stem from. -/
def FollowsStems (subgraph : Subgraph) (graph : Graph Rat) (targets : List (TargetRange Rat))
    (id : NodeId) (value raw : NDArray Rat) : Prop :=
  ∀ index, value.shape.Holds index → ∀ origin position target low high,
    subgraph.Stems graph id index origin position →
      (origin, target) ∈ subgraph.quantizers.zip targets →
        graph.limit? origin .outputLow = some low → graph.limit? origin .outputHigh = some high →
          raw.get index =
            target.placeIn (low.values.read position) (high.values.read position) (value.get index)

theorem KeepsChannels.stretchesTo (keeps : subgraph.KeepsChannels graph axes) {quantizer : NodeId}
    (member : quantizer ∈ subgraph.quantizers) {name : LimitName} {limit : Tensor Rat}
    (output : name ∈ [LimitName.outputLow, .outputHigh])
    (isLimit : graph.limit? quantizer name = some limit) {shape : Shape}
    (isShape : graph.shape? quantizer = some shape) : limit.shape.StretchesTo shape :=
  (keeps.limits quantizer member name output limit isLimit shape isShape).trans
    (Shape.along_stretchesTo axes shape)

/-- Limits are the same for what an element stems from wherever it lies alike. -/
theorem KeepsChannels.read_congr (keeps : subgraph.KeepsChannels graph axes) {quantizer : NodeId}
    (member : quantizer ∈ subgraph.quantizers) {shape : Shape}
    (isShape : graph.shape? quantizer = some shape) {name : LimitName} {limit : Tensor Rat}
    (output : name ∈ [LimitName.outputLow, .outputHigh])
    (isLimit : graph.limit? quantizer name = some limit) {position position' : Index}
    (holds : shape.Holds position) (others : shape.Holds position')
    (agrees : Shape.AgreesAlong axes position position') :
    limit.values.read position = limit.values.read position' :=
  NDArray.read_congr_along (keeps.limits quantizer member name output limit isLimit shape isShape)
    holds others agrees

section Following

variable {targets : List (TargetRange Rat)} {id : NodeId} {value raw : NDArray Rat}
  {inputs raws : List (NDArray Rat)} {axis : Nat}

theorem FollowsStems.concat (shapes : graph.HasConsistentShapes feeds)
    (discovers : Subgraph.Discovers graph [] subgraph) (member : id ∈ subgraph.layers)
    (isOp : graph.op? id = some (.concat axis))
    (derives : graph.Derives feeds (graph.inputs id) inputs)
    (isValue : NDArray.concatenate axis inputs = .ok value)
    (isRaw : NDArray.concatenate axis raws = .ok raw)
    (alike : raws.map NDArray.shape = inputs.map NDArray.shape)
    (each : ∀ (place : Nat) output input raw, (graph.inputs id)[place]? = some output →
      inputs[place]? = some input → raws[place]? = some raw →
        subgraph.FollowsStems graph targets output.node input raw) :
    subgraph.FollowsStems graph targets id value raw := by
  intro index holds origin position target low high stems listed isLow isHigh
  obtain ⟨place, output, input, coordinate, read, isInput, below, equal, stems⟩ :=
    (stems_concat_iff shapes discovers member isOp derives).mp stems
  have length_eq : raws.length = inputs.length := by simpa using congrArg List.length alike
  obtain ⟨rawInput, isRawInput⟩ := Graph.exists_getElem?_of_length_eq length_eq isInput
  have shape_eq : raw.shape = value.shape := by
    have same : (NDArray.concatenate axis raws).map NDArray.shape =
      (NDArray.concatenate axis inputs).map NDArray.shape := Op.map_shape_concatenate alike
    rw [isRaw, isValue] at same
    exact Except.ok.inj same
  have extents : (raws.take place).map (fun array => array.extent axis) =
      (inputs.take place).map fun array => array.extent axis := by
    have same := congrArg (List.map fun shape : Shape => shape.getD axis 0)
      (congrArg (List.take place) alike)
    rw [← List.map_take, ← List.map_take, List.map_map, List.map_map] at same
    exact same
  have rawShape : rawInput.shape = input.shape := by
    have same := congrArg (·[place]?) alike
    simp only [List.getElem?_map, isRawInput, isInput, Option.map_some] at same
    exact Option.some.inj same
  have rawBelow : coordinate < rawInput.extent axis := by
    rw [NDArray.extent, rawShape]
    exact below
  obtain ⟨inside, value_eq⟩ := NDArray.get_concatenate isValue holds isInput below equal
  obtain ⟨_, raw_eq⟩ := NDArray.get_concatenate isRaw (shape_eq ▸ holds) isRawInput rawBelow
    (extents.symm ▸ equal)
  rw [raw_eq, value_eq]
  exact each place output input rawInput read isInput isRawInput _ inside origin position target low
    high stems listed isLow isHigh

theorem FollowsStems.pool {op : Op Rat} {kernel : Kernel} {reduce : List Rat → Rat}
    {output : Output} {data rawData : NDArray Rat} (shapes : graph.HasConsistentShapes feeds)
    (discovers : Subgraph.Discovers graph [] subgraph) (keeps : subgraph.KeepsChannels graph axes)
    (ordered : subgraph.KeepsOrder graph)
    (width : ∀ origin target, (origin, target) ∈ subgraph.quantizers.zip targets →
      0 < target.max - target.min) (member : id ∈ subgraph.layers)
    (isOp : graph.op? id = some op) (pools : op.Pools kernel reduce)
    (read : (graph.inputs id)[0]? = some output) (hasData : graph.HasValue feeds output.node data)
    (shape_eq : rawData.shape = data.shape)
    (isValue : data.pool? kernel.height kernel.width reduce = some value)
    (isRaw : rawData.pool? kernel.height kernel.width reduce = some raw)
    (follows : subgraph.FollowsStems graph targets output.node data rawData) :
    subgraph.FollowsStems graph targets id value raw := by
  intro index holds origin position target low high stems listed isLow isHigh
  obtain ⟨other, inside, stems⟩ := (stems_pool_iff discovers member isOp pools read).mp stems
  obtain ⟨length_eq, nonempty, within, value_eq⟩ := NDArray.get_pool isValue holds
  have raw_holds : raw.shape.Holds index := by
    obtain ⟨_, _, _, _, first, rfl⟩ := NDArray.pool?_eq_some isValue
    obtain ⟨_, _, _, _, second, rfl⟩ := NDArray.pool?_eq_some isRaw
    rw [shape_eq, first] at second
    cases second
    exact holds
  obtain ⟨_, _, _, raw_eq⟩ := NDArray.get_pool isRaw raw_holds
  have joins := (keeps.ops id member op isOp).joinsBeside pools
  obtain ⟨source, hasSource, there⟩ := stems.exists_holds shapes hasData (within other inside)
  have isQuantizer := stems.mem_quantizers
  have isShape := shapes.declared origin source hasSource
  -- All elements under the window stem from places where the limits are the same.
  have each : ∀ beside ∈ NDArray.windowIndices kernel.height kernel.width index,
      rawData.get beside = target.placeIn (low.values.read position) (high.values.read position)
        (data.get beside) := by
    intro beside isBeside
    have agrees := (NDArray.agreesAlong_of_mem_windowIndices joins length_eq inside).trans
      (NDArray.agreesAlong_of_mem_windowIndices joins length_eq isBeside).symm
    obtain ⟨position', stems', agrees'⟩ := stems.transport keeps
      ((within other inside).length_eq.trans (within beside isBeside).length_eq.symm) agrees
    obtain ⟨source', hasSource', there'⟩ := stems'.exists_holds shapes hasData (within beside isBeside)
    cases hasSource.unique hasSource'
    rw [keeps.read_congr isQuantizer isShape (by simp) isLow there there' agrees',
      keeps.read_congr isQuantizer isShape (by simp) isHigh there there' agrees']
    exact follows beside (within beside isBeside) origin position' target low high stems' listed isLow
      isHigh
  rw [raw_eq, value_eq]
  refine (TargetRange.keepsNear_placeIn pools (width origin target listed) fun isMaximum => ?_)
    |>.eq_of_zero nonempty each
  exact ordered.ordered ⟨id, member, by rw [Graph.kind?_of_op? isOp, isMaximum]⟩ origin isQuantizer
    low isLow high isHigh source.shape isShape position there

/-- An element is restored by the scale of the fake quantization that it stems from, and it has moved
by what its shift would have taken away, if that was left out. -/
structure LeavesOutShifts (subgraph : Subgraph) (graph : Graph Rat)
    (targets : List (TargetRange Rat)) (id : NodeId) (index : Index) (scale difference : Rat) :
    Prop where
  stems : ∃ origin position, subgraph.Stems graph id index origin position
  moves : ∀ origin position, subgraph.Stems graph id index origin position →
    ∃ target kept low high, (origin, target) ∈ subgraph.quantizers.zip targets ∧
      graph.restoringDequantization origin target = .ok kept ∧
      graph.limit? origin .outputLow = some low ∧ graph.limit? origin .outputHigh = some high ∧
      scale = (high.values.read position - low.values.read position) / (target.max - target.min) ∧
      difference = if kept.shift = none then
          (target.min * high.values.read position - target.max * low.values.read position) /
            (target.max - target.min)
        else 0

/-- What is carried to a layer is read as it is kept for the fake quantizations from which the
elements stem. -/
structure CarriesStems (subgraph : Subgraph) (graph : Graph Rat) (targets : List (TargetRange Rat))
    (axes : List Nat) (id : NodeId) (value : NDArray Rat) (values : Dequantization Rat) : Prop where
  varies : values.VariesAlong axes value.shape
  reads : ∀ index, value.shape.Holds index → ∀ origin position target kept,
    subgraph.Stems graph id index origin position →
      (origin, target) ∈ subgraph.quantizers.zip targets →
        graph.restoringDequantization origin target = .ok kept →
          values.scale.values.read index = kept.scale.values.read position ∧
            values.shiftAt index = kept.shiftAt position

variable {parts : List (Dequantization Rat × Nat)} {values : Dequantization Rat}

theorem CarriesStems.concat (shapes : graph.HasConsistentShapes feeds)
    (discovers : Subgraph.Discovers graph [] subgraph) (keeps : subgraph.KeepsChannels graph axes)
    (member : id ∈ subgraph.layers) (isOp : graph.op? id = some (.concat axis))
    (derives : graph.Derives feeds (graph.inputs id) inputs)
    (isValue : NDArray.concatenate axis inputs = .ok value)
    (counts : parts.map Prod.snd = inputs.map fun input => input.extent axis)
    (each : ∀ (place : Nat) output input part, (graph.inputs id)[place]? = some output →
      inputs[place]? = some input → parts[place]? = some part →
        subgraph.CarriesStems graph targets axes output.node input part.1)
    (joins : Dequantization.concatenate parts axis value.shape.length = .ok values) :
    subgraph.CarriesStems graph targets axes id value values := by
  obtain ⟨_, _, partShape, extent_eq, _⟩ := NDArray.concatenate_eq_ok isValue
  have length_eq : parts.length = inputs.length := by simpa using congrArg List.length counts
  have entry {place : Nat} {input : NDArray Rat} {part : Dequantization Rat × Nat}
      (isInput : inputs[place]? = some input) (isPart : parts[place]? = some part) :
      part.2 = input.extent axis := by
    have same := congrArg (·[place]?) counts
    simp only [List.getElem?_map, isInput, isPart, Option.map_some] at same
    exact Option.some.inj same
  have eachPart : ∀ part ∈ parts, part.1.VariesAlong axes (value.shape.set axis part.2) := by
    intro part listed
    obtain ⟨place, isPart⟩ := List.mem_iff_getElem?.mp listed
    obtain ⟨input, isInput⟩ := Graph.exists_getElem?_of_length_eq length_eq.symm isPart
    obtain ⟨output, read⟩ := Graph.exists_getElem?_of_length_eq derives.length_eq isInput
    rw [entry isInput isPart, ← partShape input (List.mem_of_getElem? isInput)]
    exact (each place output input part read isInput isPart).varies
  obtain ⟨varies, reads⟩ := Dequantization.concatenate_eq_ok
    ((keeps.ops id member _ isOp).1 axis rfl) (counts ▸ extent_eq) eachPart joins
  refine ⟨varies, fun index holds origin position target kept stems listed restoring => ?_⟩
  obtain ⟨place, output, input, coordinate, read, isInput, below, equal, stems⟩ :=
    (stems_concat_iff shapes discovers member isOp derives).mp stems
  obtain ⟨part, isPart⟩ := Graph.exists_getElem?_of_length_eq length_eq isInput
  have before : (parts.take place).map Prod.snd =
      (inputs.take place).map fun input => input.extent axis := by
    rw [List.map_take, counts, List.map_take]
  obtain ⟨scale_eq, shift_eq⟩ := reads place part coordinate isPart (entry isInput isPart ▸ below)
    index holds (before ▸ equal)
  obtain ⟨inside, _⟩ := NDArray.get_concatenate isValue holds isInput below equal
  obtain ⟨scale_kept, shift_kept⟩ := (each place output input part read isInput isPart).reads _ inside
    origin position target kept stems listed restoring
  exact ⟨scale_eq.trans scale_kept, shift_eq.trans shift_kept⟩

theorem CarriesStems.pool {op : Op Rat} {kernel : Kernel} {reduce : List Rat → Rat}
    {output : Output} {data : NDArray Rat} (discovers : Subgraph.Discovers graph [] subgraph)
    (keeps : subgraph.KeepsChannels graph axes) (member : id ∈ subgraph.layers)
    (isOp : graph.op? id = some op) (pools : op.Pools kernel reduce)
    (read : (graph.inputs id)[0]? = some output)
    (isValue : data.pool? kernel.height kernel.width reduce = some value)
    (carries : subgraph.CarriesStems graph targets axes output.node data values) :
    subgraph.CarriesStems graph targets axes id value values := by
  have joins := (keeps.ops id member op isOp).joinsBeside pools
  refine ⟨carries.varies.congr (NDArray.along_pool isValue joins).symm,
    fun index holds origin position target kept stems listed restoring => ?_⟩
  obtain ⟨other, inside, stems⟩ := (stems_pool_iff discovers member isOp pools read).mp stems
  obtain ⟨length_eq, _, within, _⟩ := NDArray.get_pool isValue holds
  have agrees := NDArray.agreesAlong_of_mem_windowIndices joins length_eq inside
  have here := holds.of_le (NDArray.shape_pool? isValue)
  have there := within other inside
  rw [← carries.varies.read_scale_congr there here agrees,
    ← carries.varies.shiftAt_congr there here agrees]
  exact carries.reads other there origin position target kept stems listed restoring

end Following

end Subgraph

/-! ## Narrowing -/

namespace JointState

open QuantGraph.Graph

/-- A fake quantization is narrowed to a target, from which it is led back. -/
structure Retargets (graph : Graph Rat) (policy : Policy) (narrowing : Narrowing Rat)
    (target : TargetRange Rat) : Prop where
  restoring : graph.restoringDequantization narrowing.id target = .ok narrowing.values
  min_eq : narrowing.min = target.min
  max_eq : narrowing.max = target.max
  limits : ∃ limits, graph.quantizationLimits? narrowing.id = some limits ∧ 2 ≤ limits.levels ∧
    (∃ minimum, target.Counts limits.levels minimum) ∧
    (target.hasZeroPoint = false → TargetRange.resolve limits policy = some target)

/-- The subgraph around a Concat has been quantized with one scale for each channel. -/
structure ScalesChannels (state : JointState Rat) (policy : Policy)
    (targets : List (TargetRange Rat)) (narrowings : List (Narrowing Rat))
    (moved : NodeId → NodeId) (chains : NodeId → Option DequantizationChain)
    (final : JointState Rat) : Prop where
  discovers : Subgraph.Discovers state.graph [] state.subgraph
  retargets : ∀ narrowing ∈ narrowings, ∃ target,
    (narrowing.id, target) ∈ state.subgraph.quantizers.zip targets ∧
      Retargets state.graph policy narrowing target
  quantizes : ∃ cache narrowed dequantized, state.graph.QuantizesTogether state.subgraph
    policy.updatePrecisions narrowings moved cache chains narrowed dequantized final.graph

variable {registry : Registry} {concat : NodeId} {policy : Policy} {state final : JointState Rat}

theorem exists_scalesChannels (wellFormed : state.graph.WellFormed)
    (constants : state.graph.ConstantsReadNothing)
    (discovers : Subgraph.Discovers state.graph [] state.subgraph)
    (quantizes : QuantizesPerChannel policy state final) :
    ∃ found narrowings moved chains,
      ChannelTargets.forSubgraph state.graph state.subgraph policy = .ok (some found) ∧
      state.ScalesChannels policy found.targets narrowings moved chains final := by
  obtain ⟨found, narrowings, moved, cache, chains, narrowed, dequantized, resolves, together,
    follows⟩ := quantizesTogether_of_perChannel wellFormed constants discovers quantizes
  refine ⟨found, narrowings, moved, chains, resolves, discovers, fun narrowing member => ?_,
    cache, narrowed, dequantized, together⟩
  have constant := together.limits narrowing.id (together.mem_quantizers member)
  obtain ⟨target, listed, restoring, _, min_eq, max_eq⟩ := narrowsToTarget_of_follows wellFormed
    (together.narrowing_works discovers) member constant (follows narrowing member)
  obtain ⟨limits, isLimits, supported, range, resolved⟩ :=
    Transformation.exists_limits_of_forSubgraph resolves listed
  obtain ⟨enough, _, _, minimum, counts⟩ := TargetRange.exists_counts_of_bounds supported range
  have integral (number : Int) : Scalar.round (number : Rat) = number := Exact.round_intCast number
  refine ⟨target, listed, restoring, ?_, ?_, limits, isLimits, enough, ⟨minimum, counts⟩, resolved⟩
  · rw [min_eq, counts.min_eq, integral]
  · have max_int : target.max = ((minimum + (limits.levels - 1 : Nat) : Int) : Rat) := by
      rw [counts.max_eq, counts.min_eq]
      push_cast
      rfl
    rw [max_eq, max_int, integral]

section Narrowed

variable {narrowings : List (Narrowing Rat)} {moved : NodeId → NodeId}
  {chains : NodeId → Option DequantizationChain} {cache : DequantizationCache Rat}
  {narrowed chained : Graph Rat} {feeds : Assignment Rat} {value : NDArray Rat}
  {narrowing : Narrowing Rat} {target : TargetRange Rat} {low high : Tensor Rat}

theorem Retargets.width_pos (retargets : Retargets state.graph policy narrowing target) :
    0 < target.max - target.min := by
  obtain ⟨_, _, enough, ⟨_, counts⟩, _⟩ := retargets.limits
  exact counts.width_pos enough

/-- A narrowed fake quantization gives the integers where its target has what it gave. -/
theorem Retargets.exists_raw
    (quantizes : state.graph.QuantizesTogether state.subgraph policy.updatePrecisions narrowings
      moved cache chains narrowed chained final.graph) (wellFormed : state.graph.WellFormed)
    (discovers : Subgraph.Discovers state.graph [] state.subgraph)
    (apart : state.subgraph.IsApart state.graph) (shapes : state.graph.HasConsistentShapes feeds)
    (real : state.subgraph.IsReal state.graph) (member : narrowing ∈ narrowings)
    (retargets : Retargets state.graph policy narrowing target)
    (isLow : state.graph.limit? narrowing.id .outputLow = some low)
    (isHigh : state.graph.limit? narrowing.id .outputHigh = some high)
    (differ : ∀ index, value.shape.Holds index → low.values.read index ≠ high.values.read index)
    (has : state.graph.HasValue feeds narrowing.id value) :
    ∃ raw, final.graph.HasValue feeds (moved narrowing.id) raw ∧ raw.shape = value.shape ∧
      value.shape.IsAddressable ∧ ∀ index, value.shape.Holds index → raw.get index =
        target.placeIn (low.values.read index) (high.values.read index) (value.get index) := by
  have listed := quantizes.mem_quantizers member
  obtain ⟨limits, isLimits, enough, ⟨minimum, counts⟩, _⟩ := retargets.limits
  obtain ⟨view, _, isView, _⟩ := (quantizes.requantizes.narrowed narrowing member).exists_view
  rw [levels_of_quantizationLimits? isView isLimits] at enough counts
  obtain ⟨present, _, inputs⟩ := fakeQuantizeNode_eq_ok isView
  obtain ⟨datum, arrays, hasData, hasInputLow, hasInputHigh, hasOutputLow, hasOutputHigh, common,
    addressable, equal⟩ := has.exists_limits isView enough
  obtain ⟨_, stretch, _⟩ := LimitArrays.commonShape_eq_ok.mp common
  have shape_eq := shapes.shape_eq_data isView has hasData
  have plain : view.node.elementType.isIntegral = false := by
    rw [ElementType.isIntegral, real narrowing.id listed view.node.elementType (by
      rw [elementType?, present, Option.map_some]), Bool.not_true]
  rw [limit?_of_read (wellFormed.exact _) (by rw [inputs]; rfl)] at isLow isHigh
  have low_eq := hasOutputLow.eq_of_constant isLow
  have high_eq := hasOutputHigh.eq_of_constant isHigh
  rw [plain] at equal
  rw [shape_eq] at equal stretch addressable differ ⊢
  refine ⟨_, quantizes.hasValue_of_narrowing wellFormed discovers apart member isView enough hasData
    hasInputLow hasInputHigh (stretch _ (by simp [LimitArrays.toList]))
    (stretch _ (by simp [LimitArrays.toList])) addressable, rfl, addressable, fun index holds => ?_⟩
  have between : arrays.intervalAt index = Interval.mk (arrays.inputLow.read index)
      (arrays.inputHigh.read index) (low.values.read index) (high.values.read index) := by
    rw [← low_eq, ← high_eq]
    rfl
  rw [equal, LimitArrays.quantize, LimitArrays.quantize, NDArray.get_ofFn holds,
    NDArray.get_ofFn holds, between, retargets.min_eq, retargets.max_eq]
  exact counts.quantize_eq_placeIn enough (differ index holds) _ _ _ _

/-- What is kept for a fake quantization is what its elements stem from. -/
theorem Retargets.carries {axes : List Nat} {targets : List (TargetRange Rat)}
    (discovers : Subgraph.Discovers state.graph [] state.subgraph)
    (shapes : state.graph.HasConsistentShapes feeds)
    (keeps : state.subgraph.KeepsChannels state.graph axes)
    (real : state.subgraph.IsReal state.graph)
    (listed : (narrowing.id, target) ∈ state.subgraph.quantizers.zip targets)
    (retargets : Retargets state.graph policy narrowing target)
    (has : state.graph.HasValue feeds narrowing.id value) :
    state.subgraph.CarriesStems state.graph targets axes narrowing.id value narrowing.values := by
  have member := (List.of_mem_zip listed).1
  have isShape := shapes.declared _ _ has
  obtain ⟨limits, isLimits, _⟩ := retargets.limits
  have constant := hasConstantLimits_of_quantizationLimits? isLimits
  obtain ⟨low, isLow⟩ := constant .outputLow
  obtain ⟨high, isHigh⟩ := constant .outputHigh
  obtain ⟨node, present, _⟩ := Option.bind_eq_some_iff.mp isLimits
  obtain ⟨type_eq, restores⟩ := restoringDequantization_eq_ok present isLow isHigh retargets.restoring
  have lowWithin := keeps.limits _ member .outputLow (by simp) low isLow _ isShape
  have highWithin := keeps.limits _ member .outputHigh (by simp) high isHigh _ isShape
  refine ⟨⟨?_, (restores.scale _ lowWithin highWithin).1,
    fun shift shifted => (restores.shift shift shifted _ lowWithin highWithin).1,
    fun shift shifted => ?_⟩, ?_⟩
  · rw [type_eq]
    exact real _ member _ (by rw [elementType?, present, Option.map_some])
  · obtain ⟨_, _, _, _, _, _, divides⟩ := exists_width_of_restoring retargets.restoring
    exact (divides shift shifted).2.1
  · intro index _ origin position target' kept stems listed' restoring
    obtain ⟨rfl, rfl⟩ := (Subgraph.stems_quantizer_iff discovers member).mp stems
    cases Transformation.eq_of_mem_zip discovers.quantizers_nodup listed listed'
    cases Except.ok.inj (retargets.restoring.symm.trans restoring)
    exact ⟨rfl, rfl⟩

end Narrowed

section Scaled

variable {targets : List (TargetRange Rat)} {narrowings : List (Narrowing Rat)}
  {moved : NodeId → NodeId} {chains : NodeId → Option DequantizationChain}
  {cache : DequantizationCache Rat} {narrowed chained : Graph Rat} {feeds : Assignment Rat}
  {axes : List Nat} {origin : NodeId} {target : TargetRange Rat}
  (scales : state.ScalesChannels policy targets narrowings moved chains final)

include scales

theorem ScalesChannels.exists_retargets
    (listed : (origin, target) ∈ state.subgraph.quantizers.zip targets) :
    ∃ narrowing ∈ narrowings, narrowing.id = origin ∧
      Retargets state.graph policy narrowing target := by
  obtain ⟨_, _, _, whole⟩ := scales.quantizes
  obtain ⟨narrowing, member, rfl⟩ := whole.exists_narrowing (List.of_mem_zip listed).1
  obtain ⟨target', listed', retargets⟩ := scales.retargets narrowing member
  cases Transformation.eq_of_mem_zip scales.discovers.quantizers_nodup listed listed'
  exact ⟨narrowing, member, rfl, retargets⟩

theorem ScalesChannels.exists_limits :
    ∀ quantizer ∈ state.subgraph.quantizers, ∃ limits,
      state.graph.quantizationLimits? quantizer = some limits := by
  intro quantizer listed
  obtain ⟨_, _, _, whole⟩ := scales.quantizes
  obtain ⟨narrowing, member, rfl⟩ := whole.exists_narrowing listed
  obtain ⟨_, _, retargets⟩ := scales.retargets narrowing member
  obtain ⟨limits, found, _⟩ := retargets.limits
  exact ⟨limits, found⟩

variable (shapes : state.graph.HasConsistentShapes feeds)
  (keeps : state.subgraph.KeepsChannels state.graph axes)
  (real : state.subgraph.IsReal state.graph)

include shapes keeps real

theorem ScalesChannels.carriesOn :
    QuantizesTogether.CarriesOn state.graph state.subgraph feeds narrowings
      (state.subgraph.CarriesStems state.graph targets axes) where
  quantizer := by
    intro narrowing member value has
    obtain ⟨target, listed, retargets⟩ := scales.retargets narrowing member
    exact retargets.carries scales.discovers shapes keeps real listed has
  concat := by
    intro concat isConcat axis inputs value parts values isOp derives isValue counts each joins
    exact .concat shapes scales.discovers keeps (scales.discovers.concat_layer concat isConcat).1 isOp
      derives isValue counts each joins
  pool := by
    intro layer member op kernel reduce output data value values isOp pools read _ isValue carries
    exact .pool scales.discovers keeps member isOp pools read isValue carries

variable (wellFormed : state.graph.WellFormed) (apart : state.subgraph.IsApart state.graph)
  (ordered : state.subgraph.KeepsOrder state.graph)

include wellFormed apart ordered

/-- With one scale for each channel, raw values that lie where the targets have what there was are
handed on. -/
theorem ScalesChannels.handsOn
    (quantizes : state.graph.QuantizesTogether state.subgraph policy.updatePrecisions narrowings
      moved cache chains narrowed chained final.graph) :
    QuantizesTogether.HandsOn state.graph final.graph state.subgraph moved chains feeds
      (state.subgraph.FollowsStems state.graph targets) where
  quantizer := by
    intro quantizer listed value has
    obtain ⟨narrowing, member, rfl⟩ := quantizes.exists_narrowing listed
    obtain ⟨target, paired, retargets⟩ := scales.retargets narrowing member
    have constant := quantizes.limits narrowing.id listed
    obtain ⟨low, isLow⟩ := constant .outputLow
    obtain ⟨high, isHigh⟩ := constant .outputHigh
    obtain ⟨raw, hasRaw, shape_eq, addressable, each⟩ := retargets.exists_raw quantizes wellFormed
      scales.discovers apart shapes real member isLow isHigh
      (ordered.differ _ listed low isLow high isHigh _ (shapes.declared _ _ has)) has
    refine ⟨raw, hasRaw, shape_eq, addressable, ?_⟩
    intro index holds origin position target' low' high' stems paired' isLow' isHigh'
    obtain ⟨rfl, rfl⟩ := (Subgraph.stems_quantizer_iff scales.discovers listed).mp stems
    cases Transformation.eq_of_mem_zip scales.discovers.quantizers_nodup paired paired'
    cases Option.some.inj (isLow.symm.trans isLow')
    cases Option.some.inj (isHigh.symm.trans isHigh')
    exact each _ holds
  concat := by
    intro concat isConcat axis inputs raws value raw isOp _ isValue isRaw length_eq same each
    have derives : state.graph.Derives feeds (state.graph.inputs concat) inputs := by
      refine forall₂_of_getElem? length_eq fun place output input read isInput => ?_
      obtain ⟨raw, isRaw⟩ := exists_getElem?_of_length_eq same.symm isInput
      exact (each place output input raw read isInput isRaw).2.1
    refine .concat shapes scales.discovers (scales.discovers.concat_layer concat isConcat).1 isOp
      derives isValue isRaw ?_ fun place output input raw read isInput isRaw =>
        (each place output input raw read isInput isRaw).2.2.2
    exact (QuantizesTogether.map_shape_of_getElem? length_eq same
      fun place output input raw read isInput isRaw =>
        (each place output input raw read isInput isRaw).2.2.1).symm
  pool := by
    intro layer member _ op kernel reduce output data rawData value raw isOp pools _ read _ hasData
      shape_eq isValue isRaw follows
    refine .pool shapes scales.discovers keeps ordered (fun origin target listed => ?_) member isOp
      pools read hasData shape_eq isValue isRaw follows
    obtain ⟨_, _, _, retargets⟩ := scales.exists_retargets listed
    exact retargets.width_pos
  restored := by
    intro layer member value raw chain has hasRaw shape_eq addressable _ present
    obtain ⟨_, _, array, _, _, _, hasArray, array_shape, _⟩ :=
      quantizes.exists_restored_of_carried (fun middle values keepsMembers carried => by
        have carries := quantizes.carries_of_carriesOn wellFormed scales.discovers apart shapes
          (scales.carriesOn shapes keeps real) keepsMembers has member carried
        exact ⟨carries.varies.real, carries.varies.stretchesTo⟩) present hasRaw shape_eq addressable
    exact ⟨array, hasArray, array_shape⟩

/-- What is read from the subgraph elsewhere is restored, but for shifts that were left out. -/
theorem ScalesChannels.readsRestored (constants : state.graph.ConstantsReadNothing) :
    state.subgraph.ReadsRestored state.graph final.graph feeds
      (state.subgraph.LeavesOutShifts state.graph targets) := by
  obtain ⟨cache, narrowed, chained, quantizes⟩ := scales.quantizes
  have discovers := scales.discovers
  intro consumer outside place output value read isLayer has
  have works := constants.works_of_read wellFormed read
  obtain ⟨chain, present⟩ := quantizes.exists_chain discovers works outside
    (List.mem_of_getElem? read) isLayer
  obtain ⟨raw, hasRaw, shape_eq, related⟩ := quantizes.exists_raw_of_handsOn wellFormed discovers
    (scales.handsOn shapes keeps real wellFormed apart ordered quantizes) has
    (Or.inl (discovers.layer_works isLayer))
  obtain ⟨addressable, follows⟩ := related isLayer
  have carries {middle : Graph Rat} {values : Dequantization Rat}
      (keepsMembers : narrowed.KeepsMembers (state.subgraph.relocate moved) middle)
      (carried : middle.carriedDequantization cache [] (moved output.node) = .ok values) :=
    quantizes.carries_of_carriesOn wellFormed discovers apart shapes
      (scales.carriesOn shapes keeps real) keepsMembers has isLayer carried
  obtain ⟨values, middle, restored, keepsMembers, carried, applies, hasRestored, restored_shape, each⟩ :=
    quantizes.exists_restored_of_carried (fun _ _ keepsMembers carried =>
      ⟨(carries keepsMembers carried).varies.real,
        (carries keepsMembers carried).varies.stretchesTo⟩) present hasRaw shape_eq addressable
  have source : dequantized chains (relocated moved output) = chain.tail :=
    dequantized_of_some present
  refine ⟨chain.tail, values.scale, restored, ?_, applies, hasRestored, restored_shape,
    fun index holds =>
      ⟨Subgraph.exists_stems wellFormed discovers shapes has isLayer holds, fun origin position stems => ?_⟩⟩
  · rw [quantizes.inputs_of_outside discovers works outside, List.getElem?_map, read,
      Option.map_some, source]
  have isQuantizer := stems.mem_quantizers
  obtain ⟨narrowing, member, rfl⟩ := quantizes.exists_narrowing isQuantizer
  obtain ⟨target, listed, retargets⟩ := scales.retargets narrowing member
  obtain ⟨low, isLow⟩ := quantizes.limits _ isQuantizer .outputLow
  obtain ⟨high, isHigh⟩ := quantizes.limits _ isQuantizer .outputHigh
  obtain ⟨origins, hasOrigin, inside⟩ := stems.exists_holds shapes has holds
  have isShape := shapes.declared _ _ hasOrigin
  obtain ⟨limits, isLimits, _⟩ := retargets.limits
  obtain ⟨node, isNode, _⟩ := Option.bind_eq_some_iff.mp isLimits
  have restoring := retargets.restoring
  obtain ⟨_, restores⟩ := restoringDequantization_eq_ok isNode isLow isHigh restoring
  have lowStretches := keeps.stretchesTo isQuantizer (by simp) isLow isShape
  have highStretches := keeps.stretchesTo isQuantizer (by simp) isHigh isShape
  obtain ⟨scale_eq, shift_eq⟩ :=
    (carries keepsMembers carried).reads index holds _ position target _ stems listed restoring
  have differ := ordered.differ _ isQuantizer low isLow high isHigh _ isShape position inside
  have raw_eq := follows index holds _ position target low high stems listed isLow isHigh
  obtain ⟨step, value_eq⟩ := TargetRange.exists_step_eq retargets.width_pos differ (value.get index)
  have restored_eq : restored.get index = narrowing.values.restore position (target.min + step) := by
    rw [each index holds, Dequantization.restore_eq_shiftAt, scale_eq, shift_eq, raw_eq, value_eq,
      TargetRange.placeIn_step retargets.width_pos differ, Dequantization.restore_eq_shiftAt]
  refine ⟨target, _, low, high, listed, restoring, isLow, isHigh,
    scale_eq.trans ((restores.scale _ lowStretches highStretches).2 position inside), ?_⟩
  rw [restored_eq, value_eq]
  split
  case isTrue unshifted =>
    exact restores.restore_sub_of_unshifted retargets.width_pos lowStretches highStretches inside
      unshifted step
  case isFalse shifted =>
    exact restores.restore_sub_of_shifted retargets.width_pos lowStretches highStretches inside
      shifted differ step

end Scaled

end JointState

end QuantGraph
