import QuantGraph.Proofs.Dequantization.Decomposition
import QuantGraph.Proofs.Dequantization.Restoration
import QuantGraph.Proofs.Evaluation.Derivation
import QuantGraph.Proofs.Evaluation.Operation
import QuantGraph.Proofs.Quantization.Folding
import QuantGraph.Proofs.Quantization.Levels
import QuantGraph.Proofs.Quantization.Reading

/-! The values along a chain and those of a quantizing node, at every position of a shape to
which everything stretches that takes part. -/

namespace QuantGraph

namespace Dequantization

variable [Scalar α]

/-- What the shift and the scale for a position make of a value. -/
def restore (values : Dequantization α) (index : Index) (value : α) : α :=
  match values.shift with
  | some shift => (value - shift.values.read index) * values.scale.values.read index
  | none => value * values.scale.values.read index

/-- Scale and shift stretch to a shape. -/
def StretchesTo (values : Dequantization α) (shape : Shape) : Prop :=
  values.scale.shape.StretchesTo shape ∧
    ∀ shift, values.shift = some shift → shift.shape.StretchesTo shape

end Dequantization

namespace Graph

/-! ## Chains -/

section Chains

variable [Scalar α] {graph : Graph α} {feeds : Assignment α} {id : NodeId} {data : Output}
  {tensor : Tensor α} {value : NDArray α} {target : Shape} {values : Dequantization α}
  {withConvert : Bool}

/-- The value of an operation on an output and a constant. -/
theorem AppliesConstant.hasValue (binary : BinaryOp) {result : NDArray α}
    (applies : graph.AppliesConstant (Op.elementwise binary) data tensor id)
    (has : graph.HasValue feeds data.node value)
    (combined : NDArray.combine binary value tensor.values = .ok result) :
    graph.HasValue feeds id result := by
  obtain ⟨isOp, constant, inputs, isConstant, alone⟩ := applies
  obtain ⟨node, found, op_eq⟩ := Option.map_eq_some_iff.mp isOp
  refine hasValue_iff.mpr ⟨node, [value, tensor.values], found, ?_, ?_⟩
  · rw [inputs]
    exact List.Forall₂.cons has
      (List.Forall₂.cons (hasValue_of_constant isConstant alone) List.Forall₂.nil)
  · rw [op_eq, Op.evaluate_elementwise binary rfl rfl, combined]
    rfl

/-- An operation on an output and a constant has a value when the output has one. -/
theorem AppliesConstant.exists_value (binary : BinaryOp)
    (applies : graph.AppliesConstant (Op.elementwise binary) data tensor id)
    (has : graph.HasValue feeds data.node value) (valueStretches : value.shape.StretchesTo target)
    (tensorStretches : tensor.shape.StretchesTo target) (addressable : target.IsAddressable) :
    ∃ result, graph.HasValue feeds id result ∧ value.shape.StretchesTo result.shape ∧
      tensor.shape.StretchesTo result.shape ∧ result.shape.StretchesTo target ∧
      ∀ index, target.Holds index →
        result.read index = binary.apply (value.read index) (tensor.values.read index) := by
  obtain ⟨result, combined, facts⟩ :=
    NDArray.exists_read_combine binary valueStretches tensorStretches addressable
  exact ⟨result, applies.hasValue binary has combined, facts⟩

theorem map_convert_of_isReal {type : ElementType} (real : type.isReal = true)
    (array : NDArray α) : array.map type.convert = array := by
  refine NDArray.ext_get rfl fun index holds => ?_
  have inside : array.shape.Holds index := holds
  rw [NDArray.get_map inside, ElementType.convert_of_isReal real]

/-- A Convert to a real type hands its value on. -/
theorem HoldsConvert.hasValue {convert : Option NodeId}
    (holds : graph.HoldsConvert values data withConvert convert)
    (real : values.restoredType.isReal = true) (has : graph.HasValue feeds data.node value) :
    graph.HasValue feeds (stageOutput convert data).node value := by
  unfold HoldsConvert at holds
  split at holds
  case isTrue =>
    obtain ⟨id, rfl, isOp, inputs⟩ := holds
    obtain ⟨node, found, op_eq⟩ := Option.map_eq_some_iff.mp isOp
    refine hasValue_iff.mpr ⟨node, [value], found, ?_, ?_⟩
    · exact inputs ▸ List.Forall₂.cons has List.Forall₂.nil
    · rw [op_eq, Op.evaluate_convert values.restoredType rfl, map_convert_of_isReal real]
  case isFalse =>
    rw [holds]
    exact has

/-- The end of a chain has the value that its constants make of the data. -/
theorem HoldsChain.exists_value {chain : DequantizationChain}
    (holds : graph.HoldsChain values data withConvert chain)
    (real : values.restoredType.isReal = true) (has : graph.HasValue feeds data.node value)
    (valueStretches : value.shape.StretchesTo target)
    (constantsStretch : values.StretchesTo target) (addressable : target.IsAddressable) :
    ∃ restored, graph.HasValue feeds chain.tail.node restored ∧
      value.shape.StretchesTo restored.shape ∧ values.scale.shape.StretchesTo restored.shape ∧
      restored.shape.StretchesTo target ∧ ∀ index, target.Holds index →
        restored.read index = values.restore index (value.read index) := by
  have converted := holds.convert.hasValue real has
  obtain ⟨id, isMultiply, multiplies⟩ := holds.multiply
  have tail_eq : chain.tail.node = id := by rw [DequantizationChain.tail, isMultiply]; rfl
  have subtract := holds.subtract
  unfold HoldsSubtract at subtract
  rw [tail_eq]
  unfold Dequantization.restore
  cases shifted : values.shift with
  | none =>
      rw [shifted] at subtract
      rw [show chain.subtract = none from subtract] at multiplies
      exact multiplies.exists_value .multiply converted valueStretches constantsStretch.1 addressable
  | some shift =>
      rw [shifted] at subtract
      obtain ⟨difference, isSubtract, subtracts⟩ := subtract
      rw [isSubtract] at multiplies
      obtain ⟨lowered, hasLowered, fromValue, _, loweredStretches, loweredRead⟩ :=
        subtracts.exists_value .subtract converted valueStretches (constantsStretch.2 shift shifted)
          addressable
      obtain ⟨restored, hasRestored, fromLowered, fromScale, restoredStretches, restoredRead⟩ :=
        multiplies.exists_value .multiply hasLowered loweredStretches constantsStretch.1 addressable
      refine ⟨restored, hasRestored, fromValue.trans fromLowered, fromScale, restoredStretches, ?_⟩
      intro index inside
      rw [restoredRead index inside, loweredRead index inside]
      rfl

end Chains

/-! ## Quantizing nodes -/

/-- A node quantizes data to the range between two constants. -/
structure QuantizesTo (graph : Graph α) (data inputLow inputHigh : Output) (levels : Nat)
    (target : TargetRange α) (id : NodeId) : Prop where
  op_eq : graph.op? id = some (.fakeQuantize levels)
  bounds : ∃ (type : ElementType) (low high : NodeId),
    graph.inputs id = [data, inputLow, inputHigh, low.output, high.output] ∧
    graph.op? low = some (.constant (.scalar type target.min)) ∧ graph.inputs low = [] ∧
    graph.op? high = some (.constant (.scalar type target.max)) ∧ graph.inputs high = []

/-- Where data is constant, constant input limits stand in a relation to its shape. -/
def LimitsMeet (graph : Graph α) (relation : Tensor α → Shape → Prop)
    (data inputLow inputHigh : Output) : Prop :=
  ∀ tensor, graph.constant? data.node = some tensor → ∀ output ∈ [inputLow, inputHigh],
    ∀ limit, graph.constant? output.node = some limit → relation limit tensor.shape

theorem limitsMeet_congr {before after : Graph α} {relation : Tensor α → Shape → Prop}
    {data inputLow inputHigh : Output}
    (same : ∀ output ∈ [data, inputLow, inputHigh],
      after.constant? output.node = before.constant? output.node) :
    after.LimitsMeet relation data inputLow inputHigh ↔
      before.LimitsMeet relation data inputLow inputHigh := by
  unfold LimitsMeet
  rw [same data List.mem_cons_self]
  refine forall_congr' fun tensor => imp_congr_right fun _ =>
    forall₂_congr fun output member => ?_
  rw [same output (List.mem_cons_of_mem _ member)]

section Quantizing

variable [Scalar α] {graph before after : Graph α} {feeds : Assignment α}
  {id narrowed quantize : NodeId} {data inputLow inputHigh : Output} {levels : Nat}
  {target : TargetRange α} {datum low high : NDArray α} {shape : Shape} {name : String}
  {updatePrecision : Bool}

/-- The value of a quantizing node maps every datum to the range. -/
theorem QuantizesTo.exists_value
    (quantizes : graph.QuantizesTo data inputLow inputHigh levels target id)
    (stable : target.IsStable levels) (enough : 2 ≤ levels)
    (hasData : graph.HasValue feeds data.node datum)
    (hasLow : graph.HasValue feeds inputLow.node low)
    (hasHigh : graph.HasValue feeds inputHigh.node high)
    (dataStretches : datum.shape.StretchesTo shape) (lowStretches : low.shape.StretchesTo shape)
    (highStretches : high.shape.StretchesTo shape) (addressable : shape.IsAddressable) :
    ∃ quantized, graph.HasValue feeds id quantized ∧
      datum.shape.StretchesTo quantized.shape ∧ low.shape.StretchesTo quantized.shape ∧
      high.shape.StretchesTo quantized.shape ∧ quantized.shape.StretchesTo shape ∧
      ∀ index, shape.Holds index → quantized.read index =
        (Interval.mk (low.read index) (high.read index) target.min target.max).project levels
          (datum.read index) := by
  obtain ⟨node, found, op_eq⟩ := Option.map_eq_some_iff.mp quantizes.op_eq
  obtain ⟨type, lowest, highest, inputs, isLowest, lowest_alone, isHighest, highest_alone⟩ :=
    quantizes.bounds
  let limits : LimitArrays α := ⟨low, high, .scalar target.min, .scalar target.max⟩
  have limitsStretch : ∀ limit ∈ limits.toList, limit.shape.StretchesTo shape := by
    simpa [limits, LimitArrays.toList, NDArray.scalar] using
      ⟨lowStretches, highStretches, Shape.nil_stretchesTo shape⟩
  obtain ⟨common, isCommon⟩ := LimitArrays.exists_commonShape dataStretches limitsStretch
  obtain ⟨fromData, fromLimits, least⟩ := LimitArrays.commonShape_eq_ok.mp isCommon
  have stretches := least shape dataStretches limitsStretch
  refine ⟨limits.quantize levels node.elementType.isIntegral datum common,
    hasValue_iff.mpr ⟨node, [datum, low, high, .scalar target.min, .scalar target.max], found,
      ?_, ?_⟩, fromData, fromLimits low (by simp [limits, LimitArrays.toList]),
    fromLimits high (by simp [limits, LimitArrays.toList]), stretches, fun index holds => ?_⟩
  · rw [inputs]
    exact .cons hasData (.cons hasLow (.cons hasHigh
      (.cons (hasValue_of_constant isLowest lowest_alone)
        (.cons (hasValue_of_constant isHighest highest_alone) .nil))))
  · rw [op_eq, Op.evaluate_fakeQuantize limits enough rfl rfl rfl rfl rfl isCommon]
    exact if_pos (stretches.isAddressable addressable)
  · rw [LimitArrays.read_quantize fromData fromLimits stretches holds]
    exact stable.quantize_eq _ _ _ _

/-- So does every element of the constant to which a quantizing node folds. -/
theorem QuantizesTo.read_folded {folded : Tensor α} (wellFormed : graph.WellFormed)
    (quantizes : graph.QuantizesTo data inputLow inputHigh levels target id)
    (stable : target.IsStable levels) (covers : graph.LimitsMeet Tensor.Covers data inputLow inputHigh)
    (folds : graph.foldFakeQuantize id (some true) = .ok (some folded))
    (hasData : graph.HasValue feeds data.node datum)
    (hasLow : graph.HasValue feeds inputLow.node low)
    (hasHigh : graph.HasValue feeds inputHigh.node high)
    (dataStretches : datum.shape.StretchesTo shape) (lowStretches : low.shape.StretchesTo shape)
    (highStretches : high.shape.StretchesTo shape) :
    (graph.LimitsMeet Tensor.StretchesTo data inputLow inputHigh →
        low.shape.StretchesTo datum.shape ∧ high.shape.StretchesTo datum.shape) ∧
      folded.shape = datum.shape ∧ ∀ index, shape.Holds index → folded.values.read index =
        (Interval.mk (low.read index) (high.read index) target.min target.max).project levels
          (datum.read index) := by
  obtain ⟨node, found, op_eq⟩ := Option.map_eq_some_iff.mp quantizes.op_eq
  obtain ⟨type, lowest, highest, inputs, isLowest, _, isHighest, _⟩ := quantizes.bounds
  obtain ⟨tensor, limits, isData, areLimits, applied⟩ := foldFakeQuantize_eq_some found op_eq folds
  have exact := wellFormed.exact id
  rw [inputNode?, exact.input?_eq, inputs] at isData
  have isData : graph.constant? data.node = some tensor := isData
  have limit_eq (limit : LimitName) (output : Output)
      (read : (graph.inputs id)[limit.slot]? = some output) :
      graph.constant? output.node = some (limits.get limit) :=
    (limit?_of_read exact read).symm.trans (areLimits limit)
  have isLow : graph.constant? inputLow.node = some limits.inputLow :=
    limit_eq .inputLow inputLow (by rw [inputs]; rfl)
  have isHigh : graph.constant? inputHigh.node = some limits.inputHigh :=
    limit_eq .inputHigh inputHigh (by rw [inputs]; rfl)
  have minimum_eq : limits.outputLow = .scalar type target.min :=
    Option.some.inj ((limit_eq .outputLow lowest.output (by rw [inputs]; rfl)).symm.trans
      (constant?_eq_some_iff.mpr isLowest))
  have maximum_eq : limits.outputHigh = .scalar type target.max :=
    Option.some.inj ((limit_eq .outputHigh highest.output (by rw [inputs]; rfl)).symm.trans
      (constant?_eq_some_iff.mpr isHighest))
  obtain rfl := hasData.eq_of_constant isData
  obtain rfl := hasLow.eq_of_constant isLow
  obtain rfl := hasHigh.eq_of_constant isHigh
  have scaled : limits.isSignedShift levels = false := stable.isSignedShift_eq minimum_eq maximum_eq
  obtain ⟨shape_eq, nonempty, each⟩ := FoldLimits.get_of_apply applied scaled
  refine ⟨fun stretch => ⟨stretch tensor isData inputLow (by simp) _ isLow,
    stretch tensor isData inputHigh (by simp) _ isHigh⟩, shape_eq, fun index holds => ?_⟩
  have inside : tensor.shape.Holds (tensor.shape.stretchedIndex index) :=
    holds.stretchedIndex dataStretches
  obtain ⟨coordinate, rest, position⟩ : ∃ coordinate rest,
      tensor.shape.stretchedIndex index = coordinate :: rest := by
    refine List.exists_cons_of_ne_nil fun empty => nonempty (List.eq_nil_of_length_eq_zero ?_)
    rw [← inside.length_eq, empty, List.length_nil]
  rw [position] at inside
  have interval : limits.channelInterval coordinate = Interval.mk
      (limits.inputLow.values.read index) (limits.inputHigh.values.read index)
      target.min target.max := by
    rw [FoldLimits.channelInterval, minimum_eq, maximum_eq,
      (covers tensor isData inputLow (by simp) _ isLow).read_eq lowStretches dataStretches holds
        position,
      (covers tensor isData inputHigh (by simp) _ isHigh).read_eq highStretches dataStretches holds
        position]
    rfl
  rw [NDArray.read]
  change folded.values.get (folded.shape.stretchedIndex index) = _
  rw [shape_eq, position, each coordinate rest inside, interval, stable.quantize_eq, ← position]
  rfl

omit [Scalar α] in
theorem QuantizesTo.congr (quantizes : before.QuantizesTo data inputLow inputHigh levels target id)
    (same : ∀ other, before.SameAt after other) :
    after.QuantizesTo data inputLow inputHigh levels target id where
  op_eq := (same id).1.trans quantizes.op_eq
  bounds := by
    obtain ⟨type, low, high, inputs, isLow, low_alone, isHigh, high_alone⟩ := quantizes.bounds
    exact ⟨type, low, high, (same id).2.trans inputs, (same low).1.trans isLow,
      (same low).2.trans low_alone, (same high).1.trans isHigh, (same high).2.trans high_alone⟩

/-- The quantized values are the images of the data in the range, whether they are those of a
constant or those of the quantizing node. -/
theorem SettlesQuantized.exists_value (wellFormed : before.WellFormed)
    (settles : before.SettlesQuantized narrowed name target.precision updatePrecision quantize after)
    (quantizes : before.QuantizesTo data inputLow inputHigh levels target narrowed)
    (stable : target.IsStable levels) (enough : 2 ≤ levels)
    (covers : before.LimitsMeet Tensor.Covers data inputLow inputHigh)
    (hasData : before.HasValue feeds data.node datum)
    (hasLow : before.HasValue feeds inputLow.node low)
    (hasHigh : before.HasValue feeds inputHigh.node high)
    (dataStretches : datum.shape.StretchesTo shape) (lowStretches : low.shape.StretchesTo shape)
    (highStretches : high.shape.StretchesTo shape) (addressable : shape.IsAddressable) :
    ∃ quantized, after.HasValue feeds quantize quantized ∧
      datum.shape.StretchesTo quantized.shape ∧
      (before.LimitsMeet Tensor.StretchesTo data inputLow inputHigh →
        low.shape.StretchesTo quantized.shape ∧ high.shape.StretchesTo quantized.shape) ∧
      quantized.shape.StretchesTo shape ∧
      ∀ index, shape.Holds index → quantized.read index =
        (Interval.mk (low.read index) (high.read index) target.min target.max).project levels
          (datum.read index) := by
  obtain ⟨type, lowest, highest, inputs, isLowest, lowest_alone, isHighest, highest_alone⟩ :=
    quantizes.bounds
  rcases settles with ⟨folded, middle, folds, adds, sheds, _⟩ | ⟨_, rfl, declares⟩
  · obtain ⟨fromLimits, shape_eq, each⟩ := quantizes.read_folded wellFormed stable covers folds
      hasData hasLow hasHigh dataStretches lowStretches highStretches
    let settled : Tensor α := if updatePrecision then folded.convert target.precision else folded
    have live : after.contains quantize = true :=
      sheds.keeps adds.live (adds.grows.independent wellFormed.consistent adds.fresh
        (contains_of_op? quantizes.op_eq))
    have isOp : after.op? quantize = some (.constant settled) :=
      (op?_congr (sheds.node_eq quantize live)).trans adds.op?_new
    have alone : after.inputs quantize = [] := (sheds.inputs_eq live).trans adds.inputs_new
    have folded_stretches : folded.values.shape.StretchesTo shape := by
      rw [show folded.values.shape = datum.shape from shape_eq]
      exact dataStretches
    have settled_shape : settled.values.shape = datum.shape := by
      cases updatePrecision <;> exact shape_eq
    refine ⟨settled.values, hasValue_of_constant isOp alone, ?_⟩
    rw [settled_shape]
    refine ⟨Shape.stretchesTo_refl _, fromLimits, dataStretches, fun index holds => ?_⟩
    cases updatePrecision with
    | false => exact each index holds
    | true =>
        change (folded.values.map target.precision.convert).read index = _
        rw [NDArray.read_map folded_stretches holds, each index holds, stable.convert_eq]
  · have independent (source : Output) (member : source ∈ [data, inputLow, inputHigh]) :
        before.Independent quantize source.node := by
      refine independent_of_reads wellFormed (reads_of_mem_inputs ?_)
      rw [inputs]
      exact List.mem_append_left [lowest.output, highest.output] member
    have kept : after.QuantizesTo data inputLow inputHigh levels target quantize ∧
        ∀ source ∈ [data, inputLow, inputHigh], ∀ value,
          before.HasValue feeds source.node value → after.HasValue feeds source.node value := by
      split at declares
      case isTrue =>
        exact ⟨quantizes.congr (declares.sameAt (GraphRevision.isRedeclared_declaring _)),
          fun source member value has => declares.hasValue has (independent source member)⟩
      case isFalse =>
        subst declares
        exact ⟨quantizes, fun _ _ _ has => has⟩
    obtain ⟨quantizes, carried⟩ := kept
    obtain ⟨quantized, has, fromData, fromLow, fromHigh, stretches, each⟩ :=
      quantizes.exists_value stable enough (carried data (by simp) datum hasData)
        (carried inputLow (by simp) low hasLow) (carried inputHigh (by simp) high hasHigh)
        dataStretches lowStretches highStretches addressable
    exact ⟨quantized, has, fromData, fun _ => ⟨fromLow, fromHigh⟩, stretches, each⟩

end Quantizing

end Graph

end QuantGraph
