import QuantGraph.Evaluation
import QuantGraph.Proofs.NDArray.Shapes

/-! An operation whose output can be inferred has a value, and the value has the inferred
shape. Three operations have no value at all, and some ask more of the shapes of their
inputs than inference does. -/

namespace QuantGraph

namespace Op

/-- What an operation asks of the shapes of its inputs, beyond what inference asks, so that
it has a value. -/
def Accepts (op : Op α) (inputs : List Shape) : Prop :=
  match op with
  | .convolution | .groupConvolution | .interpolate _ => False
  | .fakeQuantize levels =>
      2 ≤ levels ∧ ∀ limit ∈ inputs.tail, limit.StretchesTo (inputs.headD [])
  | .concat axis => (inputs.map fun shape => shape.getD axis 0).sum < 18446744073709551616
  | .matMul => ∀ shape ∈ inputs.take 2, shape.length = 2
  | .squeeze axes => axes.Nodup
  | .parameter | .constant _ | .result | .convert _ | .add | .subtract | .multiply | .divide
  | .maxPool _ | .avgPool _ | .relu | .reshape _ | .unsqueeze _ | .transpose _ => True

instance (op : Op α) (inputs : List Shape) : Decidable (op.Accepts inputs) :=
  match op with
  | .convolution | .groupConvolution | .interpolate _ => isFalse id
  | .fakeQuantize levels => inferInstanceAs
      (Decidable (2 ≤ levels ∧ ∀ limit ∈ inputs.tail, limit.StretchesTo (inputs.headD [])))
  | .concat axis => inferInstanceAs
      (Decidable ((inputs.map fun shape => shape.getD axis 0).sum < 18446744073709551616))
  | .matMul => inferInstanceAs (Decidable (∀ shape ∈ inputs.take 2, shape.length = 2))
  | .squeeze axes => inferInstanceAs (Decidable axes.Nodup)
  | .parameter | .constant _ | .result | .convert _ | .add | .subtract | .multiply | .divide
  | .maxPool _ | .avgPool _ | .relu | .reshape _ | .unsqueeze _ | .transpose _ => isTrue trivial

/-- Arrays are as types declare them. -/
def Fits (types : List ValueType) (inputs : List (NDArray α)) : Prop :=
  inputs.map NDArray.shape = types.map ValueType.shape

variable {types : List ValueType} {inputs : List (NDArray α)}

theorem Fits.getElem? (fits : Fits types inputs) {position : Nat} {type : ValueType}
    (found : types[position]? = some type) :
    ∃ input, inputs[position]? = some input ∧ input.shape = type.shape := by
  have read := congrArg (fun shapes => shapes[position]?) fits
  simp only [List.getElem?_map, found, Option.map_some] at read
  exact Option.map_eq_some_iff.mp read

theorem getElem?_of_read {position : Nat} {missing : InferenceError} {type : ValueType}
    (found : (match types[position]? with
      | some input => Except.ok input
      | none => .error missing) = .ok type) : types[position]? = some type := by
  split at found
  case h_1 entry present =>
    cases Except.ok.inj found
    exact present
  case h_2 => cases found

/-- An input whose type can be read has a value of the shape that the type declares. -/
theorem Fits.read (fits : Fits types inputs) {position : Nat} {missing : InferenceError}
    {type : ValueType} (found : (match types[position]? with
      | some input => Except.ok input
      | none => .error missing) = .ok type) :
    types[position]? = some type ∧
      ∃ input, inputs[position]? = some input ∧ input.shape = type.shape :=
  ⟨getElem?_of_read found, fits.getElem? (getElem?_of_read found)⟩

/-- An elementwise operation as an operation of a graph. -/
def elementwise : BinaryOp → Op α
  | .add => .add
  | .subtract => .subtract
  | .multiply => .multiply
  | .divide => .divide

theorem exists_eq_convert {op : Op α} (kind : op.kind = .convert) :
    ∃ destination, op = .convert destination := by
  cases op <;> first | exact ⟨_, rfl⟩ | cases kind

theorem eq_elementwise {op : Op α} (binary : BinaryOp)
    (kind : op.kind = (elementwise binary : Op α).kind) : op = elementwise binary := by
  cases binary <;> cases op <;> first | rfl | cases kind

/-- The operands of an elementwise operation broadcast to the inferred shape. -/
theorem broadcast_of_infer (binary : BinaryOp) {type : ValueType}
    (inferred : (elementwise binary : Op α).infer types = .ok type) :
    ∃ left right, types[0]? = some left ∧ types[1]? = some right ∧
      left.shape.broadcast right.shape = some type.shape := by
  cases binary
  all_goals
    obtain ⟨left, readLeft, inferred⟩ := Outcome.bind_eq_ok.mp inferred
    obtain ⟨right, readRight, inferred⟩ := Outcome.bind_eq_ok.mp inferred
    refine ⟨left, right, getElem?_of_read readLeft, getElem?_of_read readRight, ?_⟩
    split at inferred
    case h_1 shape broadcast =>
      cases Except.ok.inj inferred
      exact broadcast
    case h_2 => cases inferred

/-! ## What an operation computes from its inputs -/

section Values

variable [Scalar α] {integral : Bool} {feed : Option (NDArray α)}

theorem evaluate_parameter {op : Op α} {value : NDArray α} (isParameter : op.kind = .parameter) :
    op.evaluate integral inputs (some value) = .ok value := by
  cases op <;> first | rfl | cases isParameter

theorem evaluate_elementwise (binary : BinaryOp) {left right : NDArray α}
    (isLeft : inputs[0]? = some left) (isRight : inputs[1]? = some right) :
    (elementwise binary).evaluate integral inputs feed =
      (NDArray.combine binary left right).mapError .broadcast := by
  cases binary <;> (simp only [elementwise, evaluate, isLeft, isRight]; rfl)

theorem evaluate_relu {data : NDArray α} (isData : inputs[0]? = some data) :
    relu.evaluate integral inputs feed = .ok (data.map fun value => Scalar.larger value 0) := by
  simp only [evaluate, isData]
  rfl

theorem evaluate_convert (destination : ElementType) {data : NDArray α}
    (isData : inputs[0]? = some data) :
    (convert destination).evaluate integral inputs feed = .ok (data.map destination.convert) := by
  simp only [evaluate, isData]
  rfl

theorem evaluate_fakeQuantize (limits : LimitArrays α) {levels : Nat} {data : NDArray α}
    {shape : Shape} (enough : 2 ≤ levels) (isData : inputs[0]? = some data)
    (isInputLow : inputs[1]? = some limits.inputLow)
    (isInputHigh : inputs[2]? = some limits.inputHigh)
    (isOutputLow : inputs[3]? = some limits.outputLow)
    (isOutputHigh : inputs[4]? = some limits.outputHigh)
    (common : limits.commonShape data.shape = .ok shape) :
    (fakeQuantize levels).evaluate integral inputs feed =
      if shape.IsAddressable then .ok (limits.quantize levels integral data shape)
      else .error (.broadcast (.tooLarge data.shape shape)) := by
  simp only [evaluate, isData, isInputLow, isInputHigh, isOutputLow, isOutputHigh]
  simp only [bind, Except.bind, if_neg (Nat.not_lt_of_le enough)]
  have common : LimitArrays.commonShape ⟨limits.inputLow, limits.inputHigh, limits.outputLow,
      limits.outputHigh⟩ data.shape = .ok shape := common
  rw [common]
  rfl

/-- Quantizing succeeds where data and limits have a common shape that can be addressed. -/
theorem evaluate_fakeQuantize_eq_ok {limits : LimitArrays α} {levels : Nat}
    {data value : NDArray α} (enough : 2 ≤ levels) :
    (fakeQuantize levels).evaluate integral (data :: limits.toList) feed = .ok value ↔
      limits.commonShape data.shape = .ok value.shape ∧ value.shape.IsAddressable ∧
        value = limits.quantize levels integral data value.shape := by
  constructor
  · intro evaluated
    cases common : limits.commonShape data.shape with
    | error limit =>
        simp only [evaluate, LimitArrays.toList, List.getElem?_cons_zero, List.getElem?_cons_succ,
          bind, Except.bind, if_neg (Nat.not_lt_of_le enough), common] at evaluated
        cases evaluated
    | ok shape =>
        rw [evaluate_fakeQuantize limits enough rfl rfl rfl rfl rfl common] at evaluated
        split at evaluated
        case isTrue addressable =>
          cases Except.ok.inj evaluated
          exact ⟨rfl, addressable, rfl⟩
        case isFalse => cases evaluated
  · rintro ⟨common, addressable, equal⟩
    rw [evaluate_fakeQuantize limits enough rfl rfl rfl rfl rfl common, if_pos addressable, ← equal]

/-- A fake quantization has a value only with two levels at least. -/
theorem two_le_of_evaluate {levels : Nat} {integral : Bool} {inputs : List (NDArray α)}
    {feed : Option (NDArray α)} {value : NDArray α}
    (evaluated : (fakeQuantize levels).evaluate integral inputs feed = .ok value) : 2 ≤ levels := by
  by_contra few
  simp only [evaluate] at evaluated
  obtain ⟨data, _, evaluated⟩ := Outcome.bind_eq_ok.mp evaluated
  obtain ⟨inputLow, _, evaluated⟩ := Outcome.bind_eq_ok.mp evaluated
  obtain ⟨inputHigh, _, evaluated⟩ := Outcome.bind_eq_ok.mp evaluated
  obtain ⟨outputLow, _, evaluated⟩ := Outcome.bind_eq_ok.mp evaluated
  obtain ⟨outputHigh, _, evaluated⟩ := Outcome.bind_eq_ok.mp evaluated
  rw [if_pos (Nat.lt_of_not_le few)] at evaluated
  cases evaluated

theorem evaluate_matMul {left right product : NDArray α} (isLeft : inputs[0]? = some left)
    (isRight : inputs[1]? = some right) (rank : left.shape.length = 2)
    (isProduct : left.matMul? right = some product) :
    matMul.evaluate integral inputs feed = .ok product := by
  simp only [evaluate, isLeft, isRight]
  simp only [bind, Except.bind, rank, ne_eq, not_true_eq_false, if_false, isProduct]
  rfl

theorem evaluate_maxPool {kernel : Kernel} {data pooled : NDArray α}
    (isData : inputs[0]? = some data)
    (isPooled : data.pool? kernel.height kernel.width Scalar.largest = some pooled) :
    (maxPool kernel).evaluate integral inputs feed = .ok pooled := by
  simp only [evaluate, isData]
  simp only [bind, Except.bind, isPooled]
  rfl

theorem evaluate_avgPool {kernel : Kernel} {data pooled : NDArray α}
    (isData : inputs[0]? = some data)
    (isPooled : data.pool? kernel.height kernel.width NDArray.mean = some pooled) :
    (avgPool kernel).evaluate integral inputs feed = .ok pooled := by
  simp only [evaluate, isData]
  simp only [bind, Except.bind, isPooled]
  rfl

theorem evaluate_reshape {shape : Shape} {data reshaped : NDArray α}
    (isData : inputs[0]? = some data) (isReshaped : data.reshape? shape = some reshaped) :
    (reshape shape).evaluate integral inputs feed = .ok reshaped := by
  simp only [evaluate, isData]
  simp only [bind, Except.bind, isReshaped]
  rfl

theorem evaluate_squeeze (axes : List Nat) {data : NDArray α} (isData : inputs[0]? = some data) :
    (squeeze axes).evaluate integral inputs feed =
      .ok ((StableSort.sortBy id axes).foldr (fun axis data => data.dropAxis axis) data) := by
  simp only [evaluate, isData]
  rfl

theorem evaluate_unsqueeze (axes : List Nat) {data : NDArray α} (isData : inputs[0]? = some data) :
    (unsqueeze axes).evaluate integral inputs feed =
      .ok ((StableSort.sortBy id axes).foldl NDArray.insertAxis data) := by
  simp only [evaluate, isData]
  rfl

theorem evaluate_transpose (order : List Nat) {data : NDArray α}
    (isData : inputs[0]? = some data) :
    (transpose order).evaluate integral inputs feed = .ok (data.permute order) := by
  simp only [evaluate, isData]
  rfl

end Values

/-! ## Shapes -/

section Shapes

theorem exists_reshape {data : NDArray α} {shape : Shape}
    (sizes : Shape.kept data.shape.size = Shape.kept shape.size)
    (dataAddressable : data.shape.IsAddressable) (addressable : shape.IsAddressable) :
    ∃ value, data.reshape? shape = some value ∧ value.shape = shape := by
  have equal := dataAddressable.size_eq addressable sizes
  unfold NDArray.reshape?
  rw [dif_pos equal, if_pos addressable]
  exact ⟨_, rfl, rfl⟩

/-- Limits that stretch to the data leave its shape as it is. -/
theorem commonShape_eq {limits : LimitArrays α} {data : Shape}
    (stretch : ∀ limit ∈ limits.toList, limit.shape.StretchesTo data) :
    limits.commonShape data = .ok data := by
  unfold LimitArrays.commonShape
  generalize limits.toList = arrays at stretch
  induction arrays with
  | nil => rfl
  | cons limit rest induction =>
      have stretches : data.broadcast limit.shape = some data :=
        (Shape.broadcast_comm data limit.shape).trans (stretch limit List.mem_cons_self)
      rw [List.foldlM_cons, stretches]
      exact induction fun other member => stretch other (List.mem_cons_of_mem limit member)

variable [Scalar α] {op : Op α} {type : ValueType} {integral : Bool} {feed : Option (NDArray α)}

theorem exists_combine (binary : BinaryOp) {left right : NDArray α} {shape : Shape}
    (broadcast : left.shape.broadcast right.shape = some shape) (addressable : shape.IsAddressable) :
    ∃ value, NDArray.combine binary left right = .ok value ∧ value.shape = shape := by
  refine ⟨.ofFn shape fun index => binary.apply (left.get (left.shape.stretchedIndex index))
    (right.get (right.shape.stretchedIndex index)), ?_, rfl⟩
  unfold NDArray.combine NDArray.zipWith?
  rw [broadcast]
  exact if_pos addressable

theorem exists_matMul {left right : NDArray α} {shape : Shape}
    (product : Shape.multiplied left.shape right.shape = .ok shape)
    (leftRank : left.shape.length = 2) (rightRank : right.shape.length = 2) :
    ∃ value, left.matMul? right = some value ∧ value.shape = shape := by
  obtain ⟨rows, inner, leftShape⟩ := List.length_eq_two.mp leftRank
  obtain ⟨inner', columns, rightShape⟩ := List.length_eq_two.mp rightRank
  rw [leftShape, rightShape] at product
  by_cases equal : inner = inner'
  · have shape_eq : [rows, columns] = shape := by simpa [Shape.multiplied, equal] using product
    unfold NDArray.matMul?
    rw [leftShape, rightShape]
    dsimp only
    rw [if_pos equal]
    exact ⟨_, rfl, shape_eq⟩
  · simp [Shape.multiplied, equal] at product

theorem exists_pool {kernel : Kernel} {kind : OpKind} {data : NDArray α} {shape : Shape}
    (pooled : Shape.pooled kind kernel data.shape = .ok shape) (reduce : List α → α) :
    ∃ value, data.pool? kernel.height kernel.width reduce = some value ∧ value.shape = shape := by
  unfold Shape.pooled at pooled
  split at pooled
  case h_1 batches channels rows columns equal =>
    split at pooled
    case isTrue => cases pooled
    case isFalse =>
      cases Except.ok.inj pooled
      unfold NDArray.pool?
      rw [equal]
      exact ⟨_, rfl, rfl⟩
  case h_2 => cases pooled

theorem exists_elementwise (binary : BinaryOp)
    (inferred : (elementwise binary : Op α).infer types = .ok type) (fits : Fits types inputs)
    (addressable : type.shape.IsAddressable) :
    ∃ value, (elementwise binary).evaluate integral inputs feed = .ok value ∧
      value.shape = type.shape := by
  obtain ⟨left, right, isLeft, isRight, broadcast⟩ := broadcast_of_infer binary inferred
  obtain ⟨leftInput, leftFound, leftShape⟩ := fits.getElem? isLeft
  obtain ⟨rightInput, rightFound, rightShape⟩ := fits.getElem? isRight
  rw [← leftShape, ← rightShape] at broadcast
  obtain ⟨value, combined, shape⟩ := exists_combine binary broadcast addressable
  exact ⟨value, by rw [evaluate_elementwise binary leftFound rightFound, combined]; rfl, shape⟩

theorem exists_fakeQuantize {levels : Nat} (inferred : (fakeQuantize levels : Op α).infer types = .ok type)
    (fits : Fits types inputs)
    (accepts : (fakeQuantize levels : Op α).Accepts (types.map ValueType.shape))
    (addressable : type.shape.IsAddressable) :
    ∃ value, (fakeQuantize levels).evaluate integral inputs feed = .ok value ∧
      value.shape = type.shape := by
  unfold infer at inferred
  dsimp only at inferred
  split at inferred
  case isTrue => cases inferred
  case isFalse five =>
    have five := Decidable.not_not.mp five
    have length_eq : inputs.length = types.length := by
      simpa using congrArg List.length fits
    match types, inputs, five, length_eq.trans five with
    | [dataType, _, _, _, _], [data, inputLow, inputHigh, outputLow, outputHigh], _, _ =>
        cases Except.ok.inj inferred
        let limits : LimitArrays α := ⟨inputLow, inputHigh, outputLow, outputHigh⟩
        obtain ⟨data_shape, limit_shapes⟩ := List.cons.inj fits
        have stretch : ∀ limit ∈ limits.toList, limit.shape.StretchesTo data.shape := by
          intro limit member
          have listed : limit.shape ∈ limits.toList.map NDArray.shape := List.mem_map_of_mem member
          change limit.shape ∈ List.map NDArray.shape [inputLow, inputHigh, outputLow, outputHigh] at listed
          rw [limit_shapes] at listed
          rw [data_shape]
          exact accepts.2 limit.shape listed
        refine ⟨limits.quantize levels integral data data.shape, ?_, data_shape⟩
        rw [evaluate_fakeQuantize limits accepts.1 rfl rfl rfl rfl rfl (commonShape_eq stretch)]
        exact if_pos (data_shape ▸ addressable)

theorem exists_concat {axis : Nat} (inferred : (concat axis : Op α).infer types = .ok type)
    (fits : Fits types inputs) (accepts : (concat axis : Op α).Accepts (types.map ValueType.shape))
    (addressable : type.shape.IsAddressable) :
    ∃ value, (concat axis).evaluate integral inputs feed = .ok value ∧
      value.shape = type.shape := by
  obtain ⟨first, read, inferred⟩ := Outcome.bind_eq_ok.mp inferred
  obtain ⟨shape, joined, inferred⟩ := Outcome.bind_eq_ok.mp inferred
  cases Except.ok.inj inferred
  have present := getElem?_of_read read
  match types, inputs, fits with
  | [], _, _ => cases present
  | _ :: others, [], fits => cases fits
  | firstType :: others, firstInput :: rest, fits =>
      cases Option.some.inj present
      obtain ⟨first_shape, rest_shapes⟩ := List.cons.inj fits
      have bound : ((firstInput :: rest).map fun array => array.extent axis).sum <
          18446744073709551616 := by
        have extents : ((firstInput :: rest).map fun array => array.extent axis) =
            ((firstInput :: rest).map NDArray.shape).map fun shape => shape.getD axis 0 := by
          rw [List.map_map]
          rfl
        rw [extents, fits]
        exact accepts
      rw [List.drop_one, List.tail_cons, ← rest_shapes, ← first_shape] at joined
      obtain ⟨value, concatenated, value_shape⟩ :=
        NDArray.exists_concatenate joined bound addressable
      exact ⟨value, by simp only [evaluate, concatenated]; rfl, value_shape⟩

theorem exists_evaluate (notParameter : op.kind ≠ .parameter) (inferred : op.infer types = .ok type)
    (fits : Fits types inputs) (accepts : op.Accepts (types.map ValueType.shape))
    (addressable : type.shape.IsAddressable)
    (inputsAddressable : ∀ input ∈ types, input.shape.IsAddressable) :
    ∃ value, op.evaluate integral inputs feed = .ok value ∧ value.shape = type.shape := by
  cases op with
  | parameter => exact absurd rfl notParameter
  | constant tensor =>
      cases Except.ok.inj inferred
      exact ⟨tensor.values, rfl, rfl⟩
  | result =>
      obtain ⟨_, input, isInput, shape⟩ := fits.read inferred
      exact ⟨input, by simp only [evaluate, isInput], shape⟩
  | relu =>
      obtain ⟨_, input, isInput, shape⟩ := fits.read inferred
      exact ⟨_, evaluate_relu isInput, shape⟩
  | convert destination =>
      obtain ⟨data, read, inferred⟩ := Outcome.bind_eq_ok.mp inferred
      cases Except.ok.inj inferred
      obtain ⟨_, input, isInput, shape⟩ := fits.read read
      exact ⟨_, evaluate_convert destination isInput, shape⟩
  | add => exact exists_elementwise .add inferred fits addressable
  | subtract => exact exists_elementwise .subtract inferred fits addressable
  | multiply => exact exists_elementwise .multiply inferred fits addressable
  | divide => exact exists_elementwise .divide inferred fits addressable
  | fakeQuantize levels => exact exists_fakeQuantize inferred fits accepts addressable
  | concat axis => exact exists_concat inferred fits accepts addressable
  | convolution => exact absurd accepts id
  | groupConvolution => exact absurd accepts id
  | interpolate => exact absurd accepts id
  | matMul =>
      obtain ⟨left, readLeft, inferred⟩ := Outcome.bind_eq_ok.mp inferred
      obtain ⟨right, readRight, inferred⟩ := Outcome.bind_eq_ok.mp inferred
      obtain ⟨shape, multiplied, inferred⟩ := Outcome.bind_eq_ok.mp inferred
      cases Except.ok.inj inferred
      obtain ⟨leftPresent, leftInput, isLeft, leftShape⟩ := fits.read readLeft
      obtain ⟨rightPresent, rightInput, isRight, rightShape⟩ := fits.read readRight
      have operand {position : Nat} {operand : ValueType} (present : types[position]? = some operand)
          (bound : position < 2) : operand.shape.length = 2 := by
        refine accepts operand.shape (List.mem_of_getElem? (i := position) ?_)
        rw [List.getElem?_take_of_lt bound, List.getElem?_map, present, Option.map_some]
      have leftRank := leftShape ▸ operand leftPresent (by omega)
      have rightRank := rightShape ▸ operand rightPresent (by omega)
      rw [← leftShape, ← rightShape] at multiplied
      obtain ⟨value, product, value_shape⟩ := exists_matMul multiplied leftRank rightRank
      exact ⟨value, evaluate_matMul isLeft isRight leftRank product, value_shape⟩
  | maxPool kernel =>
      obtain ⟨data, read, inferred⟩ := Outcome.bind_eq_ok.mp inferred
      obtain ⟨shape, pooled, inferred⟩ := Outcome.bind_eq_ok.mp inferred
      cases Except.ok.inj inferred
      obtain ⟨_, input, isInput, shape_eq⟩ := fits.read read
      obtain ⟨value, found, value_shape⟩ := exists_pool (shape_eq ▸ pooled) Scalar.largest
      exact ⟨value, evaluate_maxPool isInput found, value_shape⟩
  | avgPool kernel =>
      obtain ⟨data, read, inferred⟩ := Outcome.bind_eq_ok.mp inferred
      obtain ⟨shape, pooled, inferred⟩ := Outcome.bind_eq_ok.mp inferred
      cases Except.ok.inj inferred
      obtain ⟨_, input, isInput, shape_eq⟩ := fits.read read
      obtain ⟨value, found, value_shape⟩ := exists_pool (shape_eq ▸ pooled) NDArray.mean
      exact ⟨value, evaluate_avgPool isInput found, value_shape⟩
  | reshape shape =>
      obtain ⟨data, read, inferred⟩ := Outcome.bind_eq_ok.mp inferred
      obtain ⟨present, input, isInput, shape_eq⟩ := fits.read read
      split at inferred
      case isTrue sizes =>
        cases Except.ok.inj inferred
        obtain ⟨value, reshaped, value_shape⟩ := exists_reshape (shape_eq ▸ sizes)
          (shape_eq ▸ inputsAddressable data (List.mem_of_getElem? present)) addressable
        exact ⟨value, evaluate_reshape isInput reshaped, value_shape⟩
      case isFalse => cases inferred
  | squeeze axes =>
      obtain ⟨data, read, inferred⟩ := Outcome.bind_eq_ok.mp inferred
      obtain ⟨shape, squeezed, inferred⟩ := Outcome.bind_eq_ok.mp inferred
      cases Except.ok.inj inferred
      obtain ⟨_, input, isInput, shape_eq⟩ := fits.read read
      refine ⟨_, evaluate_squeeze axes isInput, ?_⟩
      rw [NDArray.shape_foldr_dropAxis, shape_eq]
      exact Shape.squeezed_eq_ok accepts squeezed
  | unsqueeze axes =>
      obtain ⟨data, read, inferred⟩ := Outcome.bind_eq_ok.mp inferred
      obtain ⟨shape, unsqueezed, inferred⟩ := Outcome.bind_eq_ok.mp inferred
      cases Except.ok.inj inferred
      obtain ⟨_, input, isInput, shape_eq⟩ := fits.read read
      refine ⟨_, evaluate_unsqueeze axes isInput, ?_⟩
      exact NDArray.shape_foldl_insertAxis (shape_eq ▸ unsqueezed)
  | transpose order =>
      obtain ⟨data, read, inferred⟩ := Outcome.bind_eq_ok.mp inferred
      obtain ⟨shape, transposed, inferred⟩ := Outcome.bind_eq_ok.mp inferred
      cases Except.ok.inj inferred
      obtain ⟨_, input, isInput, shape_eq⟩ := fits.read read
      refine ⟨_, evaluate_transpose order isInput, ?_⟩
      rw [NDArray.shape_permute, shape_eq]
      exact (Shape.transposed_eq_ok transposed).symm

end Shapes

end Op

end QuantGraph
