import Mathlib
import QuantGraph.Proofs.Evaluation.Inference
import QuantGraph.Proofs.NDArray.Layout
import QuantGraph.Proofs.NDArray.Reduction

/-! Operations that may be applied before one of their inputs is dequantized as well as after. What
is asked of the constants differs from one operation to the next. -/

namespace QuantGraph

namespace Op

section Shapes

variable {data left right : Shape} {rest : List Shape}

theorem map_shape_of_bind (outcome : Except InferenceError Shape) (type : ValueType) :
    (outcome >>= fun shape => Except.ok { type with shape := shape }).map ValueType.shape =
      outcome := by
  cases outcome <;> rfl

theorem inferShape_squeeze (axes : List Nat) :
    (squeeze axes : Op α).inferShape (data :: rest) = Shape.squeezed axes data :=
  map_shape_of_bind _ (plainType data)

theorem inferShape_transpose (order : List Nat) :
    (transpose order : Op α).inferShape (data :: rest) = Shape.transposed order data :=
  map_shape_of_bind _ (plainType data)

theorem inferShape_matMul :
    (matMul : Op α).inferShape (left :: right :: rest) = Shape.multiplied left right :=
  map_shape_of_bind _ (plainType left)

theorem inferShape_maxPool (kernel : Kernel) :
    (maxPool kernel : Op α).inferShape (data :: rest) = Shape.pooled .maxPool kernel data :=
  map_shape_of_bind _ (plainType data)

theorem inferShape_avgPool (kernel : Kernel) :
    (avgPool kernel : Op α).inferShape (data :: rest) = Shape.pooled .avgPool kernel data :=
  map_shape_of_bind _ (plainType data)

end Shapes

section Evaluation

variable [Scalar α] {op : Op α} {integral : Bool} {feed : Option (NDArray α)}
  {shift : Option (NDArray α)} {scale value : NDArray α}

/-- Applied to an input that has been dequantized, an operation gives what dequantizing its result
on the data gives. The operation has to accept the shape of the data. -/
def CommutesWith (op : Op α) (slot : Nat) (shift : Option (NDArray α)) (scale : NDArray α) : Prop :=
  ∀ (inputs : List (NDArray α)) (data dequantized value : NDArray α) (shape : Shape)
    (integral : Bool) (feed : Option (NDArray α)),
    inputs[slot]? = some dequantized → data.dequantize shift scale = .ok dequantized →
    op.inferShape ((inputs.set slot data).map NDArray.shape) = .ok shape →
    op.evaluate integral inputs feed = .ok value → value.shape.IsAddressable →
    ∃ moved, (∀ integral feed, op.evaluate integral (inputs.set slot data) feed = .ok moved) ∧
      moved.dequantize shift scale = .ok value

/-- The operations that move elements without changing them. -/
def layouts : List OpKind := [.reshape, .squeeze, .transpose, .unsqueeze]

/-- Elements are moved before each of them changes as well as after. -/
theorem exists_evaluate_of_map {transform : α → α} {data : NDArray α} {rest : List (NDArray α)}
    {shape : Shape} (layout : op.kind ∈ layouts)
    (distinct : ∀ axes, op = .squeeze axes → axes.Nodup)
    (accepted : op.inferShape (data.shape :: rest.map NDArray.shape) = .ok shape)
    (evaluated : op.evaluate integral (data.map transform :: rest) feed = .ok value) :
    ∃ moved, (∀ integral feed, op.evaluate integral (data :: rest) feed = .ok moved) ∧
      value = moved.map transform := by
  cases op with
  | reshape target =>
      cases found : data.reshape? target with
      | none =>
          have missing : (data.map transform).reshape? target = none := by
            rw [NDArray.reshape?_map, found, Option.map_none]
          simp [evaluate, missing, bind, Except.bind, throw, throwThe, MonadExceptOf.throw]
            at evaluated
      | some moved =>
          refine ⟨moved, fun _ _ => evaluate_reshape rfl found, ?_⟩
          rw [evaluate_reshape rfl (by rw [NDArray.reshape?_map, found, Option.map_some])]
            at evaluated
          exact (Except.ok.inj evaluated).symm
  | squeeze axes =>
      rw [inferShape_squeeze] at accepted
      rw [evaluate_squeeze axes rfl, NDArray.foldr_dropAxis_map
        (StableSort.pairwise_lt_sortBy (distinct axes rfl)) fun axis member =>
          Shape.squeezed_extents accepted axis (StableSort.mem_sortBy.mp member)] at evaluated
      exact ⟨_, fun _ _ => evaluate_squeeze axes rfl, (Except.ok.inj evaluated).symm⟩
  | unsqueeze axes =>
      rw [evaluate_unsqueeze axes rfl, NDArray.foldl_insertAxis_map] at evaluated
      exact ⟨_, fun _ _ => evaluate_unsqueeze axes rfl, (Except.ok.inj evaluated).symm⟩
  | transpose order =>
      rw [inferShape_transpose] at accepted
      rw [evaluate_transpose order rfl,
        NDArray.permute_map (Shape.isAxisOrder_of_transposed accepted)] at evaluated
      exact ⟨_, fun _ _ => evaluate_transpose order rfl, (Except.ok.inj evaluated).symm⟩
  | _ => simp [layouts, kind] at layout

omit [Scalar α] in
theorem exists_cons_of_getElem? {inputs : List (NDArray α)} {first : NDArray α}
    (found : inputs[0]? = some first) : ∃ rest, inputs = first :: rest := by
  cases inputs with
  | nil => cases found
  | cons other rest => exact ⟨rest, congrArg (· :: rest) (Option.some.inj found)⟩

theorem commutesWith_of_layout (layout : op.kind ∈ layouts)
    (distinct : ∀ axes, op = .squeeze axes → axes.Nodup)
    (noShiftAxes : ∀ constant ∈ shift, constant.shape = []) (noScaleAxes : scale.shape = []) :
    op.CommutesWith 0 shift scale := by
  intro inputs data dequantized value shape integral feed read isDequantized accepted evaluated
    addressable
  obtain ⟨transform, changes⟩ := NDArray.exists_dequantize_eq_ok_iff noShiftAxes noScaleAxes
  obtain ⟨rest, rfl⟩ := exists_cons_of_getElem? read
  obtain ⟨_, rfl⟩ := (changes data dequantized).mp isDequantized
  obtain ⟨moved, isMoved, rfl⟩ := exists_evaluate_of_map layout distinct accepted evaluated
  exact ⟨moved, isMoved, (changes moved _).mpr ⟨addressable, rfl⟩⟩

/-! ## What operations with a value have computed -/

theorem pool?_of_evaluate_maxPool {kernel : Kernel} {data : NDArray α} {rest : List (NDArray α)}
    (evaluated : (maxPool kernel).evaluate integral (data :: rest) feed = .ok value) :
    data.pool? kernel.height kernel.width Scalar.largest = some value := by
  cases found : data.pool? kernel.height kernel.width Scalar.largest with
  | none =>
      simp [evaluate, found, bind, Except.bind, throw, throwThe, MonadExceptOf.throw] at evaluated
  | some pooled =>
      rw [evaluate_maxPool rfl found] at evaluated
      exact congrArg some (Except.ok.inj evaluated)

theorem pool?_of_evaluate_avgPool {kernel : Kernel} {data : NDArray α} {rest : List (NDArray α)}
    (evaluated : (avgPool kernel).evaluate integral (data :: rest) feed = .ok value) :
    data.pool? kernel.height kernel.width NDArray.mean = some value := by
  cases found : data.pool? kernel.height kernel.width NDArray.mean with
  | none =>
      simp [evaluate, found, bind, Except.bind, throw, throwThe, MonadExceptOf.throw] at evaluated
  | some pooled =>
      rw [evaluate_avgPool rfl found] at evaluated
      exact congrArg some (Except.ok.inj evaluated)

theorem matMul?_of_evaluate {inputs : List (NDArray α)}
    (evaluated : matMul.evaluate integral inputs feed = .ok value) :
    ∃ left right rest, inputs = left :: right :: rest ∧ left.matMul? right = some value := by
  match inputs with
  | [] => cases evaluated
  | [left] =>
      simp only [evaluate, List.getElem?_cons_zero, bind, Except.bind] at evaluated
      split at evaluated <;> cases evaluated
  | left :: right :: rest =>
      refine ⟨left, right, rest, rfl, ?_⟩
      simp only [evaluate, List.getElem?_cons_zero, List.getElem?_cons_succ, bind, Except.bind]
        at evaluated
      split at evaluated
      case isTrue => cases evaluated
      case isFalse =>
        cases found : left.matMul? right with
        | none => rw [found] at evaluated; cases evaluated
        | some product =>
            rw [found] at evaluated
            exact congrArg some (Except.ok.inj evaluated)

end Evaluation

end Op

namespace NDArray

/-- All numbers of an array are greater than zero. -/
def IsPositive (array : NDArray Rat) : Prop := ∀ number ∈ array.toList, 0 < number

/-- There is one number, under at most two axes. -/
def IsSingle (array : NDArray α) : Prop := array.shape.size = 1 ∧ array.shape.length ≤ 2

instance (array : NDArray α) : Decidable array.IsSingle :=
  inferInstanceAs (Decidable (_ ∧ _))

end NDArray

namespace Op

/-! ## Exact arithmetic -/

section Exact

variable {kernel : Kernel} {shift : Option (NDArray Rat)} {scale : NDArray Rat}

theorem larger_mul {number : Rat} (positive : 0 < number) (value : Rat) :
    Scalar.larger (value * number) 0 = Scalar.larger value 0 * number := by
  change (if value * number < 0 then 0 else value * number) =
    (if value < 0 then 0 else value) * number
  rw [ite_mul, zero_mul]
  exact if_congr (by rw [mul_neg_iff]; simp [positive, positive.not_gt]) rfl rfl

theorem commutesWith_relu (positive : scale.IsPositive) :
    (relu : Op Rat).CommutesWith 0 none scale := by
  intro inputs data dequantized value shape integral feed read isDequantized _ evaluated _
  obtain ⟨rest, rfl⟩ := exists_cons_of_getElem? read
  rw [evaluate_relu rfl] at evaluated
  cases evaluated
  obtain ⟨_, isShifted, isScaled⟩ := NDArray.dequantize_eq_ok.mp isDequantized
  cases isShifted
  exact ⟨_, fun _ _ => evaluate_relu rfl, NDArray.dequantize_eq_ok.mpr ⟨_, rfl,
    NDArray.combine_map (fun number member value => larger_mul (positive number member) value)
      isScaled⟩⟩

theorem length_eq_four_of_pooled {kind : OpKind} {data shape : Shape}
    (found : Shape.pooled kind kernel data = .ok shape) : data.length = 4 := by
  unfold Shape.pooled at found
  split at found
  · rfl
  · cases found

theorem commutesWith_maxPool (shiftPerChannel : ∀ constant ∈ shift, constant.shape.IsPerChannel)
    (scalePerChannel : scale.shape.IsPerChannel) (positive : scale.IsPositive) :
    (maxPool kernel : Op Rat).CommutesWith 0 shift scale := by
  intro inputs data dequantized value shape integral feed read isDequantized accepted evaluated
    addressable
  obtain ⟨rest, rfl⟩ := exists_cons_of_getElem? read
  have rank : data.shape.length = 4 :=
    length_eq_four_of_pooled ((inferShape_maxPool kernel).symm.trans accepted)
  obtain ⟨moved, isMoved, isValue⟩ := NDArray.exists_pool_of_dequantize shiftPerChannel
    scalePerChannel rank
    (fun constant _ number _ => NDArray.keepsPace_largest fun _ _ le => sub_le_sub_right le number)
    (fun number member => NDArray.keepsPace_largest fun _ _ le =>
      mul_le_mul_of_nonneg_right le (positive number member).le)
    isDequantized (pool?_of_evaluate_maxPool evaluated) addressable
  exact ⟨moved, fun _ _ => evaluate_maxPool rfl isMoved, isValue⟩

theorem commutesWith_avgPool (shiftPerChannel : ∀ constant ∈ shift, constant.shape.IsPerChannel)
    (scalePerChannel : scale.shape.IsPerChannel) :
    (avgPool kernel : Op Rat).CommutesWith 0 shift scale := by
  intro inputs data dequantized value shape integral feed read isDequantized accepted evaluated
    addressable
  obtain ⟨rest, rfl⟩ := exists_cons_of_getElem? read
  have rank : data.shape.length = 4 :=
    length_eq_four_of_pooled ((inferShape_avgPool kernel).symm.trans accepted)
  obtain ⟨moved, isMoved, isValue⟩ := NDArray.exists_pool_of_dequantize shiftPerChannel
    scalePerChannel rank (fun _ _ number _ => NDArray.keepsPace_mean_subtract number)
    (fun number _ => NDArray.keepsPace_mean_multiply number) isDequantized
    (pool?_of_evaluate_avgPool evaluated) addressable
  exact ⟨moved, fun _ _ => evaluate_avgPool rfl isMoved, isValue⟩

theorem two_le_of_multiplied {left right shape : Shape}
    (found : Shape.multiplied left right = .ok shape) : 2 ≤ left.length ∧ 2 ≤ right.length := by
  unfold Shape.multiplied at found
  split at found
  case h_1 inner rows outer columns inner' rest leftReversed rightReversed =>
    have leftLength := congrArg List.length leftReversed
    have rightLength := congrArg List.length rightReversed
    simp only [List.length_reverse, List.length_cons] at leftLength rightLength
    omega
  case h_2 => cases found

theorem commutesWith_matMul_left (single : scale.IsSingle) :
    (matMul : Op Rat).CommutesWith 0 none scale := by
  intro inputs data dequantized value shape integral feed read isDequantized accepted evaluated
    addressable
  obtain ⟨left, right, rest, rfl, isProduct⟩ := matMul?_of_evaluate evaluated
  cases Option.some.inj read
  obtain ⟨least, _⟩ := two_le_of_multiplied (inferShape_matMul.symm.trans accepted)
  obtain ⟨_, rfl⟩ :=
    (NDArray.dequantize_single_eq_ok single.1 (single.2.trans least)).mp isDequantized
  obtain ⟨_, _, _, isLeft, _⟩ := NDArray.matMul?_eq_some.mp isProduct
  obtain ⟨moved, isMoved, rfl⟩ := NDArray.exists_matMul_of_map_left isProduct
  obtain ⟨_, _, _, _, _, moved_eq⟩ := NDArray.matMul?_eq_some.mp isMoved
  refine ⟨moved, fun _ _ => evaluate_matMul rfl rfl (congrArg List.length isLeft) isMoved, ?_⟩
  refine (NDArray.dequantize_single_eq_ok single.1 ?_).mpr ⟨addressable, rfl⟩
  rw [moved_eq]
  exact single.2

theorem commutesWith_matMul_right (single : scale.IsSingle) :
    (matMul : Op Rat).CommutesWith 1 none scale := by
  intro inputs data dequantized value shape integral feed read isDequantized accepted evaluated
    addressable
  obtain ⟨left, right, rest, rfl, isProduct⟩ := matMul?_of_evaluate evaluated
  cases Option.some.inj read
  obtain ⟨_, least⟩ := two_le_of_multiplied (inferShape_matMul.symm.trans accepted)
  obtain ⟨_, rfl⟩ :=
    (NDArray.dequantize_single_eq_ok single.1 (single.2.trans least)).mp isDequantized
  obtain ⟨_, _, _, isLeft, _⟩ := NDArray.matMul?_eq_some.mp isProduct
  obtain ⟨moved, isMoved, rfl⟩ := NDArray.exists_matMul_of_map_right isProduct
  obtain ⟨_, _, _, _, _, moved_eq⟩ := NDArray.matMul?_eq_some.mp isMoved
  refine ⟨moved, fun _ _ => evaluate_matMul rfl rfl (congrArg List.length isLeft) isMoved, ?_⟩
  refine (NDArray.dequantize_single_eq_ok single.1 ?_).mpr ⟨addressable, rfl⟩
  rw [moved_eq]
  exact single.2

end Exact

end Op

end QuantGraph
