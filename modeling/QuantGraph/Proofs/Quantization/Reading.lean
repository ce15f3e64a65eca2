import QuantGraph.Dequantization
import QuantGraph.FakeQuantize
import QuantGraph.Proofs.NDArray.Reading

/-! Fake quantization and the dequantization for it, read at one position. The shape of the
image is the least to which data and limits stretch; at every position the limits that are
read there apply. -/

namespace QuantGraph

namespace LimitArrays

theorem foldlM_broadcast_eq_ok {arrays : List (NDArray α)} {start shape : Shape} :
    arrays.foldlM (fun shape limit =>
        match shape.broadcast limit.shape with
        | some shape => Except.ok shape
        | none => .error limit.shape) start = .ok shape ↔
      start.StretchesTo shape ∧ (∀ limit ∈ arrays, limit.shape.StretchesTo shape) ∧
        ∀ other : Shape, start.StretchesTo other →
          (∀ limit ∈ arrays, limit.shape.StretchesTo other) → shape.StretchesTo other := by
  induction arrays generalizing start with
  | nil =>
      constructor
      · intro equal
        cases Except.ok.inj equal
        exact ⟨Shape.stretchesTo_refl _, by simp, fun _ stretches _ => stretches⟩
      · rintro ⟨forth, _, least⟩
        exact congrArg Except.ok
          (forth.antisymm (least start (Shape.stretchesTo_refl start) (by simp)))
  | cons limit rest induction =>
      rw [List.foldlM_cons, Outcome.bind_eq_ok]
      constructor
      · rintro ⟨middle, step, folded⟩
        have common : start.broadcast limit.shape = some middle := by
          split at step
          case h_1 found => exact found.trans (congrArg some (Except.ok.inj step))
          case h_2 => cases step
        obtain ⟨fromStart, fromLimit, smallest⟩ := Shape.broadcast_eq_some_iff.mp common
        obtain ⟨fromMiddle, fromRest, least⟩ := induction.mp folded
        refine ⟨fromStart.trans fromMiddle,
          List.forall_mem_cons.mpr ⟨fromLimit.trans fromMiddle, fromRest⟩, ?_⟩
        intro other startOther limitsOther
        obtain ⟨limitOther, restOther⟩ := List.forall_mem_cons.mp limitsOther
        exact least other (smallest other startOther limitOther) restOther
      · rintro ⟨fromStart, fromLimits, least⟩
        obtain ⟨fromLimit, fromRest⟩ := List.forall_mem_cons.mp fromLimits
        obtain ⟨middle, common⟩ := Shape.exists_broadcast fromStart fromLimit
        obtain ⟨startMiddle, limitMiddle, smallest⟩ := Shape.broadcast_eq_some_iff.mp common
        refine ⟨middle, by rw [common], induction.mpr
          ⟨smallest shape fromStart fromLimit, fromRest, ?_⟩⟩
        intro other middleOther restOther
        exact least other (startMiddle.trans middleOther)
          (List.forall_mem_cons.mpr ⟨limitMiddle.trans middleOther, restOther⟩)

theorem forall_mem_toList {limits : LimitArrays α} {property : NDArray α → Prop} :
    (∀ limit ∈ limits.toList, property limit) ↔ property limits.inputLow ∧
      property limits.inputHigh ∧ property limits.outputLow ∧ property limits.outputHigh := by
  simp [toList]

/-- The common shape of data and limits is the least to which all of them stretch. -/
theorem commonShape_eq_ok {limits : LimitArrays α} {data shape : Shape} :
    limits.commonShape data = .ok shape ↔
      data.StretchesTo shape ∧ (∀ limit ∈ limits.toList, limit.shape.StretchesTo shape) ∧
        ∀ other : Shape, data.StretchesTo other →
          (∀ limit ∈ limits.toList, limit.shape.StretchesTo other) → shape.StretchesTo other :=
  foldlM_broadcast_eq_ok

/-- Data and limits that stretch to one shape have a common shape. -/
theorem exists_commonShape {limits : LimitArrays α} {data target : Shape}
    (dataStretches : data.StretchesTo target)
    (limitsStretch : ∀ limit ∈ limits.toList, limit.shape.StretchesTo target) :
    ∃ shape, limits.commonShape data = .ok shape := by
  unfold commonShape
  generalize limits.toList = arrays at limitsStretch
  induction arrays generalizing data with
  | nil => exact ⟨data, rfl⟩
  | cons limit rest induction =>
      obtain ⟨limitStretches, restStretch⟩ := List.forall_mem_cons.mp limitsStretch
      obtain ⟨middle, common⟩ := Shape.exists_broadcast dataStretches limitStretches
      obtain ⟨_, _, least⟩ := Shape.broadcast_eq_some_iff.mp common
      rw [List.foldlM_cons, common]
      exact induction (least target dataStretches limitStretches) restStretch

variable [Scalar α] {limits : LimitArrays α} {levels : Nat} {rounding : Bool} {data : NDArray α}
  {shape target : Shape} {index : Index}

/-- The limits that are read at a position of a shape to which all of them stretch. -/
def readInterval (limits : LimitArrays α) (index : Index) : Interval α where
  inputLow := limits.inputLow.read index
  inputHigh := limits.inputHigh.read index
  outputLow := limits.outputLow.read index
  outputHigh := limits.outputHigh.read index

theorem read_quantize (dataStretches : data.shape.StretchesTo shape)
    (limitsStretch : ∀ limit ∈ limits.toList, limit.shape.StretchesTo shape)
    (stretches : shape.StretchesTo target) (holds : target.Holds index) :
    (limits.quantize levels rounding data shape).read index =
      (limits.readInterval index).quantize levels rounding (data.read index) := by
  have inside := holds.stretchedIndex stretches
  have each (limit : NDArray α) (member : limit ∈ limits.toList) :
      limit.get (limit.shape.stretchedIndex (shape.stretchedIndex index)) = limit.read index :=
    NDArray.read_stretchedIndex (limitsStretch limit member) stretches holds
  have interval : limits.intervalAt (shape.stretchedIndex index) = limits.readInterval index := by
    rw [intervalAt, readInterval, Interval.mk.injEq]
    exact ⟨each _ (by simp [toList]), each _ (by simp [toList]), each _ (by simp [toList]),
      each _ (by simp [toList])⟩
  change (NDArray.ofFn shape _).get (shape.stretchedIndex index) = _
  rw [NDArray.get_ofFn inside, interval]
  exact congrArg _ (NDArray.read_stretchedIndex dataStretches stretches holds)

end LimitArrays

/-! ## The dequantization for an output interval -/

namespace Tensor

variable [Scalar α]

/-- A tensor has, at every position of every shape to which two others stretch, the value that
their values give there. -/
def Combines (left right : Tensor α) (value : α → α → α) (result : Tensor α) : Prop :=
  ∀ shape : Shape, left.shape.StretchesTo shape → right.shape.StretchesTo shape →
    result.shape.StretchesTo shape ∧ ∀ index, shape.Holds index →
      result.values.read index = value (left.values.read index) (right.values.read index)

variable {left right first second result : Tensor α} {value : α → α → α}

theorem combines_left : Combines left right (fun value _ => value) left :=
  fun _ stretches _ => ⟨stretches, fun _ _ => rfl⟩

theorem combines_right : Combines left right (fun _ value => value) right :=
  fun _ _ stretches => ⟨stretches, fun _ _ => rfl⟩

theorem combines_scalar (type : ElementType) (number : α) :
    Combines left right (fun _ _ => number) (.scalar type number) := fun shape _ _ =>
  ⟨Shape.nil_stretchesTo shape, fun index _ => NDArray.read_scalar number index⟩

theorem Combines.combine {op : BinaryOp} {value' : α → α → α}
    (one : Combines left right value first) (other : Combines left right value' second)
    (combined : Tensor.combine op first second = .ok result) :
    Combines left right (fun low high => op.apply (value low high) (value' low high)) result := by
  intro shape leftStretches rightStretches
  obtain ⟨array, paired, rfl⟩ := Outcome.map_eq_ok.mp combined
  obtain ⟨firstStretches, firstRead⟩ := one shape leftStretches rightStretches
  obtain ⟨secondStretches, secondRead⟩ := other shape leftStretches rightStretches
  obtain ⟨_, _, least⟩ :=
    Shape.broadcast_eq_some_iff.mp (NDArray.combine_eq_ok.mp paired).1
  have stretches := least shape firstStretches secondStretches
  refine ⟨stretches, fun index holds => ?_⟩
  change array.read index = _
  rw [NDArray.read_combine paired stretches holds, firstRead index holds, secondRead index holds]

theorem values_of_combine {op : BinaryOp}
    (combined : Tensor.combine op left right = .ok result) :
    NDArray.combine op left.values right.values = .ok result.values := by
  obtain ⟨array, paired, rfl⟩ := Outcome.map_eq_ok.mp combined
  exact paired

theorem stretchesTo_of_combine {op : BinaryOp} (combined : Tensor.combine op left right = .ok result) :
    left.shape.StretchesTo result.shape ∧ right.shape.StretchesTo result.shape := by
  obtain ⟨array, paired, rfl⟩ := Outcome.map_eq_ok.mp combined
  exact NDArray.stretchesTo_of_combine paired

end Tensor

namespace Dequantization

variable [Scalar α]

/-- Scale and shift lead from a range of integers back to the interval between two limits. -/
structure Restores (values : Dequantization α) (target : TargetRange α) (low high : Tensor α) :
    Prop where
  spans : low.shape.StretchesTo values.scale.shape ∧ high.shape.StretchesTo values.scale.shape
  scale : low.Combines high (fun low high => (high - low) / (target.max - target.min)) values.scale
  shift : ∀ shift, values.shift = some shift → low.Combines high
    (fun low high => (high * target.min - low * target.max) / (high - low)) shift
  dropped : values.shift = none → target.hasZeroPoint = true → ∃ shift : Tensor α,
    low.Combines high (fun low high => (high * target.min - low * target.max) / (high - low))
      shift ∧ shift.isNearZero = true

end Dequantization

namespace Graph

variable [Scalar α] {graph : Graph α} {id : NodeId} {node : Node α} {target : TargetRange α}
  {values : Dequantization α} {low high : Tensor α}

omit [Scalar α] in
theorem constantLimit_eq_ok {limit : LimitName} {tensor : Tensor α}
    (found : graph.constantLimit id limit = .ok tensor) : graph.limit? id limit = some tensor := by
  unfold constantLimit at found
  split at found
  case h_1 present => exact present.trans (congrArg some (Except.ok.inj found))
  case h_2 => cases found

theorem restoringDequantization_eq_ok (found : graph.node? id = some node)
    (isLow : graph.limit? id .outputLow = some low)
    (isHigh : graph.limit? id .outputHigh = some high)
    (restores : graph.restoringDequantization id target = .ok values) :
    values.restoredType = node.elementType ∧ values.Restores target low high := by
  unfold restoringDequantization at restores
  rw [found] at restores
  dsimp only at restores
  obtain ⟨low', isLow', restores⟩ := Outcome.bind_eq_ok.mp restores
  cases Option.some.inj (isLow.symm.trans (constantLimit_eq_ok isLow'))
  obtain ⟨high', isHigh', restores⟩ := Outcome.bind_eq_ok.mp restores
  cases Option.some.inj (isHigh.symm.trans (constantLimit_eq_ok isHigh'))
  obtain ⟨width, isWidth, restores⟩ := Outcome.bind_eq_ok.mp restores
  obtain ⟨scale, isScale, restores⟩ := Outcome.bind_eq_ok.mp restores
  have lower : low.Combines high (fun low _ => low) low := Tensor.combines_left
  have upper : low.Combines high (fun _ high => high) high := Tensor.combines_right
  have width_combines := upper.combine lower (Outcome.mapError_eq_ok.mp isWidth)
  have scale_combines := width_combines.combine (Tensor.combines_scalar _ _)
    (Outcome.mapError_eq_ok.mp isScale)
  have fromWidth := (Tensor.stretchesTo_of_combine (Outcome.mapError_eq_ok.mp isScale)).1
  have fromLimits := Tensor.stretchesTo_of_combine (Outcome.mapError_eq_ok.mp isWidth)
  have spans := And.intro (fromLimits.2.trans fromWidth) (fromLimits.1.trans fromWidth)
  split at restores
  case isTrue pointed =>
    obtain ⟨highPart, isHighPart, restores⟩ := Outcome.bind_eq_ok.mp restores
    obtain ⟨lowPart, isLowPart, restores⟩ := Outcome.bind_eq_ok.mp restores
    obtain ⟨difference, isDifference, restores⟩ := Outcome.bind_eq_ok.mp restores
    obtain ⟨shift, isShift, restores⟩ := Outcome.bind_eq_ok.mp restores
    cases Except.ok.inj restores
    have high_combines := upper.combine (Tensor.combines_scalar _ _)
      (Outcome.mapError_eq_ok.mp isHighPart)
    have low_combines := lower.combine (Tensor.combines_scalar _ _)
      (Outcome.mapError_eq_ok.mp isLowPart)
    have shift_combines := (high_combines.combine low_combines
      (Outcome.mapError_eq_ok.mp isDifference)).combine width_combines
      (Outcome.mapError_eq_ok.mp isShift)
    refine ⟨rfl, spans, scale_combines, fun kept isKept => ?_, fun dropped _ => ?_⟩
    · unfold Dequantization.shiftUnlessZero at isKept
      split at isKept
      case isTrue => cases isKept
      case isFalse => exact Option.some.inj isKept ▸ shift_combines
    · unfold Dequantization.shiftUnlessZero at dropped
      split at dropped
      case isTrue near => exact ⟨shift, shift_combines, near⟩
      case isFalse => cases dropped
  case isFalse unpointed =>
    cases Except.ok.inj restores
    exact ⟨rfl, spans, scale_combines, fun _ isShift => (by cases isShift),
      fun _ pointed => absurd pointed unpointed⟩

end Graph

end QuantGraph
