import Mathlib
import QuantGraph.Proofs.Joint.Carried
import QuantGraph.Proofs.NDArray.Layout
import QuantGraph.Proofs.Rules.Collapse

/-! Constants that vary along some axes only. Such a constant is read in the same way at all
positions that agree along these axes, and laid together along one of them, constants are read
each in its own part. -/

namespace QuantGraph

namespace Shape

variable {shape : Shape} {axes : List Nat} {axis extent rank : Nat} {index other : Index}

/-! ## Axes that are kept -/

/-- The extents along some axes, and one along all others. -/
def along (axes : List Nat) (shape : Shape) : Shape :=
  shape.mapIdx fun axis extent => if axis ∈ axes then extent else 1

/-- Two positions agree along some axes. -/
def AgreesAlong (axes : List Nat) (index other : Index) : Prop :=
  ∀ axis ∈ axes, index.getD axis 0 = other.getD axis 0

theorem AgreesAlong.symm {axes : List Nat} {index other : Index}
    (agrees : AgreesAlong axes index other) : AgreesAlong axes other index :=
  fun axis member => (agrees axis member).symm

theorem AgreesAlong.trans {axes : List Nat} {index other third : Index}
    (first : AgreesAlong axes index other) (second : AgreesAlong axes other third) :
    AgreesAlong axes index third :=
  fun axis member => (first axis member).trans (second axis member)

@[simp] theorem length_along (axes : List Nat) (shape : Shape) :
    (shape.along axes).length = shape.length := List.length_mapIdx

@[simp] theorem getElem?_along (axes : List Nat) (shape : Shape) (axis : Nat) :
    (shape.along axes)[axis]? = if axis ∈ axes then shape[axis]? else shape[axis]?.map fun _ => 1 := by
  rw [along, List.getElem?_mapIdx]
  split
  case isTrue => exact Option.map_id'
  case isFalse => rfl

/-- One shape stretches to another of its length where every extent does. -/
theorem stretchesTo_of_getElem? {source target : Shape} (length_eq : source.length = target.length)
    (each : ∀ axis first second : Nat, source[axis]? = some first → target[axis]? = some second →
      first = second ∨ first = 1) : source.StretchesTo target :=
  stretchesTo_iff_append.mpr ⟨[], target, rfl, Graph.forall₂_of_getElem? length_eq each⟩

theorem along_stretchesTo (axes : List Nat) (shape : Shape) :
    (shape.along axes).StretchesTo shape := by
  refine stretchesTo_of_getElem? (length_along axes shape) fun axis first second isFirst isSecond => ?_
  rw [getElem?_along] at isFirst
  split at isFirst
  case isTrue => exact Or.inl (Option.some.inj (isFirst.symm.trans isSecond))
  case isFalse =>
    rw [isSecond] at isFirst
    exact Or.inr (Option.some.inj isFirst).symm

theorem axisShape_stretchesTo_along (member : axis ∈ axes) (isExtent : shape[axis]? = some extent) :
    StretchesTo (Dequantization.axisShape shape.length axis extent) (shape.along axes) := by
  refine stretchesTo_of_getElem? (by simp [Dequantization.axisShape])
    fun place first second isFirst isSecond => ?_
  rw [Dequantization.axisShape, List.getElem?_set] at isFirst
  split at isFirst
  case isTrue same =>
    subst same
    rw [getElem?_along, if_pos member, isExtent] at isSecond
    split at isFirst
    case isTrue => exact Or.inl (Option.some.inj (isFirst.symm.trans isSecond))
    case isFalse => cases isFirst
  case isFalse =>
    exact Or.inr (List.eq_of_mem_replicate (List.mem_of_getElem? isFirst))

/-- Where the axes that are kept have the same extents, the same is kept. -/
theorem along_congr {source target : Shape} (length_eq : source.length = target.length)
    (same : ∀ axis ∈ axes, source[axis]? = target[axis]?) :
    source.along axes = target.along axes := by
  refine List.ext_getElem? fun axis => ?_
  rw [getElem?_along, getElem?_along]
  split
  case isTrue member => exact same axis member
  case isFalse =>
    by_cases below : axis < source.length
    · rw [List.getElem?_eq_getElem below, List.getElem?_eq_getElem (length_eq ▸ below)]
      rfl
    · rw [List.getElem?_eq_none (by omega), List.getElem?_eq_none (by omega)]

theorem Holds.of_le {smaller : Shape} (holds : smaller.Holds index)
    (le : List.Forall₂ (fun extent extent' => extent ≤ extent') smaller shape) :
    shape.Holds index := by
  induction le generalizing index with
  | nil => exact holds
  | cons head _ induction =>
      obtain _ | ⟨below, holds⟩ := holds
      exact .cons (below.trans_le head) (induction holds)

theorem stretchedIndex_of_length_eq {source : Shape} (lined : index.length = source.length) :
    source.stretchedIndex index = List.zipWith stretchedCoordinate source index := by
  have split := stretchedIndex_append [] lined
  rwa [List.nil_append] at split

/-- Positions that agree along the axes that are kept are read at the same place. -/
theorem Holds.stretchedIndex_along (holds : shape.Holds index) (others : shape.Holds other)
    (agrees : AgreesAlong axes index other) :
    (shape.along axes).stretchedIndex index = (shape.along axes).stretchedIndex other := by
  have length_eq := length_along axes shape
  rw [stretchedIndex_of_length_eq (holds.length_eq.trans length_eq.symm),
    stretchedIndex_of_length_eq (others.length_eq.trans length_eq.symm)]
  refine List.ext_getElem? fun axis => ?_
  rw [List.getElem?_zipWith, List.getElem?_zipWith, getElem?_along]
  by_cases below : axis < shape.length
  · have lower : axis < index.length := holds.length_eq ▸ below
    have upper : axis < other.length := others.length_eq ▸ below
    rw [List.getElem?_eq_getElem below, List.getElem?_eq_getElem lower,
      List.getElem?_eq_getElem upper]
    by_cases member : axis ∈ axes
    · have same := agrees axis member
      rw [List.getD_eq_getElem _ _ lower, List.getD_eq_getElem _ _ upper] at same
      rw [same]
    · simp [member, stretchedCoordinate]
  · rw [List.getElem?_eq_none (by omega : shape.length ≤ axis), Option.map_none, ite_self]

/-- Without empty axes, every position of what is stretched is read from somewhere. -/
theorem exists_stretchedIndex_eq {source target : Shape} (stretches : source.StretchesTo target)
    (positive : ∀ extent ∈ target, 0 < extent) (holds : source.Holds index) :
    ∃ position, target.Holds position ∧ source.stretchedIndex position = index := by
  obtain ⟨outer, inner, rfl, each⟩ := stretchesTo_iff_append.mp stretches
  have outside : Holds outer (List.replicate outer.length 0) := by
    refine List.forall₂_iff_get.mpr ⟨List.length_replicate.symm, fun axis below _ => ?_⟩
    rw [List.get_eq_getElem, List.get_eq_getElem, List.getElem_replicate]
    exact positive _ (List.mem_append_left inner (List.getElem_mem below))
  have within : inner.Holds index ∧ List.zipWith stretchedCoordinate source index = index := by
    have room : ∀ extent ∈ inner, 0 < extent := fun extent member =>
      positive extent (List.mem_append_right outer member)
    clear stretches outside positive
    induction each generalizing index with
    | nil =>
        cases holds
        exact ⟨.nil, rfl⟩
    | cons head _ induction =>
        obtain _ | ⟨below, holds⟩ := holds
        obtain ⟨inside, same⟩ := induction holds fun extent member =>
          room extent (List.mem_cons_of_mem _ member)
        have room := room _ List.mem_cons_self
        refine ⟨.cons (by omega) inside, ?_⟩
        rw [List.zipWith_cons_cons, same, stretchedCoordinate]
        congr 1
        split <;> omega
  refine ⟨_, List.rel_append outside within.1, ?_⟩
  rw [stretchedIndex_append _ holds.length_eq]
  exact within.2

/-! ## One axis -/

theorem offset_replicate_one (holds : Holds (List.replicate rank 1) index) :
    offset (List.replicate rank 1) index = 0 := by
  have below := holds.offset_lt
  rw [size_replicate_one] at below
  omega

theorem size_axisShape (inside : axis < rank) :
    size (Dequantization.axisShape rank axis extent) = extent := by
  induction rank generalizing axis with
  | zero => cases inside
  | succ rank induction =>
      cases axis with
      | zero =>
          change extent * size (List.replicate rank 1) = extent
          rw [size_replicate_one, Nat.mul_one]
      | succ axis =>
          change 1 * size (Dequantization.axisShape rank axis extent) = extent
          rw [induction (Nat.lt_of_succ_lt_succ inside), Nat.one_mul]

/-- Along one axis, a position is numbered by its coordinate there. -/
theorem offset_axisShape (inside : axis < rank)
    (holds : Holds (Dequantization.axisShape rank axis extent) index) :
    offset (Dequantization.axisShape rank axis extent) index = index.getD axis 0 := by
  induction rank generalizing axis index with
  | zero => cases inside
  | succ rank induction =>
      cases axis with
      | zero =>
          have holds : Holds (extent :: List.replicate rank 1) index := holds
          cases holds with
          | @cons _ coordinate _ rest _ inner =>
              change coordinate * size (List.replicate rank 1) +
                offset (List.replicate rank 1) rest = _
              rw [size_replicate_one, offset_replicate_one inner, Nat.mul_one, Nat.add_zero]
              rfl
      | succ axis =>
          have holds : Holds (1 :: Dequantization.axisShape rank axis extent) index := holds
          cases holds with
          | @cons _ coordinate _ rest below inner =>
              change coordinate * size (Dequantization.axisShape rank axis extent) +
                offset (Dequantization.axisShape rank axis extent) rest = _
              rw [Nat.lt_one_iff.mp below, Nat.zero_mul, Nat.zero_add,
                induction (Nat.lt_of_succ_lt_succ inside) inner]
              rfl

theorem getD_stretchedIndex_axisShape (holds : shape.Holds index)
    (isExtent : shape[axis]? = some extent) :
    ((Dequantization.axisShape shape.length axis extent).stretchedIndex index).getD axis 0 =
      index.getD axis 0 := by
  have below := holds.getD_lt isExtent
  obtain ⟨inside, _⟩ := List.getElem?_eq_some_iff.mp isExtent
  have lower : axis < index.length := holds.length_eq ▸ inside
  have lined : index.length = (Dequantization.axisShape shape.length axis extent).length := by
    simp [Dequantization.axisShape, holds.length_eq]
  rw [stretchedIndex_of_length_eq lined, List.getD_eq_getElem?_getD, List.getElem?_zipWith, Dequantization.axisShape,
    List.getElem?_set_self (by simpa using inside), List.getElem?_eq_getElem lower,
    List.getD_eq_getElem _ _ lower]
  rw [List.getD_eq_getElem _ _ lower] at below
  simp only [stretchedCoordinate, Option.getD_some]
  split <;> omega

theorem getD_set_index (holds : shape.Holds index) (isExtent : shape[axis]? = some extent)
    (coordinate : Nat) : (index.set axis coordinate).getD axis 0 = coordinate := by
  obtain ⟨inside, _⟩ := List.getElem?_eq_some_iff.mp isExtent
  have lower : axis < index.length := holds.length_eq ▸ inside
  rw [List.getD_eq_getElem?_getD, List.getElem?_set_self lower, Option.getD_some]

end Shape

namespace NDArray

variable [Inhabited α] {array : NDArray α} {shape : Shape} {axes : List Nat} {axis extent : Nat}
  {index other : Index}

theorem read_congr_along (stretches : array.shape.StretchesTo (shape.along axes))
    (holds : shape.Holds index) (others : shape.Holds other)
    (agrees : Shape.AgreesAlong axes index other) : array.read index = array.read other := by
  have outer := Shape.along_stretchesTo axes shape
  rw [← read_stretchedIndex stretches outer holds, ← read_stretchedIndex stretches outer others,
    holds.stretchedIndex_along others agrees]

/-- An array with one axis has the element for a coordinate in its place. -/
theorem getElem?_toList_axisShape
    (shape_eq : array.shape = Dequantization.axisShape shape.length axis extent)
    (holds : shape.Holds index) (isExtent : shape[axis]? = some extent) :
    array.toList[index.getD axis 0]? = some (array.read index) := by
  obtain ⟨inside, _⟩ := List.getElem?_eq_some_iff.mp isExtent
  have stretches : (Dequantization.axisShape shape.length axis extent).StretchesTo shape :=
    (Shape.axisShape_stretchesTo_along (List.mem_singleton_self axis) isExtent).trans
      (Shape.along_stretchesTo [axis] shape)
  have within := holds.stretchedIndex stretches
  have inner : array.shape.Holds
      ((Dequantization.axisShape shape.length axis extent).stretchedIndex index) := shape_eq ▸ within
  have listed := getElem?_toList_offset inner
  rw [shape_eq, Shape.offset_axisShape inside within,
    Shape.getD_stretchedIndex_axisShape holds isExtent,
    read_stretchedIndex (shape_eq ▸ Shape.stretchesTo_refl _) stretches holds] at listed
  exact listed

end NDArray

namespace Tensor

variable {tensor : Tensor Rat} {shape target : Shape} {index : Index}

theorem collapse_eq (tensor : Tensor Rat) :
    tensor.collapse = tensor ∨ ∃ first, tensor.isUniform = true ∧ tensor.first? = some first ∧
      tensor.collapse = .scalar tensor.elementType first := by
  unfold collapse toScalar?
  cases uniform : tensor.isUniform with
  | false => exact Or.inl rfl
  | true =>
      cases isFirst : tensor.first? with
      | none => exact Or.inl rfl
      | some first => exact Or.inr ⟨first, rfl, rfl, rfl⟩

theorem collapse_stretchesTo (stretches : tensor.shape.StretchesTo shape) :
    tensor.collapse.shape.StretchesTo shape := by
  rcases tensor.collapse_eq with same | ⟨first, _, _, equal⟩
  · exact same.symm ▸ stretches
  · rw [equal]
    exact Shape.nil_stretchesTo shape

theorem read_collapse (stretches : tensor.shape.StretchesTo shape) (holds : shape.Holds index) :
    tensor.collapse.values.read index = tensor.values.read index := by
  rcases tensor.collapse_eq with same | ⟨first, uniform, isFirst, equal⟩
  · rw [same]
  · have inside := holds.stretchedIndex stretches
    have listed := List.mem_of_getElem? (NDArray.getElem?_toList_offset inside)
    have same : tensor.values.read (tensor.shape.stretchedIndex index) = tensor.values.read index :=
      NDArray.read_stretchedIndex (Shape.stretchesTo_refl _) stretches holds
    rw [same] at listed
    rw [equal, eq_first_of_isUniform (fun _ _ => eq_of_beq) uniform isFirst listed]
    rfl

theorem isNearZero_collapse (tensor : Tensor Rat) :
    tensor.collapse.isNearZero = tensor.isNearZero := by
  rcases tensor.collapse_eq with same | ⟨first, uniform, isFirst, equal⟩
  · rw [same]
  · have listed {value : Rat} (member : value ∈ tensor.toList) : value = first :=
      eq_first_of_isUniform (fun _ _ => eq_of_beq) uniform isFirst member
    have filled : tensor.isEmpty = false := by
      rw [isEmpty, beq_eq_false_iff_ne]
      intro empty
      have nothing : tensor.toList = [] := List.length_eq_zero_iff.mp empty
      rw [first?, nothing] at isFirst
      cases isFirst
    rw [equal, Bool.eq_iff_iff]
    simp only [isNearZero, filled, Bool.not_false, Bool.true_and, List.all_eq_true,
      decide_eq_true_eq]
    constructor
    · intro near value member
      rw [listed member]
      simpa [isEmpty, size, scalar, NDArray.size, NDArray.scalar, toList, NDArray.toList] using near
    · intro near
      simpa [isEmpty, size, scalar, NDArray.size, NDArray.scalar, toList, NDArray.toList] using
        near first (List.mem_of_mem_head? isFirst)

end Tensor

namespace Dequantization

variable {tensor : Tensor Rat} {values : Dequantization Rat} {shape : Shape} {axes : List Nat}
  {axis channels coordinate position : Nat} {index other : Index} {numbers : List Rat}
  {parts : List (Dequantization Rat × Nat)}

/-! ## Channels -/

/-- There is one number for each channel, the one that is read there. -/
theorem perChannel_eq_ok (found : perChannel tensor channels axis shape.length = .ok numbers)
    (stretches : tensor.shape.StretchesTo shape) (isExtent : shape[axis]? = some channels) :
    numbers.length = channels ∧
      ∀ index, shape.Holds index → numbers[index.getD axis 0]? = some (tensor.values.read index) := by
  unfold perChannel at found
  split at found
  case isTrue single =>
    cases Except.ok.inj found
    refine ⟨List.length_replicate, fun index holds => ?_⟩
    have inside := holds.stretchedIndex stretches
    have listed := NDArray.getElem?_toList_offset inside
    have first : tensor.shape.offset (tensor.shape.stretchedIndex index) = 0 := by
      have below := inside.offset_lt
      have one : tensor.shape.size = 1 := tensor.values.size_data.symm.trans single
      omega
    have same : tensor.values.read (tensor.shape.stretchedIndex index) = tensor.values.read index :=
      NDArray.read_stretchedIndex (Shape.stretchesTo_refl _) stretches holds
    have isFirst : tensor.first? = some (tensor.values.read index) := by
      rw [Tensor.first?, List.head?_eq_getElem?, ← same, ← listed]
      exact congrArg (tensor.toList[·]?) first.symm
    rw [List.getElem?_replicate, if_pos (holds.getD_lt isExtent), isFirst, Option.getD_some]
  case isFalse =>
    split at found
    case isFalse => cases found
    case isTrue fits =>
      cases Except.ok.inj found
      obtain ⟨inside, _⟩ := List.getElem?_eq_some_iff.mp isExtent
      refine ⟨(NDArray.length_toList _).trans (Shape.size_axisShape inside),
        fun index holds => ?_⟩
      have outer : (axisShape shape.length axis channels).StretchesTo shape :=
        (Shape.axisShape_stretchesTo_along (List.mem_singleton_self axis) isExtent).trans
          (Shape.along_stretchesTo [axis] shape)
      have within := holds.stretchedIndex outer
      have listed : (tensor.values.stretch (axisShape shape.length axis channels)).toList[_]? = _ :=
        NDArray.getElem?_toList_axisShape rfl holds isExtent
      refine listed.trans (congrArg some ?_)
      exact (NDArray.get_ofFn within).trans (NDArray.read_stretchedIndex fits outer holds)

/-- The number that is subtracted at a position. -/
def shiftAt (values : Dequantization Rat) (index : Index) : Rat :=
  match values.shift with
  | some shift => shift.values.read index
  | none => 0

theorem restore_eq_shiftAt (values : Dequantization Rat) (index : Index) (number : Rat) :
    values.restore index number =
      (number - values.shiftAt index) * values.scale.values.read index := by
  unfold restore shiftAt
  cases values.shift with
  | some shift => rfl
  | none => exact congrArg (· * _) (sub_zero number).symm

/-- A dequantization varies along some axes of a shape only, and its shift, if there is one, is not
as good as zero. -/
structure VariesAlong (values : Dequantization Rat) (axes : List Nat) (shape : Shape) : Prop where
  real : values.restoredType.isReal = true
  scale : values.scale.shape.StretchesTo (shape.along axes)
  shift : ∀ shift, values.shift = some shift → shift.shape.StretchesTo (shape.along axes)
  far : ∀ shift, values.shift = some shift → shift.isNearZero = false

namespace VariesAlong

variable (varies : values.VariesAlong axes shape)

include varies

theorem stretchesTo : values.StretchesTo shape :=
  ⟨varies.scale.trans (Shape.along_stretchesTo axes shape), fun shift shifted =>
    (varies.shift shift shifted).trans (Shape.along_stretchesTo axes shape)⟩

theorem read_scale_congr (holds : shape.Holds index) (others : shape.Holds other)
    (agrees : Shape.AgreesAlong axes index other) :
    values.scale.values.read index = values.scale.values.read other :=
  NDArray.read_congr_along varies.scale holds others agrees

theorem shiftAt_congr (holds : shape.Holds index) (others : shape.Holds other)
    (agrees : Shape.AgreesAlong axes index other) : values.shiftAt index = values.shiftAt other := by
  unfold shiftAt
  cases shifted : values.shift with
  | some shift => exact NDArray.read_congr_along (varies.shift shift shifted) holds others agrees
  | none => rfl

theorem congr {target : Shape} (same : shape.along axes = target.along axes) :
    values.VariesAlong axes target where
  real := varies.real
  scale := same ▸ varies.scale
  shift := fun shift shifted => same ▸ varies.shift shift shifted
  far := varies.far

end VariesAlong

/-- What is not as good as zero has a number that is not. -/
theorem exists_far_of_perChannel {rank : Nat}
    (found : perChannel tensor channels axis rank = .ok numbers) (far : tensor.isNearZero = false)
    (some_channel : 0 < channels) : ∃ number ∈ numbers, 1 / 10 ^ 6 < |number| := by
  have listed (filled : tensor.size ≠ 0) : ∃ value ∈ tensor.toList, 1 / 10 ^ 6 < |value| := by
    by_contra near
    push Not at near
    rw [Bool.eq_false_iff] at far
    refine far ?_
    rw [Tensor.isNearZero, Bool.and_eq_true, List.all_eq_true]
    refine ⟨by simpa [Tensor.isEmpty] using filled, fun value member => decide_eq_true ?_⟩
    rw [Exact.abs_eq, Exact.zeroTolerance_eq]
    exact near value member
  unfold perChannel at found
  split at found
  case isTrue single =>
    cases Except.ok.inj found
    obtain ⟨value, member, far⟩ := listed (by omega)
    obtain ⟨first, toList_eq⟩ := List.length_eq_one_iff.mp (show tensor.toList.length = 1 from single)
    rw [toList_eq, List.mem_singleton] at member
    refine ⟨value, List.mem_replicate.mpr ⟨some_channel.ne', ?_⟩, far⟩
    rw [Tensor.first?, toList_eq, member]
    rfl
  case isFalse =>
    split at found
    case isFalse => cases found
    case isTrue fits =>
      cases Except.ok.inj found
      have positive : ∀ extent ∈ axisShape rank axis channels, 0 < extent := by
        intro extent member
        rcases List.mem_or_eq_of_mem_set member with one | rfl
        · exact (List.eq_of_mem_replicate one).symm ▸ Nat.one_pos
        · exact some_channel
      have filled : tensor.size ≠ 0 := by
        intro empty
        obtain ⟨position, holds, _⟩ :=
          Shape.exists_stretchedIndex_eq (Shape.nil_stretchesTo _) positive .nil
        have inside := (holds.stretchedIndex fits).offset_lt
        have none_left : tensor.shape.size = 0 := tensor.values.size_data.symm.trans empty
        omega
      obtain ⟨value, member, far⟩ := listed filled
      obtain ⟨place, inside, rfl⟩ := List.getElem_of_mem member
      have below : place < tensor.shape.size := (NDArray.length_toList tensor.values) ▸ inside
      obtain ⟨position, holds, read⟩ :=
        Shape.exists_stretchedIndex_eq fits positive (Shape.holds_indexAt below)
      have here : tensor.values.toList[_]? = _ :=
        NDArray.getElem?_toList_offset (Shape.holds_indexAt below)
      rw [show tensor.values.shape.offset (tensor.values.shape.indexAt place) = place from
          Shape.offset_indexAt below,
        NDArray.read_eq_get (Shape.holds_indexAt below)] at here
      have value_eq : tensor.toList[place] = tensor.values.get (tensor.shape.indexAt place) :=
        Option.some.inj ((List.getElem?_eq_getElem inside).symm.trans here)
      have there : (tensor.values.stretch (axisShape rank axis channels)).toList[_]? = _ :=
        NDArray.getElem?_toList_offset holds
      refine ⟨tensor.toList[place], List.mem_of_getElem? (there.trans (congrArg some ?_)), far⟩
      rw [NDArray.read_eq_get holds, value_eq, ← read]
      exact NDArray.get_ofFn holds

/-- The scales of a part and what is subtracted there, channel by channel. -/
structure ListsChannels (axis : Nat) (shape : Shape) (part : Dequantization Rat × Nat)
    (numbers : List Rat × List Rat) : Prop where
  lengths : numbers.1.length = part.2 ∧ numbers.2.length = part.2
  scale : ∀ index, Shape.Holds (shape.set axis part.2) index →
    numbers.1[index.getD axis 0]? = some (part.1.scale.values.read index)
  shift : ∀ index, Shape.Holds (shape.set axis part.2) index →
    numbers.2[index.getD axis 0]? = some (part.1.shiftAt index)
  far : part.1.shift ≠ none → 0 < part.2 → ∃ number ∈ numbers.2, 1 / 10 ^ 6 < |number|

theorem getElem?_flatMap_of_forall₂ {β γ : Type} {count : β → Nat} {pick : γ → List Rat}
    {left : List β} {right : List γ} {first : β} {second : γ}
    (each : List.Forall₂ (fun first second => (pick second).length = count first) left right)
    (isFirst : left[position]? = some first) (isSecond : right[position]? = some second)
    (below : coordinate < count first) :
    (right.flatMap pick)[((left.take position).map count).sum + coordinate]? =
      (pick second)[coordinate]? := by
  induction each generalizing position with
  | nil => cases isFirst
  | cons head _ induction =>
      rw [List.flatMap_cons]
      cases position with
      | zero =>
          cases Option.some.inj isFirst
          cases Option.some.inj isSecond
          rw [List.take_zero, List.map_nil, List.sum_nil, Nat.zero_add,
            List.getElem?_append_left (head ▸ below)]
      | succ position =>
          rw [List.take_succ_cons, List.map_cons, List.sum_cons, Nat.add_assoc,
            List.getElem?_append_right (by omega), head, Nat.add_sub_cancel_left]
          exact induction isFirst isSecond

theorem VariesAlong.listsChannels {scales shifts : List Rat}
    (varies : values.VariesAlong axes (shape.set axis channels)) (inside : axis < shape.length)
    (isScales : perChannel values.scale channels axis shape.length = .ok scales)
    (isShifts : ∀ shift, values.shift = some shift →
      perChannel shift channels axis shape.length = .ok shifts)
    (unshifted : values.shift = none → shifts = List.replicate channels 0) :
    ListsChannels axis shape (values, channels) (scales, shifts) := by
  have isExtent : (shape.set axis channels)[axis]? = some channels :=
    List.getElem?_set_self inside
  have rank_eq : (shape.set axis channels).length = shape.length := List.length_set
  rw [← rank_eq] at isScales isShifts
  obtain ⟨scales_length, readsScale⟩ := perChannel_eq_ok isScales varies.stretchesTo.1 isExtent
  cases shifted : values.shift with
  | some shift =>
      obtain ⟨shifts_length, readsShift⟩ :=
        perChannel_eq_ok (isShifts shift shifted) (varies.stretchesTo.2 shift shifted) isExtent
      refine ⟨⟨scales_length, shifts_length⟩, readsScale, ?_,
        fun _ => exists_far_of_perChannel (isShifts shift shifted) (varies.far shift shifted)⟩
      simpa only [shiftAt, shifted] using readsShift
  | none =>
      cases unshifted shifted
      refine ⟨⟨scales_length, List.length_replicate⟩, readsScale, fun index holds => ?_,
        fun present => absurd shifted present⟩
      rw [shiftAt, shifted, List.getElem?_replicate, if_pos (holds.getD_lt isExtent)]

/-- The scales and shifts of all parts are laid one behind the other, unless no part has a
shift. -/
theorem exists_listed_of_concatenate (inside : axis < shape.length)
    (each : ∀ part ∈ parts, part.1.VariesAlong axes (shape.set axis part.2))
    (found : concatenate parts axis shape.length = .ok values) :
    ∃ channelNumbers, List.Forall₂ (ListsChannels axis shape) parts channelNumbers ∧
      values.restoredType.isReal = true ∧
      (∃ scale, Tensor.ofList values.restoredType
          (axisShape shape.length axis (parts.map Prod.snd).sum)
          (channelNumbers.flatMap Prod.fst) = .ok scale ∧ values.scale = scale.collapse) ∧
      ((∃ shift, Tensor.ofList values.restoredType
          (axisShape shape.length axis (parts.map Prod.snd).sum)
          (channelNumbers.flatMap Prod.snd) = .ok shift ∧
          values.shift = (shiftUnlessZero shift).map Tensor.collapse) ∨
        values.shift = none ∧ ∀ part ∈ parts, part.1.shift = none) := by
  unfold concatenate at found
  split at found
  case h_1 => cases found
  case h_2 first count rest =>
    obtain ⟨channelNumbers, isChannels, found⟩ := Outcome.bind_eq_ok.mp found
    rw [← List.sum_eq_foldl] at found
    have lists : List.Forall₂ (ListsChannels axis shape) ((first, count) :: rest)
        channelNumbers := by
      refine ((List.forall₂_and_left ..).mpr ⟨each, Outcome.mapM_eq_ok.mp isChannels⟩).imp ?_
      rintro ⟨values, channels⟩ numbers ⟨varies, isNumbers⟩
      obtain ⟨scales, isScales, isNumbers⟩ := Outcome.bind_eq_ok.mp isNumbers
      cases shifted : values.shift with
      | some shift =>
          rw [shifted] at isNumbers
          obtain ⟨shifts, isShifts, isNumbers⟩ := Outcome.bind_eq_ok.mp isNumbers
          cases Except.ok.inj isNumbers
          refine varies.listsChannels inside isScales (fun other present => ?_)
            (fun absent => absurd (absent.symm.trans shifted) (by simp))
          cases Option.some.inj (present.symm.trans shifted)
          exact isShifts
      | none =>
          rw [shifted] at isNumbers
          cases Except.ok.inj isNumbers
          exact varies.listsChannels inside isScales
            (fun _ present => absurd (present.symm.trans shifted) (by simp)) fun _ => rfl
    have real := (each (first, count) List.mem_cons_self).real
    obtain ⟨scale, isScale, found⟩ := Outcome.bind_eq_ok.mp found
    refine ⟨channelNumbers, lists, ?_⟩
    dsimp only at found
    split at found
    case isTrue some_shifted =>
      obtain ⟨shift, isShift, found⟩ := Outcome.bind_eq_ok.mp found
      cases Except.ok.inj found
      exact ⟨real, ⟨scale, Outcome.mapError_eq_ok.mp isScale, rfl⟩,
        Or.inl ⟨shift, Outcome.mapError_eq_ok.mp isShift, rfl⟩⟩
    case isFalse none_shifted =>
      cases Except.ok.inj found
      refine ⟨real, ⟨scale, Outcome.mapError_eq_ok.mp isScale, rfl⟩, Or.inr ⟨rfl, ?_⟩⟩
      intro part member
      rw [List.any_eq_true] at none_shifted
      push Not at none_shifted
      exact Option.not_isSome_iff_eq_none.mp (none_shifted part member)

/-- What stands in the place of a part is read as it is read there. -/
theorem read_of_flatMap {made : Tensor Rat} {type : ElementType}
    {channelNumbers : List (List Rat × List Rat)} {pick : List Rat × List Rat → List Rat}
    {part : Dequantization Rat × Nat} (number : Dequantization Rat → Index → Rat)
    (each : ∀ part numbers, ListsChannels axis shape part numbers →
      (pick numbers).length = part.2 ∧ ∀ index, Shape.Holds (shape.set axis part.2) index →
        (pick numbers)[index.getD axis 0]? = some (number part.1 index))
    (lists : List.Forall₂ (ListsChannels axis shape) parts channelNumbers)
    (isExtent : shape[axis]? = some (parts.map Prod.snd).sum)
    (isMade : Tensor.ofList type (axisShape shape.length axis (parts.map Prod.snd).sum)
      (channelNumbers.flatMap pick) = .ok made)
    (holds : shape.Holds index) (isPart : parts[position]? = some part)
    (below : coordinate < part.2)
    (place : index.getD axis 0 = ((parts.take position).map Prod.snd).sum + coordinate) :
    made.values.read index = number part.1 (index.set axis coordinate) := by
  obtain ⟨shape_eq, toList_eq⟩ := Tensor.ofList_eq_ok isMade
  obtain ⟨numbers, isNumbers⟩ := Graph.exists_getElem?_of_length_eq lists.length_eq.symm isPart
  have whole : made.values.toList[_]? = _ :=
    NDArray.getElem?_toList_axisShape shape_eq holds isExtent
  have listed := getElem?_flatMap_of_forall₂
    (lists.imp fun part numbers lists => (each part numbers lists).1) isPart isNumbers below
  have here := (each part numbers (Graph.related_of_getElem? lists isPart isNumbers)).2 _
    (holds.set below)
  rw [Shape.getD_set_index holds isExtent] at here
  rw [show made.values.toList = _ from toList_eq, place, listed, here] at whole
  exact (Option.some.inj whole).symm

/-- A shift that is as good as zero is left out only where no part with channels has one. -/
theorem shiftAt_of_listed {shift : Tensor Rat} {channelNumbers : List (List Rat × List Rat)}
    {part : Dequantization Rat × Nat}
    (lists : List.Forall₂ (ListsChannels axis shape) parts channelNumbers)
    (toList_eq : shift.toList = channelNumbers.flatMap Prod.snd)
    (shifted : values.shift = (shiftUnlessZero shift).map Tensor.collapse)
    (stretches : shift.shape.StretchesTo shape) (holds : shape.Holds index)
    (isPart : parts[position]? = some part) (below : coordinate < part.2)
    (reads : shift.values.read index = part.1.shiftAt other) :
    values.shiftAt index = part.1.shiftAt other := by
  unfold shiftUnlessZero at shifted
  split at shifted
  case isFalse =>
    rw [← reads, ← Tensor.read_collapse stretches holds, shiftAt, shifted]
    rfl
  case isTrue near =>
    have absent : part.1.shift = none := by
      by_contra present
      obtain ⟨numbers, isNumbers⟩ :=
        Graph.exists_getElem?_of_length_eq lists.length_eq.symm isPart
      obtain ⟨number, listed, far⟩ := (Graph.related_of_getElem? lists isPart isNumbers).far present
        (Nat.zero_lt_of_lt below)
      rw [Tensor.isNearZero, Bool.and_eq_true, List.all_eq_true, toList_eq] at near
      have close := of_decide_eq_true (near.2 number (List.mem_flatMap.mpr
        ⟨numbers, List.mem_of_getElem? isNumbers, listed⟩))
      rw [Exact.abs_eq, Exact.zeroTolerance_eq] at close
      exact absurd far (not_lt.mpr close)
    rw [shiftAt, shiftAt, shifted, absent]
    rfl

/-- Laid together along an axis, dequantizations are read each in its own part. -/
theorem concatenate_eq_ok (member : axis ∈ axes)
    (isExtent : shape[axis]? = some (parts.map Prod.snd).sum)
    (each : ∀ part ∈ parts, part.1.VariesAlong axes (shape.set axis part.2))
    (found : concatenate parts axis shape.length = .ok values) :
    values.VariesAlong axes shape ∧
      ∀ (position : Nat) part coordinate, parts[position]? = some part → coordinate < part.2 →
        ∀ index, shape.Holds index →
          index.getD axis 0 = ((parts.take position).map Prod.snd).sum + coordinate →
            values.scale.values.read index =
                part.1.scale.values.read (index.set axis coordinate) ∧
              values.shiftAt index = part.1.shiftAt (index.set axis coordinate) := by
  obtain ⟨inside, _⟩ := List.getElem?_eq_some_iff.mp isExtent
  obtain ⟨channelNumbers, lists, real, ⟨scale, isScale, scale_eq⟩, shifted⟩ :=
    exists_listed_of_concatenate inside each found
  have within {made : Tensor Rat} {listed : List Rat} (isMade : Tensor.ofList values.restoredType
      (axisShape shape.length axis (parts.map Prod.snd).sum) listed = .ok made) :
      made.shape.StretchesTo (shape.along axes) :=
    (Tensor.ofList_eq_ok isMade).1 ▸ Shape.axisShape_stretchesTo_along member isExtent
  have outer := Shape.along_stretchesTo axes shape
  refine ⟨⟨real, scale_eq ▸ Tensor.collapse_stretchesTo (within isScale), ?_, ?_⟩,
    fun position part coordinate isPart below index holds place => ⟨?_, ?_⟩⟩
  · intro kept isKept
    rcases shifted with ⟨shift, isShift, shift_eq⟩ | ⟨unshifted, _⟩
    · obtain ⟨tensor, isTensor, rfl⟩ := Option.map_eq_some_iff.mp (shift_eq.symm.trans isKept)
      rw [(shiftUnlessZero_eq_some isTensor).1]
      exact Tensor.collapse_stretchesTo (within isShift)
    · rw [unshifted] at isKept
      cases isKept
  · intro kept isKept
    rcases shifted with ⟨shift, isShift, shift_eq⟩ | ⟨unshifted, _⟩
    · obtain ⟨tensor, isTensor, rfl⟩ := Option.map_eq_some_iff.mp (shift_eq.symm.trans isKept)
      obtain ⟨rfl, far⟩ := shiftUnlessZero_eq_some isTensor
      rw [Tensor.isNearZero_collapse, far]
    · rw [unshifted] at isKept
      cases isKept
  · rw [scale_eq, Tensor.read_collapse ((within isScale).trans outer) holds]
    exact read_of_flatMap (fun values => values.scale.values.read)
      (fun _ _ lists => ⟨lists.lengths.1, lists.scale⟩) lists isExtent isScale holds isPart below
      place
  · rcases shifted with ⟨shift, isShift, shift_eq⟩ | ⟨unshifted, none_shifted⟩
    · refine shiftAt_of_listed lists (Tensor.ofList_eq_ok isShift).2 shift_eq
        ((within isShift).trans outer) holds isPart below ?_
      exact read_of_flatMap shiftAt
        (fun _ _ lists => ⟨lists.lengths.2, lists.shift⟩) lists isExtent isShift holds isPart below
        place
    · rw [shiftAt, shiftAt, unshifted, none_shifted part (List.mem_of_getElem? isPart)]

end Dequantization

end QuantGraph
