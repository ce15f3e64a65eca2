import QuantGraph.Proofs.Evaluation.Operation
import QuantGraph.Proofs.NDArray.Layout

/-! Operations that only change the shape of an array. A reshape, a squeeze and an unsqueeze
give the elements of their input, in the same row-major order, under the inferred shape; for
a squeeze this takes axes without repetitions, because inference takes out every listed axis
once and evaluation as often as it is listed. -/

namespace QuantGraph

namespace Shape

variable {shape result : Shape} {index : Index} {axis : Nat} {axes : List Nat}

theorem size_eraseIdx_one (isOne : shape[axis]? = some 1) :
    size (shape.eraseIdx axis) = size shape := by
  induction shape generalizing axis with
  | nil => cases isOne
  | cons extent rest induction =>
      cases axis with
      | zero =>
          cases Option.some.inj isOne
          rw [List.eraseIdx_cons_zero, size, Nat.one_mul]
      | succ axis =>
          rw [List.eraseIdx_cons_succ, size, size, induction isOne]

/-- A coordinate along an axis of extent one does not move an element. -/
theorem offset_insertIdx_zero (isOne : shape[axis]? = some 1)
    (holds : Holds (shape.eraseIdx axis) index) :
    offset shape (index.insertIdx axis 0) = offset (shape.eraseIdx axis) index := by
  induction shape generalizing axis index with
  | nil => cases isOne
  | cons extent rest induction =>
      cases axis with
      | zero =>
          rw [List.insertIdx_zero, offset, Nat.zero_mul, Nat.zero_add, List.eraseIdx_cons_zero]
      | succ axis =>
          have isOne : rest[axis]? = some 1 := isOne
          obtain _ | ⟨_, inner⟩ := holds
          rw [List.insertIdx_succ_cons, List.eraseIdx_cons_succ, offset, offset,
            size_eraseIdx_one isOne, induction isOne inner]

/-- Axes are taken out of a shape from the last one listed to the first, and each is there when
its turn comes. -/
def TakesOut : List Nat → Shape → Prop
  | [], _ => True
  | axis :: rest, shape =>
      axis < (rest.foldr (fun axis shape => shape.eraseIdx axis) shape).length ∧
        TakesOut rest shape

instance decidableTakesOut : (axes : List Nat) → (shape : Shape) → Decidable (TakesOut axes shape)
  | [], _ => isTrue trivial
  | axis :: rest, shape =>
      have := decidableTakesOut rest shape
      inferInstanceAs (Decidable (axis <
        (rest.foldr (fun axis shape => shape.eraseIdx axis) shape).length ∧ TakesOut rest shape))

theorem TakesOut.length_eq (takesOut : TakesOut axes shape) :
    (axes.foldr (fun axis shape => shape.eraseIdx axis) shape).length + axes.length =
      shape.length := by
  induction axes with
  | nil => rfl
  | cons axis rest induction =>
      obtain ⟨inside, takesOut⟩ := takesOut
      have before := induction takesOut
      rw [List.foldr_cons, List.length_eraseIdx_of_lt inside, List.length_cons]
      omega

theorem takesOut_of_increasing (increasing : axes.Pairwise (· < ·))
    (present : ∀ axis ∈ axes, axis < shape.length) : TakesOut axes shape := by
  induction axes with
  | nil => trivial
  | cons axis rest induction =>
      obtain ⟨later, increasing⟩ := List.pairwise_cons.mp increasing
      obtain ⟨inside, present⟩ := List.forall_mem_cons.mp present
      refine ⟨?_, induction increasing present⟩
      have same : (rest.foldr (fun axis shape => shape.eraseIdx axis) shape)[axis]? = shape[axis]? :=
        getElem?_foldr_eraseIdx later
      rw [List.getElem?_eq_getElem inside] at same
      exact (List.getElem?_eq_some_iff.mp same).1

/-- The inferred shape lacks every listed axis once. -/
theorem length_of_squeezed (found : squeezed axes shape = .ok result) :
    result.length + axes.dedup.length = shape.length := by
  have present : ∀ axis ∈ axes.dedup, shape[axis]? = some 1 := fun axis member =>
    squeezed_extents found axis (List.mem_dedup.mp member)
  have distinct : squeezed axes.dedup shape = .ok result := by
    rw [← found, squeezed, squeezed, if_pos (by simpa using present),
      if_pos (by simpa using squeezed_extents found)]
    exact congrArg Except.ok (without_congr (fun axis => List.mem_dedup) shape 0)
  have takesOut : TakesOut (StableSort.sortBy id axes.dedup) shape :=
    takesOut_of_increasing (StableSort.pairwise_lt_sortBy axes.nodup_dedup) fun axis member =>
      (List.getElem?_eq_some_iff.mp (present axis (StableSort.mem_sortBy.mp member))).1
  have length_eq := takesOut.length_eq
  rw [squeezed_eq_ok axes.nodup_dedup distinct, StableSort.length_sortBy] at length_eq
  exact length_eq

/-- Taking out axes one after another gives the inferred rank only if no axis is repeated. -/
theorem nodup_of_length_eq (found : squeezed axes shape = .ok result)
    (takesOut : TakesOut (StableSort.sortBy id axes) shape)
    (equal : ((StableSort.sortBy id axes).foldr (fun axis shape => shape.eraseIdx axis)
      shape).length = result.length) : axes.Nodup := by
  have evaluated := takesOut.length_eq
  have inferred := length_of_squeezed found
  rw [StableSort.length_sortBy] at evaluated
  have whole : axes.dedup = axes := axes.dedup_sublist.eq_of_length (by omega)
  exact whole ▸ axes.nodup_dedup

end Shape

namespace NDArray

variable {array source : NDArray α} {shape : Shape} {axis : Nat} {axes : List Nat}

/-- An array has the elements of another one, in the same row-major order, under a shape. -/
structure HasElementsOf (array source : NDArray α) (shape : Shape) : Prop where
  shape_eq : array.shape = shape
  toList_eq : array.toList = source.toList

theorem reshape?_eq_some {reshaped : NDArray α} (found : array.reshape? shape = some reshaped) :
    shape.IsAddressable ∧ reshaped.HasElementsOf array shape := by
  unfold reshape? at found
  split at found
  case isTrue =>
    split at found
    case isTrue addressable =>
      cases Option.some.inj found
      exact ⟨addressable, rfl, rfl⟩
    case isFalse => cases found
  case isFalse => cases found

theorem toList_foldl_insertAxis (axes : List Nat) (array : NDArray α) :
    (axes.foldl insertAxis array).toList = array.toList := by
  induction axes generalizing array with
  | nil => rfl
  | cons axis rest induction => exact induction (array.insertAxis axis)

variable [Inhabited α]

theorem dropAxis_eq_withShape (isOne : array.shape[axis]? = some 1) :
    array.dropAxis axis =
      array.withShape (array.shape.eraseIdx axis) (Shape.size_eraseIdx_one isOne).symm := by
  refine ext_get rfl fun index holds => ?_
  have holds : Shape.Holds (array.shape.eraseIdx axis) index := holds
  rw [get_dropAxis holds, get, get, Shape.offset_insertIdx_zero isOne holds]
  rfl

theorem toList_foldr_dropAxis (increasing : axes.Pairwise (· < ·))
    (areOne : ∀ axis ∈ axes, array.shape[axis]? = some 1) :
    (axes.foldr (fun axis data => data.dropAxis axis) array).toList = array.toList := by
  induction axes with
  | nil => rfl
  | cons axis rest induction =>
      obtain ⟨later, increasing⟩ := List.pairwise_cons.mp increasing
      obtain ⟨isOne, areOne⟩ := List.forall_mem_cons.mp areOne
      have stays : (rest.foldr (fun axis data => data.dropAxis axis) array).shape[axis]? =
          some 1 := by
        rw [shape_foldr_dropAxis, Shape.getElem?_foldr_eraseIdx later, isOne]
      rw [List.foldr_cons, dropAxis_eq_withShape stays]
      exact induction increasing areOne

end NDArray

namespace Op

section

variable [Scalar α] {op : Op α} {data : NDArray α} {type out : ValueType} {types : List ValueType}
  {axes : List Nat} {shape : Shape} {integral : Bool} {others : List (NDArray α)}
  {feed : Option (NDArray α)}

theorem reshape_hasElements_iff (isType : type.shape = data.shape)
    (addressable : data.shape.IsAddressable)
    (inferred : (reshape shape : Op α).infer (type :: types) = .ok out) :
    (∃ value, (reshape shape).evaluate integral (data :: others) feed = .ok value ∧
      value.HasElementsOf data out.shape) ↔ out.shape.IsAddressable := by
  obtain ⟨dataType, read, inferred⟩ := Outcome.bind_eq_ok.mp inferred
  cases Except.ok.inj read
  split at inferred
  case isFalse => cases inferred
  case isTrue sizes =>
    cases Except.ok.inj inferred
    change _ ↔ shape.IsAddressable
    constructor
    · rintro ⟨value, evaluated, -⟩
      cases found : data.reshape? shape with
      | none =>
          simp only [evaluate, List.getElem?_cons_zero, bind, Except.bind, found] at evaluated
          cases evaluated
      | some reshaped => exact (NDArray.reshape?_eq_some found).1
    · intro isAddressable
      obtain ⟨value, found, _⟩ := exists_reshape (isType ▸ sizes) addressable isAddressable
      exact ⟨value, evaluate_reshape rfl found, (NDArray.reshape?_eq_some found).2⟩

/-- A squeeze loses elements, or at least axes, exactly when an axis is listed twice. -/
theorem squeeze_hasElements_iff (isType : type.shape = data.shape)
    (takesOut : ¬ axes.Nodup → data.shape.TakesOut (StableSort.sortBy id axes))
    (inferred : (squeeze axes : Op α).infer (type :: types) = .ok out) :
    (∃ value, (squeeze axes).evaluate integral (data :: others) feed = .ok value ∧
      value.HasElementsOf data out.shape) ↔ axes.Nodup := by
  obtain ⟨dataType, read, inferred⟩ := Outcome.bind_eq_ok.mp inferred
  cases Except.ok.inj read
  obtain ⟨squeezed, found, inferred⟩ := Outcome.bind_eq_ok.mp inferred
  cases Except.ok.inj inferred
  rw [isType] at found
  change (∃ value, _ ∧ NDArray.HasElementsOf value data squeezed) ↔ _
  constructor
  · rintro ⟨value, evaluated, shape_eq, -⟩
    by_contra repeated
    rw [evaluate_squeeze axes rfl] at evaluated
    cases Except.ok.inj evaluated
    rw [NDArray.shape_foldr_dropAxis] at shape_eq
    exact repeated
      (Shape.nodup_of_length_eq found (takesOut repeated) (congrArg List.length shape_eq))
  · intro distinct
    refine ⟨_, evaluate_squeeze axes rfl, ?_, ?_⟩
    · rw [NDArray.shape_foldr_dropAxis]
      exact Shape.squeezed_eq_ok distinct found
    · exact NDArray.toList_foldr_dropAxis (StableSort.pairwise_lt_sortBy distinct)
        fun axis member => Shape.squeezed_extents found axis (StableSort.mem_sortBy.mp member)

theorem unsqueeze_hasElements (isType : type.shape = data.shape)
    (inferred : (unsqueeze axes : Op α).infer (type :: types) = .ok out)
    (integral : Bool) (others : List (NDArray α)) (feed : Option (NDArray α)) :
    ∃ value, (unsqueeze axes).evaluate integral (data :: others) feed = .ok value ∧
      value.HasElementsOf data out.shape := by
  obtain ⟨dataType, read, inferred⟩ := Outcome.bind_eq_ok.mp inferred
  cases Except.ok.inj read
  obtain ⟨unsqueezed, found, inferred⟩ := Outcome.bind_eq_ok.mp inferred
  cases Except.ok.inj inferred
  exact ⟨_, evaluate_unsqueeze axes rfl, NDArray.shape_foldl_insertAxis (isType ▸ found),
    NDArray.toList_foldl_insertAxis _ data⟩

/-- An operation that only changes the shape of an array, and whose output can be inferred,
gives the elements of the array in their order under the inferred shape, except for a reshape
to a shape that cannot be addressed and for a squeeze that lists an axis twice and finds an
axis there each time. -/
theorem hasElements_iff (layout : op.kind ∈ [.reshape, .squeeze, .unsqueeze])
    (isType : type.shape = data.shape) (addressable : data.shape.IsAddressable)
    (inferred : op.infer (type :: types) = .ok out)
    (takesOut : ∀ axes, op = .squeeze axes → ¬ axes.Nodup →
      data.shape.TakesOut (StableSort.sortBy id axes))
    (integral : Bool) (others : List (NDArray α)) (feed : Option (NDArray α)) :
    (∃ value, op.evaluate integral (data :: others) feed = .ok value ∧
      value.HasElementsOf data out.shape) ↔
        (op.kind = .reshape → out.shape.IsAddressable) ∧
          ∀ axes, op = .squeeze axes → axes.Nodup := by
  cases op
  case reshape shape =>
    rw [reshape_hasElements_iff isType addressable inferred]
    simp [kind]
  case squeeze axes =>
    rw [squeeze_hasElements_iff isType (takesOut axes rfl) inferred]
    simp [kind]
  case unsqueeze axes =>
    have keeps := unsqueeze_hasElements isType inferred integral others feed
    simpa [kind] using keeps
  all_goals simp [kind] at layout

end

/-- The shape that inference accepts for a reshape need not be one that an array can have. -/
example : (reshape [0, 2 ^ 40, 2 ^ 40] : Op Rat).infer [⟨.f32, [0]⟩] =
      .ok ⟨.f32, [0, 2 ^ 40, 2 ^ 40]⟩ ∧
    (reshape [0, 2 ^ 40, 2 ^ 40]).evaluate false [(NDArray.replicate [0] 0 : NDArray Rat)] none =
      .error (.array .incompatible) := by
  exact ⟨rfl, by cbv⟩

/-- The numbers one to three along the middle one of three axes. -/
def middleAxis : NDArray Rat where
  shape := [1, 3, 1]
  data := #[1, 2, 3]
  size_data := rfl

/-- Both outer axes are taken out, the last one listed first. -/
theorem hasElements_outerAxes :
    (squeeze [2, 0] : Op Rat).kind ∈ [.reshape, .squeeze, .unsqueeze] ∧
    middleAxis.shape.IsAddressable ∧
    (squeeze [2, 0] : Op Rat).infer [⟨.f32, middleAxis.shape⟩] = .ok ⟨.f32, [3]⟩ ∧
    (∀ axes, (squeeze [2, 0] : Op Rat) = .squeeze axes → ¬ axes.Nodup →
      middleAxis.shape.TakesOut (StableSort.sortBy id axes)) ∧
    ∃ value, (squeeze [2, 0] : Op Rat).evaluate false [middleAxis] none = .ok value ∧
      value.HasElementsOf middleAxis [3] := by
  have listed : ∀ axes, (squeeze [2, 0] : Op Rat) = .squeeze axes → axes.Nodup := by
    intro axes equal
    cases equal
    decide
  have takesOut : ∀ axes, (squeeze [2, 0] : Op Rat) = .squeeze axes → ¬ axes.Nodup →
      middleAxis.shape.TakesOut (StableSort.sortBy id axes) :=
    fun axes equal repeated => absurd (listed axes equal) repeated
  have layout : (squeeze [2, 0] : Op Rat).kind ∈ [.reshape, .squeeze, .unsqueeze] := by decide
  have addressable : middleAxis.shape.IsAddressable := by decide
  have inferred : (squeeze [2, 0] : Op Rat).infer [⟨.f32, middleAxis.shape⟩] =
      .ok ⟨.f32, [3]⟩ := rfl
  refine ⟨layout, addressable, inferred, takesOut, ?_⟩
  exact (hasElements_iff layout rfl addressable inferred takesOut false [] none).mpr
    ⟨nofun, listed⟩

/-- With its first axis listed twice, an array of shape `[1, 3]` loses two of its three
elements, where inference foretells the shape `[3]`. -/
theorem squeeze_repeated_loses :
    let row : NDArray Rat := { shape := [1, 3], data := #[1, 2, 3], size_data := rfl }
    (squeeze [0, 0] : Op Rat).infer [⟨.f32, row.shape⟩] = .ok ⟨.f32, [3]⟩ ∧
      (squeeze [0, 0]).evaluate false [row] none = .ok (NDArray.scalar 1) ∧
      ¬ ∃ value, (squeeze [0, 0]).evaluate false [row] none = .ok value ∧
        value.HasElementsOf row [3] := by
  have evaluated : (squeeze [0, 0] : Op Rat).evaluate false
      [{ shape := [1, 3], data := #[1, 2, 3], size_data := rfl }] none =
        .ok (NDArray.scalar 1) := by decide
  refine ⟨rfl, evaluated, ?_⟩
  rintro ⟨value, isValue, hasElements⟩
  cases Except.ok.inj (evaluated.symm.trans isValue)
  cases hasElements.shape_eq

end Op

end QuantGraph
