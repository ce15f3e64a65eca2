import QuantGraph.Proofs.Outcome
import QuantGraph.Proofs.Shape.Stretching
import QuantGraph.Tensor.Folding

/-! Arrays through their elements. Two arrays of one shape are equal when they are equal at
every position, and an operation on two arrays, read at a position of any shape to which its
result stretches, is the operation on what is read from each of them. -/

namespace QuantGraph

namespace NDArray

section Elements

variable [Inhabited α] {array : NDArray α} {shape : Shape} {index : Index}

omit [Inhabited α] in
theorem offset_lt_size_data (holds : array.shape.Holds index) :
    array.shape.offset index < array.data.size := by
  rw [array.size_data]
  exact holds.offset_lt

theorem get_eq_getElem (inside : array.shape.offset index < array.data.size) :
    array.get index = array.data[array.shape.offset index] := by
  rw [get, Array.getD_eq_getD_getElem?, Array.getElem?_eq_getElem inside, Option.getD_some]

theorem get_ofFn {element : Index → α} (holds : shape.Holds index) :
    (ofFn shape element).get index = element index := by
  rw [get_eq_getElem (offset_lt_size_data holds)]
  simp only [ofFn, Array.getElem_ofFn, holds.indexAt_offset]

theorem get_map [Inhabited β] {transform : α → β} (holds : array.shape.Holds index) :
    (array.map transform).get index = transform (array.get index) := by
  have mapped : (array.map transform).shape.Holds index := holds
  rw [get_eq_getElem (offset_lt_size_data mapped), get_eq_getElem (offset_lt_size_data holds)]
  simp only [map, Array.getElem_map]

theorem get_mapNumbered [Inhabited β] {transform : Nat → α → β}
    (holds : array.shape.Holds index) :
    (array.mapNumbered transform).get index =
      transform (array.shape.offset index) (array.get index) := by
  have mapped : (array.mapNumbered transform).shape.Holds index := holds
  rw [get_eq_getElem (offset_lt_size_data mapped), get_eq_getElem (offset_lt_size_data holds)]
  simp only [mapNumbered, Array.getElem_mapIdx]

theorem ext_get {left right : NDArray α} (shapes : left.shape = right.shape)
    (same : ∀ index, left.shape.Holds index → left.get index = right.get index) :
    left = right := by
  have sizes : left.data.size = right.data.size := by
    rw [left.size_data, right.size_data, shapes]
  refine NDArray.ext shapes (Array.ext sizes fun number below _ => ?_)
  rw [left.size_data] at below
  have holds := Shape.holds_indexAt below
  have equal := same _ holds
  rw [get_eq_getElem (offset_lt_size_data holds), get_eq_getElem (offset_lt_size_data (shapes ▸ holds))] at equal
  simpa only [← shapes, Shape.offset_indexAt below] using equal

end Elements

section Reading

variable [Inhabited α] {array : NDArray α} {target : Shape} {index : Index}

/-- The element that is read at a position of a shape to which an array stretches. -/
def read (array : NDArray α) (index : Index) : α := array.get (array.shape.stretchedIndex index)

theorem read_eq_get (holds : array.shape.Holds index) : array.read index = array.get index := by
  rw [read, holds.stretchedIndex_self]

theorem read_map [Inhabited β] {transform : α → β} (stretches : array.shape.StretchesTo target)
    (holds : target.Holds index) : (array.map transform).read index = transform (array.read index) :=
  get_map (holds.stretchedIndex stretches)

theorem read_scalar (value : α) (index : Index) : (scalar value).read index = value := rfl

/-- Reading an array that is stretched first changes nothing. -/
theorem read_stretchedIndex {middle : Shape} (inner : array.shape.StretchesTo middle)
    (outer : middle.StretchesTo target) (holds : target.Holds index) :
    array.read (middle.stretchedIndex index) = array.read index := by
  rw [read, read, Shape.stretchedIndex_stretchedIndex inner outer holds]

end Reading

section Combining

variable [Scalar α] {op : BinaryOp} {left right result : NDArray α} {target : Shape}
  {index : Index}

theorem combine_eq_ok :
    combine op left right = .ok result ↔
      left.shape.broadcast right.shape = some result.shape ∧ result.shape.IsAddressable ∧
        ∀ index, result.shape.Holds index →
          result.get index = op.apply (left.read index) (right.read index) := by
  unfold combine zipWith?
  cases common : left.shape.broadcast right.shape with
  | none => simp
  | some shape =>
      rw [Option.map_some]
      dsimp only
      constructor
      · intro combined
        split at combined
        case isTrue addressable =>
          cases Except.ok.inj combined
          exact ⟨rfl, addressable, fun index holds => get_ofFn holds⟩
        case isFalse => cases combined
      · rintro ⟨equal, addressable, each⟩
        have shape_eq : shape = result.shape := Option.some.inj equal
        subst shape_eq
        have same : ofFn result.shape (fun index => op.apply
            (left.get (left.shape.stretchedIndex index))
            (right.get (right.shape.stretchedIndex index))) = result := by
          refine ext_get rfl fun index holds => ?_
          have inside : result.shape.Holds index := holds
          rw [get_ofFn inside, each index inside]
          rfl
        rw [same]
        exact if_pos addressable

theorem stretchesTo_of_combine (combined : combine op left right = .ok result) :
    left.shape.StretchesTo result.shape ∧ right.shape.StretchesTo result.shape := by
  have common := Shape.broadcast_eq_some_iff.mp (combine_eq_ok.mp combined).1
  exact ⟨common.1, common.2.1⟩

theorem read_combine (combined : combine op left right = .ok result)
    (stretches : result.shape.StretchesTo target) (holds : target.Holds index) :
    result.read index = op.apply (left.read index) (right.read index) := by
  obtain ⟨leftStretches, rightStretches⟩ := stretchesTo_of_combine combined
  have inside := holds.stretchedIndex stretches
  rw [read, (combine_eq_ok.mp combined).2.2 _ inside, read_stretchedIndex leftStretches stretches holds,
    read_stretchedIndex rightStretches stretches holds]

/-- Two arrays that stretch to a shape that can be addressed can be combined, and so can
what comes of them. -/
theorem exists_read_combine (op : BinaryOp) (leftStretches : left.shape.StretchesTo target)
    (rightStretches : right.shape.StretchesTo target) (addressable : target.IsAddressable) :
    ∃ result, combine op left right = .ok result ∧ left.shape.StretchesTo result.shape ∧
      right.shape.StretchesTo result.shape ∧ result.shape.StretchesTo target ∧
      ∀ index, target.Holds index →
        result.read index = op.apply (left.read index) (right.read index) := by
  obtain ⟨shape, common⟩ := Shape.exists_broadcast leftStretches rightStretches
  obtain ⟨fromLeft, fromRight, least⟩ := Shape.broadcast_eq_some_iff.mp common
  have stretches := least target leftStretches rightStretches
  let result : NDArray α := .ofFn shape fun index => op.apply (left.read index) (right.read index)
  have combined : combine op left right = .ok result :=
    combine_eq_ok.mpr ⟨common, stretches.isAddressable addressable, fun _ inside => get_ofFn inside⟩
  exact ⟨result, combined, fromLeft, fromRight, stretches,
    fun _ holds => read_combine combined stretches holds⟩

end Combining

end NDArray

end QuantGraph
