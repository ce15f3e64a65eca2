import Mathlib
import QuantGraph.Proofs.NDArray.Reading
import QuantGraph.Proofs.Quantization.Levels
import QuantGraph.Scalar.Exact
import QuantGraph.Tensor.Folding

/-! Rounding a tensor into an element type: it keeps the shape, it moves no element as far as the
tolerance, and what the type can hold it leaves alone. -/

namespace QuantGraph

/-- The values that an element type can hold: all of them for a real type, the integers between its
bounds for an integral one. -/
def ElementType.Represents (type : ElementType) (value : Rat) : Prop :=
  ∀ low high, type.integerBounds = some (low, high) →
    ∃ number : Int, value = number ∧ low ≤ number ∧ number ≤ high

namespace ElementType

variable {type : ElementType} {value : Rat}

theorem convert_of_represents (represents : type.Represents value) : type.convert value = value := by
  cases bounded : type.integerBounds with
  | none =>
      apply convert_of_isReal
      cases type <;> first | rfl | cases bounded
  | some limits =>
      obtain ⟨low, high⟩ := limits
      obtain ⟨number, rfl, above, below⟩ := represents low high bounded
      apply convert_intCast
      intro low' high' bounded'
      cases bounded.symm.trans bounded'
      exact ⟨above, below⟩

end ElementType

namespace NDArray

theorem map_eq_self {array : NDArray α} {transform : α → α}
    (fixed : ∀ value ∈ array.toList, transform value = value) : array.map transform = array := by
  apply NDArray.ext
  · rfl
  · change array.data.map transform = array.data
    rw [Array.map_congr_left fun value member => fixed value (Array.mem_toList_iff.mpr member),
      Array.map_id']

end NDArray

namespace Tensor

section General

variable [Scalar α] (tensor : Tensor α) (target : ElementType) (tolerance : α)

/-- Rounding gives a conversion that stays within the tolerance, or else the tensor itself. -/
theorem roundWithTolerance_cases :
    (∃ offset, tensor.roundWithTolerance target tolerance = tensor.convertShifted target offset ∧
      tensor.isWithin (tensor.convertShifted target offset) tolerance = true) ∨
      tensor.roundWithTolerance target tolerance = tensor := by
  unfold roundWithTolerance
  dsimp only
  cases found : (roundingOffsets.map (tensor.convertShifted target)).find? fun candidate =>
      tensor.isWithin candidate tolerance with
  | none => exact Or.inr rfl
  | some candidate =>
      obtain ⟨offset, _, rfl⟩ := List.mem_map.mp (List.mem_of_find?_eq_some found)
      have within := @List.find?_some _ (fun candidate => tensor.isWithin candidate tolerance) _ _ found
      exact Or.inl ⟨offset, rfl, within⟩

theorem shape_roundWithTolerance :
    (tensor.roundWithTolerance target tolerance).values.shape = tensor.values.shape := by
  rcases tensor.roundWithTolerance_cases target tolerance with ⟨offset, rounded, _⟩ | rounded
  · rw [rounded]
    rfl
  · rw [rounded]

variable {tensor tolerance}

/-- Of two tensors that are within a tolerance, every element is. -/
theorem abs_sub_lt_of_isWithin {candidate : Tensor α} {index : Index}
    (within : tensor.isWithin candidate tolerance = true)
    (shape_eq : candidate.values.shape = tensor.values.shape)
    (holds : tensor.values.shape.Holds index) :
    Scalar.abs (candidate.values.get index - tensor.values.get index) < tolerance := by
  have inside := NDArray.offset_lt_size_data holds
  have inside' := NDArray.offset_lt_size_data (shape_eq ▸ holds)
  rw [NDArray.get_eq_getElem inside, NDArray.get_eq_getElem inside']
  have all := List.all_eq_true.mp within
  simp only [Prod.forall, decide_eq_true_eq] at all
  apply all
  have position : tensor.values.shape.offset index <
      (candidate.toList.zip tensor.toList).length := by
    rw [shape_eq] at inside'
    simp only [toList, NDArray.toList, List.length_zip, Array.length_toList]
    exact Nat.lt_min.mpr ⟨inside', inside⟩
  have member := List.getElem_mem position
  simpa only [toList, NDArray.toList, List.getElem_zip, Array.getElem_toList, shape_eq] using member

end General

section Exact

variable {tensor : Tensor Rat} {target : ElementType} {tolerance : Rat}

/-- Rounding moves every element by less than the tolerance. -/
theorem abs_roundWithTolerance_sub_lt {index : Index} (positive : 0 < tolerance)
    (holds : tensor.values.shape.Holds index) :
    |(tensor.roundWithTolerance target tolerance).values.get index - tensor.values.get index| <
      tolerance := by
  rcases tensor.roundWithTolerance_cases target tolerance with ⟨offset, rounded, within⟩ | rounded
  · rw [rounded, ← Exact.abs_eq]
    exact abs_sub_lt_of_isWithin within rfl holds
  · rw [rounded, sub_self, abs_zero]
    exact positive

/-- What the type can hold is left alone. -/
theorem roundWithTolerance_of_represents (positive : 0 < tolerance)
    (represents : ∀ value ∈ tensor.toList, target.Represents value) :
    tensor.roundWithTolerance target tolerance = tensor.withElementType target := by
  have unshifted : tensor.convertShifted target 0 = tensor.withElementType target := by
    have same : (tensor.values.map (· + 0)).map target.convert = tensor.values := by
      have sum : tensor.values.map (· + 0) = tensor.values :=
        NDArray.map_eq_self fun value _ => add_zero value
      rw [sum]
      exact NDArray.map_eq_self fun value member =>
        ElementType.convert_of_represents (represents value member)
    exact congrArg (Tensor.mk target) same
  have within : tensor.isWithin (tensor.withElementType target) tolerance = true := by
    apply List.all_eq_true.mpr
    intro pair member
    obtain ⟨position, inside, rfl⟩ := List.getElem_of_mem member
    have same : (tensor.withElementType target).toList = tensor.toList := rfl
    simp only [same, List.getElem_zip, sub_self, decide_eq_true_eq, Exact.abs_eq, abs_zero]
    exact positive
  unfold roundWithTolerance roundingOffsets
  simp only [List.map_cons, List.find?_cons, unshifted, within, Option.getD_some]

end Exact

end Tensor

end QuantGraph
