import QuantGraph.NDArray
import QuantGraph.NDArray.Fault

namespace QuantGraph

/-! Operations that move elements without changing them: another shape over the
same elements, axes of extent one put in or taken out, axes reordered, and
arrays laid side by side. -/

namespace Shape

theorem size_insertIdx_one (shape : Shape) (axis : Nat) :
    size (shape.insertIdx axis 1) = size shape := by
  induction shape generalizing axis with
  | nil => cases axis <;> rfl
  | cons extent rest induction =>
      cases axis with
      | zero => simp [size]
      | succ axis => simp [size, induction]

/-- The order of axes is a rearrangement of all axes of a rank. -/
def IsAxisOrder (order : List Nat) (rank : Nat) : Prop :=
  order.Nodup ∧ order.length = rank ∧ ∀ axis ∈ order, axis < rank

instance (order : List Nat) (rank : Nat) : Decidable (IsAxisOrder order rank) :=
  inferInstanceAs (Decidable (_ ∧ _ ∧ _))

example : IsAxisOrder [2, 0, 1] 3 := by decide
example : ¬ IsAxisOrder [0, 0, 1] 3 := by decide

/-- The shape after its axes are reordered: axis `order[i]` becomes axis `i`. -/
def permute (shape : Shape) (order : List Nat) : Shape :=
  order.map fun axis => shape.getD axis 0

/-- The position before a reordering of axes that a position comes from. -/
def permutedIndex (order : List Nat) (index : Index) : Index :=
  (List.range order.length).map fun axis => index.getD (order.idxOf axis) 0

example : permute [2, 3, 4] [2, 0, 1] = [4, 2, 3] := by decide
example : permutedIndex [2, 0, 1] [3, 1, 2] = [1, 2, 3] := by decide

end Shape

namespace NDArray

/-- The same elements under another shape; nothing when the sizes differ or the
shape cannot be addressed. -/
def reshape? (array : NDArray α) (shape : Shape) : Option (NDArray α) :=
  if equal : array.shape.size = shape.size then
    if shape.IsAddressable then some (array.withShape shape equal) else none
  else none

/-- Put in an axis of extent one. -/
def insertAxis (array : NDArray α) (axis : Nat) : NDArray α :=
  array.withShape (array.shape.insertIdx axis 1) (Shape.size_insertIdx_one _ _).symm

variable [Inhabited α]

/-- Take out an axis, keeping the elements whose coordinate there is zero. -/
def dropAxis (array : NDArray α) (axis : Nat) : NDArray α :=
  ofFn (array.shape.eraseIdx axis) fun index => array.get (index.insertIdx axis 0)

/-- Reorder the axes: axis `order[i]` becomes axis `i`. -/
def permute (array : NDArray α) (order : List Nat) : NDArray α :=
  ofFn (array.shape.permute order) fun index => array.get (Shape.permutedIndex order index)

/-- The extent along an axis, zero for an axis that does not exist. -/
def extent (array : NDArray α) (axis : Nat) : Nat := array.shape.getD axis 0

/-- The element of arrays laid side by side along an axis, where `coordinate`
counts along that axis over all of them. -/
def elementAlong (axis : Nat) (index : Index) : List (NDArray α) → Nat → α
  | [], _ => default
  | array :: rest, coordinate =>
      if coordinate < array.extent axis then array.get (index.set axis coordinate)
      else elementAlong axis index rest (coordinate - array.extent axis)

/-- Lay arrays side by side along an axis. All other extents must agree. -/
def concatenate (axis : Nat) (arrays : List (NDArray α)) : Except ArrayFault (NDArray α) :=
  match arrays with
  | [] => .error .unsupported
  | first :: _ =>
      if first.shape.length ≤ axis then .error .outOfBounds
      else if arrays.all fun array =>
          array.shape.length == first.shape.length &&
            array.shape.eraseIdx axis == first.shape.eraseIdx axis then
        let total := (arrays.map fun array => array.extent axis).foldl (· + ·) 0
        let shape : Shape := first.shape.set axis total
        if shape.IsAddressable then
          .ok (ofFn shape fun index => elementAlong axis index arrays (index.getD axis 0))
        else .error .overflow
      else .error .incompatible

end NDArray

end QuantGraph
