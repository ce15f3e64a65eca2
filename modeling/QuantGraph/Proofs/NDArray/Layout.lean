import Mathlib
import QuantGraph.Proofs.NDArray.Closeness

/-! Moving elements about and changing every element come to the same in either order. The one
thing to see to is that a moved element is read inside of the array it comes from. -/

namespace QuantGraph

theorem StableSort.pairwise_lt_sortBy {axes : List Nat} (distinct : axes.Nodup) :
    (sortBy id axes).Pairwise (· < ·) := by
  have sorted : (sortBy id axes).Pairwise (· ≤ ·) := pairwise_sortBy id axes
  have nodup : (sortBy id axes).Nodup := (sortBy_perm id axes).nodup_iff.mpr distinct
  exact (sorted.and nodup).imp fun both => Nat.lt_of_le_of_ne both.1 both.2

namespace Shape

variable {shape : Shape} {index : Index} {order : List Nat} {axis rank extent coordinate : Nat}

/-- A position has one coordinate more where the array has one axis more. -/
theorem Holds.insertIdx (holds : Holds (shape.eraseIdx axis) index)
    (present : shape[axis]? = some extent) (inside : coordinate < extent) :
    shape.Holds (index.insertIdx axis coordinate) := by
  induction shape generalizing axis index with
  | nil => cases present
  | cons first rest induction =>
      cases axis with
      | zero =>
          cases Option.some.inj present
          exact List.Forall₂.cons inside holds
      | succ axis =>
          obtain _ | ⟨below, holds⟩ := holds
          exact List.Forall₂.cons below (induction holds present)

theorem holds_iff_getElem? : shape.Holds index ↔ shape.length = index.length ∧
    ∀ (axis : Nat) (extent coordinate : Nat), shape[axis]? = some extent →
      index[axis]? = some coordinate → coordinate < extent := by
  constructor
  · intro holds
    refine ⟨holds.length_eq.symm, fun axis extent coordinate isExtent isCoordinate => ?_⟩
    obtain ⟨below, rfl⟩ := List.getElem?_eq_some_iff.mp isCoordinate
    simpa [below] using holds.getD_lt isExtent
  · rintro ⟨length_eq, each⟩
    refine List.forall₂_iff_get.mpr ⟨length_eq, fun axis first second => ?_⟩
    exact each axis _ _ (List.getElem?_eq_getElem first) (List.getElem?_eq_getElem second)

theorem IsAxisOrder.mem (isOrder : IsAxisOrder order rank) (below : axis < rank) :
    axis ∈ order := by
  obtain ⟨nodup, length_eq, inside⟩ := isOrder
  have subset : order ⊆ List.range rank := fun axis member =>
    List.mem_range.mpr (inside axis member)
  have perm := (nodup.subperm subset).perm_of_length_le (by simp [length_eq])
  exact perm.mem_iff.mpr (List.mem_range.mpr below)

/-- A position of reordered axes comes from a position of the axes before. -/
theorem Holds.permutedIndex (isOrder : IsAxisOrder order shape.length)
    (holds : Holds (shape.permute order) index) :
    shape.Holds (Shape.permutedIndex order index) := by
  have length_eq : order.length = shape.length := isOrder.2.1
  refine holds_iff_getElem?.mpr ⟨by simp [Shape.permutedIndex, length_eq], ?_⟩
  intro axis extent coordinate isExtent isCoordinate
  have below : axis < shape.length := (List.getElem?_eq_some_iff.mp isExtent).1
  have listed := isOrder.mem below
  rw [Shape.permutedIndex, List.getElem?_map, List.getElem?_range (length_eq ▸ below),
    Option.map_some, Option.some.injEq] at isCoordinate
  rw [← isCoordinate]
  refine holds.getD_lt ?_
  rw [permute, List.getElem?_map, List.getElem?_idxOf listed, Option.map_some,
    List.getD_eq_getElem?_getD, isExtent, Option.getD_some]

/-- Taking out later axes leaves an axis where it is. -/
theorem getElem?_foldr_eraseIdx {axes : List Nat} (later : ∀ other ∈ axes, axis < other) :
    (axes.foldr (fun axis shape => shape.eraseIdx axis) shape)[axis]? = shape[axis]? := by
  induction axes with
  | nil => rfl
  | cons other axes induction =>
      obtain ⟨first, rest⟩ := List.forall_mem_cons.mp later
      rw [List.foldr_cons, List.getElem?_eraseIdx_of_lt first, induction rest]

theorem squeezed_extents {axes : List Nat} {result : Shape}
    (found : squeezed axes shape = .ok result) : ∀ axis ∈ axes, shape[axis]? = some 1 := by
  unfold squeezed at found
  split at found
  case isTrue each => simpa using each
  case isFalse => cases found

theorem isAxisOrder_of_transposed {result : Shape} (found : transposed order shape = .ok result) :
    IsAxisOrder order shape.length := by
  unfold transposed at found
  split at found
  case isTrue isOrder => exact isOrder
  case isFalse => cases found

end Shape

namespace NDArray

section Moving

variable {array : NDArray α} {transform : α → α} {order : List Nat} {axis : Nat}

theorem insertAxis_map (array : NDArray α) (transform : α → α) (axis : Nat) :
    (array.map transform).insertAxis axis = (array.insertAxis axis).map transform := rfl

theorem foldl_insertAxis_map (axes : List Nat) (array : NDArray α) (transform : α → α) :
    axes.foldl insertAxis (array.map transform) = (axes.foldl insertAxis array).map transform := by
  induction axes generalizing array with
  | nil => rfl
  | cons axis axes induction =>
      rw [List.foldl_cons, insertAxis_map, List.foldl_cons]
      exact induction (array.insertAxis axis)

theorem reshape?_map (array : NDArray α) (transform : α → α) (shape : Shape) :
    (array.map transform).reshape? shape = (array.reshape? shape).map (NDArray.map transform) := by
  unfold reshape?
  by_cases equal : array.shape.size = shape.size
  · rw [dif_pos equal, dif_pos (show (array.map transform).shape.size = _ from equal)]
    split <;> rfl
  · rw [dif_neg equal, dif_neg (show ¬ (array.map transform).shape.size = _ from equal)]
    rfl

variable [Inhabited α]

theorem get_dropAxis {index : Index} (holds : Shape.Holds (array.shape.eraseIdx axis) index) :
    (array.dropAxis axis).get index = array.get (index.insertIdx axis 0) := get_ofFn holds

theorem get_permute {index : Index} (holds : (array.shape.permute order).Holds index) :
    (array.permute order).get index = array.get (Shape.permutedIndex order index) := get_ofFn holds

theorem dropAxis_map (present : array.shape[axis]? = some 1) :
    (array.map transform).dropAxis axis = (array.dropAxis axis).map transform := by
  refine ext_get rfl fun index holds => ?_
  have holds : Shape.Holds (array.shape.eraseIdx axis) index := holds
  calc ((array.map transform).dropAxis axis).get index
      = (array.map transform).get (index.insertIdx axis 0) := get_dropAxis holds
    _ = transform (array.get (index.insertIdx axis 0)) :=
        get_map (holds.insertIdx present one_pos)
    _ = transform ((array.dropAxis axis).get index) := congrArg transform (get_dropAxis holds).symm
    _ = ((array.dropAxis axis).map transform).get index := (get_map holds).symm

theorem foldr_dropAxis_map {axes : List Nat} (increasing : axes.Pairwise (· < ·))
    (present : ∀ axis ∈ axes, array.shape[axis]? = some 1) :
    axes.foldr (fun axis data => data.dropAxis axis) (array.map transform) =
      (axes.foldr (fun axis data => data.dropAxis axis) array).map transform := by
  induction axes with
  | nil => rfl
  | cons axis axes induction =>
      obtain ⟨later, increasing⟩ := List.pairwise_cons.mp increasing
      obtain ⟨isOne, present⟩ := List.forall_mem_cons.mp present
      rw [List.foldr_cons, induction increasing present]
      refine dropAxis_map ?_
      rw [shape_foldr_dropAxis, Shape.getElem?_foldr_eraseIdx later, isOne]

theorem permute_map (isOrder : Shape.IsAxisOrder order array.shape.length) :
    (array.map transform).permute order = (array.permute order).map transform := by
  refine ext_get rfl fun index holds => ?_
  have holds : (array.shape.permute order).Holds index := holds
  calc ((array.map transform).permute order).get index
      = (array.map transform).get (Shape.permutedIndex order index) := get_permute holds
    _ = transform (array.get (Shape.permutedIndex order index)) :=
        get_map (holds.permutedIndex isOrder)
    _ = transform ((array.permute order).get index) := congrArg transform (get_permute holds).symm
    _ = ((array.permute order).map transform).get index := (get_map holds).symm

end Moving

end NDArray

end QuantGraph
