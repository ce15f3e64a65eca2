import Mathlib.Tactic.Tauto
import QuantGraph.Proofs.NDArray.Broadcasting
import QuantGraph.Proofs.NDArray.Shapes

/-! Broadcasting as a partial join. What two shapes broadcast to is the least shape to which both
stretch, so it does not matter in which order several shapes are broadcast, nor in which order
arrays of these shapes are combined: every operand is read at the same positions. -/

namespace QuantGraph

/-- An operation that gives the least upper bound of two values where they have an upper bound at
all. -/
structure IsPartialJoin (join : β → β → Option β) (least : β) : Prop where
  comm : ∀ first second, join first second = join second first
  least : ∀ value, join value least = some value
  idem : ∀ value, join value value = some value
  assoc : ∀ first second third, ((join first second).bind fun common => join common third) =
    (join second third).bind fun common => join first common
  absorb : ∀ first second common, join first second = some common →
    join first common = some common ∧ join second common = some common

namespace Shape

variable {shapes others : List Shape} {first second third common overall : Shape}

/-! ## The least common shape -/

/-- All of some shapes stretch to a shape, which itself stretches to every other of this kind. -/
structure IsLeastCommon (shapes : List Shape) (common : Shape) : Prop where
  stretches : ∀ shape ∈ shapes, shape.StretchesTo common
  least : ∀ target : Shape, (∀ shape ∈ shapes, shape.StretchesTo target) → common.StretchesTo target

theorem IsLeastCommon.of_same (least : IsLeastCommon shapes common)
    (same : ∀ shape, shape ∈ shapes ↔ shape ∈ others) : IsLeastCommon others common where
  stretches shape member := least.stretches shape ((same shape).mpr member)
  least target all := least.least target fun shape member => all shape ((same shape).mp member)

theorem isLeastCommon_congr (same : ∀ shape, shape ∈ shapes ↔ shape ∈ others) :
    IsLeastCommon shapes common ↔ IsLeastCommon others common :=
  ⟨fun least => least.of_same same, fun least => least.of_same fun shape => (same shape).symm⟩

theorem isLeastCommon_singleton (shape : Shape) : IsLeastCommon [shape] shape where
  stretches := by simp
  least := by simp

theorem IsLeastCommon.unique (left : IsLeastCommon shapes common)
    (right : IsLeastCommon shapes overall) : common = overall :=
  (left.least overall right.stretches).antisymm (right.least common left.stretches)

/-- To broadcast the least common shape of some shapes with one more is to broadcast them all. -/
theorem IsLeastCommon.broadcast_iff (least : IsLeastCommon shapes common) :
    common.broadcast third = some overall ↔ IsLeastCommon (third :: shapes) overall := by
  rw [broadcast_eq_some_iff]
  constructor
  · rintro ⟨fromCommon, fromThird, smallest⟩
    constructor
    · rw [List.forall_mem_cons]
      exact ⟨fromThird, fun shape member => (least.stretches shape member).trans fromCommon⟩
    · intro target all
      rw [List.forall_mem_cons] at all
      exact smallest target (least.least target all.2) all.1
  · rintro ⟨stretches, smallest⟩
    rw [List.forall_mem_cons] at stretches
    refine ⟨least.least overall stretches.2, stretches.1, fun target fromCommon fromThird => ?_⟩
    apply smallest target
    rw [List.forall_mem_cons]
    exact ⟨fromThird, fun shape member => (least.stretches shape member).trans fromCommon⟩

theorem broadcast_iff_isLeastCommon :
    first.broadcast second = some common ↔ IsLeastCommon [second, first] common :=
  (isLeastCommon_singleton first).broadcast_iff

theorem bind_broadcast_iff_isLeastCommon :
    ((first.broadcast second).bind fun common => common.broadcast third) = some overall ↔
      IsLeastCommon [third, second, first] overall := by
  rw [Option.bind_eq_some_iff]
  constructor
  · rintro ⟨common, found, extended⟩
    exact (broadcast_iff_isLeastCommon.mp found).broadcast_iff.mp extended
  · intro least
    obtain ⟨common, found⟩ := exists_broadcast (least.stretches first (by simp))
      (least.stretches second (by simp))
    exact ⟨common, found, (broadcast_iff_isLeastCommon.mp found).broadcast_iff.mpr least⟩

/-! ## The laws -/

theorem broadcast_assoc (first second third : Shape) :
    ((first.broadcast second).bind fun common => common.broadcast third) =
      (second.broadcast third).bind fun common => first.broadcast common := by
  have turned : ((second.broadcast third).bind fun common => first.broadcast common) =
      (second.broadcast third).bind fun common => common.broadcast first :=
    congrArg _ (funext fun common => broadcast_comm first common)
  apply Option.ext
  intro overall
  rw [turned, bind_broadcast_iff_isLeastCommon, bind_broadcast_iff_isLeastCommon]
  apply isLeastCommon_congr
  intro shape
  simp only [List.mem_cons, List.not_mem_nil, or_false]
  tauto

theorem isPartialJoin_broadcast : IsPartialJoin broadcast [] where
  comm := broadcast_comm
  least shape := (nil_stretchesTo shape).broadcast_eq
  idem := stretchesTo_refl
  assoc := broadcast_assoc
  absorb first second common found := by
    have least := broadcast_iff_isLeastCommon.mp found
    exact ⟨least.stretches first (by simp), least.stretches second (by simp)⟩

/-! ## Positions -/

/-- Three shapes broadcast to one in either grouping, and each of them is read at the same
positions whether it is stretched at once or in two steps. -/
structure Regroups (first second third overall : Shape) : Prop where
  exists_left : ∃ common, first.broadcast second = some common ∧
    common.broadcast third = some overall ∧ ∀ index, overall.Holds index →
      first.stretchedIndex (common.stretchedIndex index) = first.stretchedIndex index ∧
      second.stretchedIndex (common.stretchedIndex index) = second.stretchedIndex index
  exists_right : ∃ common, second.broadcast third = some common ∧
    first.broadcast common = some overall ∧ ∀ index, overall.Holds index →
      second.stretchedIndex (common.stretchedIndex index) = second.stretchedIndex index ∧
      third.stretchedIndex (common.stretchedIndex index) = third.stretchedIndex index

/-- What is broadcast first is read where it would be read if it were stretched at once. -/
theorem stretchedIndex_of_broadcast (inner : first.broadcast second = some common)
    (outer : common.StretchesTo overall) {index : Index} (holds : overall.Holds index) :
    first.stretchedIndex (common.stretchedIndex index) = first.stretchedIndex index ∧
      second.stretchedIndex (common.stretchedIndex index) = second.stretchedIndex index := by
  obtain ⟨fromFirst, fromSecond⟩ := isPartialJoin_broadcast.absorb first second common inner
  exact ⟨stretchedIndex_stretchedIndex fromFirst outer holds,
    stretchedIndex_stretchedIndex fromSecond outer holds⟩

theorem regroups_of_broadcast
    (found : ((first.broadcast second).bind fun common => common.broadcast third) = some overall) :
    first.Regroups second third overall where
  exists_left := by
    obtain ⟨common, inner, outer⟩ := Option.bind_eq_some_iff.mp found
    have stretches := (isPartialJoin_broadcast.absorb common third overall outer).1
    exact ⟨common, inner, outer, fun index => stretchedIndex_of_broadcast inner stretches⟩
  exists_right := by
    rw [broadcast_assoc] at found
    obtain ⟨common, inner, outer⟩ := Option.bind_eq_some_iff.mp found
    have stretches := (isPartialJoin_broadcast.absorb first common overall outer).2
    exact ⟨common, inner, outer, fun index => stretchedIndex_of_broadcast inner stretches⟩

end Shape

namespace NDArray

variable [Scalar α] {first second third folded result : NDArray α} {shape : Shape}

/-- Three arrays can be combined in either grouping, by whatever operations; the result has one
shape, and its element at a position is made of those that are read there. -/
structure Regroups (first second third : NDArray α) (shape : Shape) : Prop where
  exists_left : ∀ inner outer, ∃ folded result, combine inner first second = .ok folded ∧
    combine outer folded third = .ok result ∧ result.shape = shape ∧
    ∀ index, shape.Holds index → result.get index =
      outer.apply (inner.apply (first.read index) (second.read index)) (third.read index)
  exists_right : ∀ inner outer, ∃ folded result, combine inner second third = .ok folded ∧
    combine outer first folded = .ok result ∧ result.shape = shape ∧
    ∀ index, shape.Holds index → result.get index =
      outer.apply (first.read index) (inner.apply (second.read index) (third.read index))

/-- Arrays whose common shape stretches to one that can be addressed can be combined. -/
theorem exists_combine_of_broadcast (op : BinaryOp) {left right : NDArray α} {common : Shape}
    (found : left.shape.broadcast right.shape = some common) (stretches : common.StretchesTo shape)
    (addressable : shape.IsAddressable) :
    ∃ result, combine op left right = .ok result ∧ result.shape = common ∧
      ∀ index, shape.Holds index →
        result.read index = op.apply (left.read index) (right.read index) := by
  obtain ⟨fromLeft, fromRight⟩ := Shape.isPartialJoin_broadcast.absorb _ _ _ found
  obtain ⟨result, combined, _⟩ :=
    exists_read_combine op fromLeft fromRight (stretches.isAddressable addressable)
  obtain ⟨common', _, _⟩ := combine_eq_ok.mp combined
  cases Option.some.inj (found.symm.trans common')
  exact ⟨result, combined, rfl, fun index holds => read_combine combined stretches holds⟩

theorem regroups_of_broadcast
    (found : ((first.shape.broadcast second.shape).bind fun common =>
      common.broadcast third.shape) = some shape) (addressable : shape.IsAddressable) :
    first.Regroups second third shape where
  exists_left inner outer := by
    obtain ⟨common, isCommon, isOverall⟩ := Option.bind_eq_some_iff.mp found
    have stretches := (Shape.isPartialJoin_broadcast.absorb _ _ _ isOverall).1
    obtain ⟨folded, folds, rfl, read_folded⟩ :=
      exists_combine_of_broadcast inner isCommon stretches addressable
    obtain ⟨result, combined, rfl, read_result⟩ :=
      exists_combine_of_broadcast outer isOverall (Shape.stretchesTo_refl shape) addressable
    refine ⟨folded, result, folds, combined, rfl, fun index holds => ?_⟩
    rw [← read_eq_get holds, read_result index holds, read_folded index holds]
  exists_right inner outer := by
    rw [Shape.broadcast_assoc] at found
    obtain ⟨common, isCommon, isOverall⟩ := Option.bind_eq_some_iff.mp found
    have stretches := (Shape.isPartialJoin_broadcast.absorb _ _ _ isOverall).2
    obtain ⟨folded, folds, rfl, read_folded⟩ :=
      exists_combine_of_broadcast inner isCommon stretches addressable
    obtain ⟨result, combined, rfl, read_result⟩ :=
      exists_combine_of_broadcast outer isOverall (Shape.stretchesTo_refl shape) addressable
    refine ⟨folded, result, folds, combined, rfl, fun index holds => ?_⟩
    rw [← read_eq_get holds, read_result index holds, read_folded index holds]

theorem regroups_of_combine_left {inner outer : BinaryOp}
    (folds : combine inner first second = .ok folded)
    (combined : combine outer folded third = .ok result) :
    first.Regroups second third result.shape := by
  obtain ⟨isCommon, _, _⟩ := combine_eq_ok.mp folds
  obtain ⟨isOverall, addressable, _⟩ := combine_eq_ok.mp combined
  exact regroups_of_broadcast (Option.bind_eq_some_iff.mpr ⟨_, isCommon, isOverall⟩) addressable

theorem regroups_of_combine_right {inner outer : BinaryOp}
    (folds : combine inner second third = .ok folded)
    (combined : combine outer first folded = .ok result) :
    first.Regroups second third result.shape := by
  obtain ⟨isCommon, _, _⟩ := combine_eq_ok.mp folds
  obtain ⟨isOverall, addressable, _⟩ := combine_eq_ok.mp combined
  refine regroups_of_broadcast ?_ addressable
  rw [Shape.broadcast_assoc]
  exact Option.bind_eq_some_iff.mpr ⟨_, isCommon, isOverall⟩

/-- Broadcasting is a partial join with the shape without axes as its least element, so shapes that
broadcast together do so in either grouping; and as soon as three arrays can be combined in one
grouping, they can in the other, to an array of the same shape and from the same elements. -/
theorem broadcast_regroups :
    IsPartialJoin Shape.broadcast [] ∧
    (∀ first second third overall : Shape,
      ((first.broadcast second).bind fun common => common.broadcast third) = some overall →
        first.Regroups second third overall) ∧
    (∀ (first second third folded result : NDArray α) (inner outer : BinaryOp),
      combine inner first second = .ok folded → combine outer folded third = .ok result →
        first.Regroups second third result.shape) ∧
    ∀ (first second third folded result : NDArray α) (inner outer : BinaryOp),
      combine inner second third = .ok folded → combine outer first folded = .ok result →
        first.Regroups second third result.shape := by
  refine ⟨Shape.isPartialJoin_broadcast, ?_, ?_, ?_⟩
  · intro first second third overall found
    exact Shape.regroups_of_broadcast found
  · intro first second third folded result inner outer folds combined
    exact regroups_of_combine_left folds combined
  · intro first second third folded result inner outer folds combined
    exact regroups_of_combine_right folds combined

end NDArray

end QuantGraph
