import Mathlib.Data.List.Forall2
import QuantGraph.Shape

/-! Broadcasting as an order on shapes. A shape stretches to another when it agrees with it
on its last axes except where its own extent is one; the common shape of two arrays is the
least to which both stretch. Positions follow: stretching twice reads where stretching once
reads. -/

namespace QuantGraph

namespace Shape

/-! ## Axes from the last to the first -/

/-- Stretching of shapes whose last axis comes first. -/
def StretchesReversed : List Nat → List Nat → Prop
  | [], _ => True
  | _ :: _, [] => False
  | source :: sources, target :: targets =>
      (source = target ∨ source = 1) ∧ StretchesReversed sources targets

theorem broadcastExtent_eq_some {left right extent : Nat} :
    broadcastExtent left right = some extent ↔
      (left = extent ∨ left = 1) ∧ (right = extent ∨ right = 1) ∧
        (extent = left ∨ extent = right) := by
  unfold broadcastExtent
  grind

theorem exists_broadcastExtent {left right target : Nat} (leftStretches : left = target ∨ left = 1)
    (rightStretches : right = target ∨ right = 1) :
    ∃ extent, broadcastExtent left right = some extent := by
  unfold broadcastExtent
  split
  case isTrue => exact ⟨left, rfl⟩
  case isFalse =>
    split
    case isTrue => exact ⟨right, rfl⟩
    case isFalse =>
      split
      case isTrue => exact ⟨left, rfl⟩
      case isFalse => omega

theorem stretchesReversed_refl (shape : List Nat) : StretchesReversed shape shape := by
  induction shape with
  | nil => trivial
  | cons extent rest induction => exact ⟨Or.inl rfl, induction⟩

theorem StretchesReversed.trans {first second third : List Nat}
    (left : StretchesReversed first second) (right : StretchesReversed second third) :
    StretchesReversed first third := by
  induction first generalizing second third with
  | nil => trivial
  | cons extent rest induction =>
      cases second with
      | nil => cases left
      | cons extent' rest' =>
          cases third with
          | nil => cases right
          | cons extent'' rest'' =>
              refine ⟨?_, induction left.2 right.2⟩
              rcases left.1 with rfl | one
              · exact right.1
              · exact Or.inr one

theorem StretchesReversed.antisymm {left right : List Nat} (forth : StretchesReversed left right)
    (back : StretchesReversed right left) : left = right := by
  induction left generalizing right with
  | nil =>
      cases right with
      | nil => rfl
      | cons => cases back
  | cons extent rest induction =>
      cases right with
      | nil => cases forth
      | cons extent' rest' =>
          have same : extent = extent' := by
            rcases forth.1 with equal | one
            · exact equal
            · rcases back.1 with equal | one'
              · exact equal.symm
              · exact one.trans one'.symm
          rw [same, induction forth.2 back.2]

theorem broadcastReversed_least {left right shape : List Nat}
    (found : broadcastReversed left right = some shape) :
    StretchesReversed left shape ∧ StretchesReversed right shape ∧
      ∀ other, StretchesReversed left other → StretchesReversed right other →
        StretchesReversed shape other := by
  induction left, right using broadcastReversed.induct generalizing shape with
  | case1 right =>
      cases Option.some.inj found
      exact ⟨trivial, stretchesReversed_refl right, fun _ _ stretches => stretches⟩
  | case2 left =>
      have equal : left = shape := by cases left <;> exact Option.some.inj found
      subst equal
      exact ⟨stretchesReversed_refl left, trivial, fun _ stretches _ => stretches⟩
  | case3 left lefts right rights induction =>
      simp only [broadcastReversed, Option.bind_eq_bind, Option.bind_eq_some_iff] at found
      obtain ⟨extent, common, rest, tails, equal⟩ := found
      cases Option.some.inj equal
      obtain ⟨leftExtent, rightExtent, either⟩ := broadcastExtent_eq_some.mp common
      obtain ⟨leftRest, rightRest, least⟩ := induction tails
      refine ⟨⟨leftExtent, leftRest⟩, ⟨rightExtent, rightRest⟩, ?_⟩
      intro other leftOther rightOther
      cases other with
      | nil => cases leftOther
      | cons target targets =>
          refine ⟨?_, least targets leftOther.2 rightOther.2⟩
          rcases either with rfl | rfl
          · exact leftOther.1
          · exact rightOther.1

theorem exists_broadcastReversed {left right shape : List Nat}
    (leftStretches : StretchesReversed left shape)
    (rightStretches : StretchesReversed right shape) :
    ∃ common, broadcastReversed left right = some common := by
  induction left generalizing right shape with
  | nil => exact ⟨right, rfl⟩
  | cons extent rest induction =>
      cases right with
      | nil => exact ⟨extent :: rest, rfl⟩
      | cons extent' rest' =>
          cases shape with
          | nil => cases leftStretches
          | cons target targets =>
              obtain ⟨tails, found⟩ := induction leftStretches.2 rightStretches.2
              obtain ⟨head, isHead⟩ := exists_broadcastExtent leftStretches.1 rightStretches.1
              exact ⟨head :: tails, by simp [broadcastReversed, isHead, found]⟩

/-! ## Shapes -/

theorem stretchesTo_iff_reversed {source target : Shape} :
    source.StretchesTo target ↔ StretchesReversed source.reverse target.reverse := by
  unfold StretchesTo broadcast
  rw [Option.map_eq_some_iff]
  constructor
  · rintro ⟨common, found, equal⟩
    have same : common = target.reverse := by rw [← equal, List.reverse_reverse]
    exact same ▸ (broadcastReversed_least found).1
  · intro stretches
    obtain ⟨common, found⟩ := exists_broadcastReversed stretches (stretchesReversed_refl _)
    obtain ⟨_, back, least⟩ := broadcastReversed_least found
    have same := (least _ stretches (stretchesReversed_refl _)).antisymm back
    exact ⟨common, found, by rw [same, List.reverse_reverse]⟩

@[simp] theorem stretchesTo_refl (shape : Shape) : shape.StretchesTo shape :=
  stretchesTo_iff_reversed.mpr (stretchesReversed_refl _)

theorem StretchesTo.trans {first second third : Shape} (left : first.StretchesTo second)
    (right : second.StretchesTo third) : first.StretchesTo third :=
  stretchesTo_iff_reversed.mpr
    ((stretchesTo_iff_reversed.mp left).trans (stretchesTo_iff_reversed.mp right))

theorem StretchesTo.antisymm {left right : Shape} (forth : left.StretchesTo right)
    (back : right.StretchesTo left) : left = right :=
  List.reverse_injective
    ((stretchesTo_iff_reversed.mp forth).antisymm (stretchesTo_iff_reversed.mp back))

/-- What two shapes broadcast to is the least shape to which both stretch. -/
theorem broadcast_eq_some_iff {left right shape : Shape} :
    left.broadcast right = some shape ↔
      left.StretchesTo shape ∧ right.StretchesTo shape ∧
        ∀ other : Shape, left.StretchesTo other → right.StretchesTo other →
          shape.StretchesTo other := by
  have least {common : Shape} (found : left.broadcast right = some common) :
      left.StretchesTo common ∧ right.StretchesTo common ∧
        ∀ other : Shape, left.StretchesTo other → right.StretchesTo other →
          common.StretchesTo other := by
    obtain ⟨reversed, isReversed, rfl⟩ := Option.map_eq_some_iff.mp found
    obtain ⟨leftStretches, rightStretches, least⟩ := broadcastReversed_least isReversed
    simp only [stretchesTo_iff_reversed, List.reverse_reverse]
    exact ⟨leftStretches, rightStretches, fun other => least other.reverse⟩
  constructor
  · exact least
  · rintro ⟨leftStretches, rightStretches, smallest⟩
    obtain ⟨reversed, isReversed⟩ := exists_broadcastReversed
      (stretchesTo_iff_reversed.mp leftStretches) (stretchesTo_iff_reversed.mp rightStretches)
    have found : left.broadcast right = some reversed.reverse := by
      rw [broadcast, isReversed, Option.map_some]
    obtain ⟨leftCommon, rightCommon, small⟩ := least found
    rw [found, (small shape leftStretches rightStretches).antisymm
      (smallest _ leftCommon rightCommon)]

theorem StretchesTo.broadcast_eq {source target : Shape} (stretches : source.StretchesTo target) :
    target.broadcast source = some target :=
  broadcast_eq_some_iff.mpr ⟨stretchesTo_refl target, stretches, fun _ same _ => same⟩

theorem exists_broadcast {left right shape : Shape} (leftStretches : left.StretchesTo shape)
    (rightStretches : right.StretchesTo shape) :
    ∃ common, left.broadcast right = some common := by
  obtain ⟨reversed, found⟩ := exists_broadcastReversed
    (stretchesTo_iff_reversed.mp leftStretches) (stretchesTo_iff_reversed.mp rightStretches)
  exact ⟨reversed.reverse, by rw [broadcast, found, Option.map_some]⟩

/-! ## Positions -/

/-- A position lies inside a shape. -/
def Holds (shape : Shape) (index : Index) : Prop :=
  List.Forall₂ (fun extent coordinate => coordinate < extent) shape index

theorem Holds.length_eq {shape : Shape} {index : Index} (holds : shape.Holds index) :
    index.length = shape.length :=
  (List.Forall₂.length_eq holds).symm

theorem Holds.offset_lt {shape : Shape} {index : Index} (holds : shape.Holds index) :
    shape.offset index < shape.size := by
  induction holds with
  | nil => simp [offset, size]
  | @cons extent coordinate rest index below _ induction =>
      rw [offset, size]
      calc coordinate * size rest + offset rest index
          < coordinate * size rest + size rest := Nat.add_lt_add_left induction _
        _ = (coordinate + 1) * size rest := (Nat.succ_mul coordinate (size rest)).symm
        _ ≤ extent * size rest := Nat.mul_le_mul_right _ below

theorem holds_indexAt {shape : Shape} {number : Nat} (inside : number < shape.size) :
    shape.Holds (shape.indexAt number) := by
  induction shape generalizing number with
  | nil => exact List.Forall₂.nil
  | cons extent rest induction =>
      rw [size] at inside
      have positive : 0 < size rest := Nat.pos_of_lt_mul_left inside
      refine List.Forall₂.cons ?_ (induction (Nat.mod_lt number positive))
      exact (Nat.div_lt_iff_lt_mul positive).mpr inside

theorem offset_indexAt {shape : Shape} {number : Nat} (inside : number < shape.size) :
    shape.offset (shape.indexAt number) = number := by
  induction shape generalizing number with
  | nil =>
      rw [size] at inside
      exact (Nat.lt_one_iff.mp inside).symm
  | cons extent rest induction =>
      rw [size] at inside
      have positive : 0 < size rest := Nat.pos_of_lt_mul_left inside
      rw [indexAt, offset, induction (Nat.mod_lt number positive)]
      exact Nat.div_add_mod' number (size rest)

theorem Holds.indexAt_offset {shape : Shape} {index : Index} (holds : shape.Holds index) :
    shape.indexAt (shape.offset index) = index := by
  induction holds with
  | nil => rfl
  | @cons extent coordinate rest index below inside induction =>
      have bound := Holds.offset_lt inside
      have positive : 0 < size rest := Nat.zero_lt_of_lt bound
      rw [offset, indexAt, Nat.mul_comm coordinate, Nat.mul_add_div positive,
        Nat.div_eq_of_lt bound, Nat.mul_add_mod, Nat.mod_eq_of_lt bound, induction, Nat.add_zero]

/-! ## Stretched positions -/

theorem stretchesReversed_iff_append {source target : List Nat} :
    StretchesReversed source target ↔ ∃ inner outer, target = inner ++ outer ∧
      List.Forall₂ (fun extent extent' => extent = extent' ∨ extent = 1) source inner := by
  induction source generalizing target with
  | nil => exact ⟨fun _ => ⟨[], target, rfl, List.Forall₂.nil⟩, fun _ => trivial⟩
  | cons extent rest induction =>
      constructor
      · intro stretches
        cases target with
        | nil => cases stretches
        | cons target targets =>
            obtain ⟨inner, outer, rfl, each⟩ := induction.mp stretches.2
            exact ⟨target :: inner, outer, rfl, List.Forall₂.cons stretches.1 each⟩
      · rintro ⟨_, outer, rfl, _ | ⟨head, each⟩⟩
        exact ⟨head, induction.mpr ⟨_, outer, rfl, each⟩⟩

/-- A shape that stretches to another lines up with the last axes of it. -/
theorem stretchesTo_iff_append {source target : Shape} :
    source.StretchesTo target ↔ ∃ outer inner, target = outer ++ inner ∧
      List.Forall₂ (fun extent extent' => extent = extent' ∨ extent = 1) source inner := by
  rw [stretchesTo_iff_reversed, stretchesReversed_iff_append]
  constructor
  · rintro ⟨inner, outer, equal, each⟩
    refine ⟨outer.reverse, inner.reverse, ?_, ?_⟩
    · rw [← List.reverse_append, ← equal, List.reverse_reverse]
    · exact List.forall₂_reverse_iff.mp (by rwa [List.reverse_reverse])
  · rintro ⟨outer, inner, rfl, each⟩
    exact ⟨inner.reverse, outer.reverse, List.reverse_append, List.forall₂_reverse_iff.mpr each⟩

theorem size_append (outer inner : Shape) : size (outer ++ inner) = size outer * size inner := by
  induction outer with
  | nil => rw [List.nil_append, size, Nat.one_mul]
  | cons extent rest induction => rw [List.cons_append, size, size, induction, Nat.mul_assoc]

theorem size_filter_pos (shape : Shape) : 0 < size (shape.filter (· ≠ 0)) := by
  induction shape with
  | nil => exact Nat.one_pos
  | cons extent rest induction =>
      by_cases zero : extent = 0
      · simpa [zero] using induction
      · simpa [zero, size] using Nat.mul_pos (Nat.pos_of_ne_zero zero) induction

/-- Extents that are no larger, but for ones, make no more elements. -/
theorem size_filter_le {source inner : Shape}
    (each : List.Forall₂ (fun extent extent' => extent ≤ max 1 extent') source inner) :
    size (source.filter (· ≠ 0)) ≤ size (inner.filter (· ≠ 0)) := by
  have split (extent : Nat) (rest : Shape) :
      size ((extent :: rest).filter (· ≠ 0)) = max 1 extent * size (rest.filter (· ≠ 0)) := by
    by_cases zero : extent = 0
    · simp [zero]
    · have positive : 1 ≤ extent := Nat.one_le_iff_ne_zero.mpr zero
      simp [zero, size, Nat.max_eq_right positive]
  induction each with
  | nil => exact Nat.le_refl _
  | cons head _ induction =>
      rw [split, split]
      exact Nat.mul_le_mul (Nat.max_le.mpr ⟨Nat.le_max_left 1 _, head⟩) induction

theorem IsAddressable.of_le {source inner : Shape} (addressable : inner.IsAddressable)
    (each : List.Forall₂ (fun extent extent' => extent ≤ max 1 extent') source inner) :
    source.IsAddressable :=
  Nat.le_trans (size_filter_le each) addressable

/-- What stretches to a shape that can be addressed can be addressed. -/
theorem StretchesTo.isAddressable {source target : Shape} (stretches : source.StretchesTo target)
    (addressable : target.IsAddressable) : source.IsAddressable := by
  obtain ⟨outer, inner, rfl, each⟩ := stretchesTo_iff_append.mp stretches
  unfold IsAddressable at addressable ⊢
  rw [List.filter_append, size_append] at addressable
  have each' := each.imp fun extent extent' (equal : extent = extent' ∨ extent = 1) =>
    (show extent ≤ max 1 extent' by omega)
  calc size (source.filter (· ≠ 0)) ≤ size (inner.filter (· ≠ 0)) := size_filter_le each'
    _ ≤ size (outer.filter (· ≠ 0)) * size (inner.filter (· ≠ 0)) :=
        Nat.le_mul_of_pos_left _ (size_filter_pos outer)
    _ ≤ maxAddressable := addressable

/-- What has no axes stretches to every shape. -/
theorem nil_stretchesTo (target : Shape) : StretchesTo [] target :=
  stretchesTo_iff_append.mpr ⟨target, [], (List.append_nil target).symm, List.Forall₂.nil⟩

/-- The coordinate that is read along an axis of some extent. -/
def stretchedCoordinate (extent coordinate : Nat) : Nat := if extent = 1 then 0 else coordinate

theorem stretchedIndex_append {source : Shape} (outer : Index) {inner : Index}
    (lined : inner.length = source.length) :
    source.stretchedIndex (outer ++ inner) = List.zipWith stretchedCoordinate source inner := by
  have skipped : (outer ++ inner).length - source.length = outer.length := by
    rw [List.length_append]
    omega
  rw [stretchedIndex, skipped, List.drop_left]
  rfl

/-- A position inside the shape that another stretches to ends in coordinates for the axes
that line up. -/
theorem Holds.exists_append {outer inner : Shape} {index : Index}
    (holds : Holds (outer ++ inner) index) :
    ∃ first second, index = first ++ second ∧ outer.Holds first ∧ inner.Holds second := by
  refine ⟨index.take outer.length, index.drop outer.length, (List.take_append_drop _ _).symm, ?_, ?_⟩
  · exact (List.forall₂_take_append index outer inner holds.flip).flip
  · exact (List.forall₂_drop_append index outer inner holds.flip).flip

theorem holds_zipWith {source inner : Shape} {index : Index}
    (each : List.Forall₂ (fun extent extent' => extent = extent' ∨ extent = 1) source inner)
    (holds : inner.Holds index) :
    source.Holds (List.zipWith stretchedCoordinate source index) := by
  induction each generalizing index with
  | nil => exact List.Forall₂.nil
  | @cons extent extent' sources inners head _ induction =>
      cases holds with
      | cons below rest =>
          refine List.Forall₂.cons ?_ (induction rest)
          unfold stretchedCoordinate
          split <;> omega

/-- Where a position of the larger shape is read lies inside the smaller one. -/
theorem Holds.stretchedIndex {source target : Shape} {index : Index} (holds : target.Holds index)
    (stretches : source.StretchesTo target) : source.Holds (source.stretchedIndex index) := by
  obtain ⟨outer, inner, rfl, each⟩ := stretchesTo_iff_append.mp stretches
  obtain ⟨first, second, rfl, _, inside⟩ := holds.exists_append
  rw [stretchedIndex_append first (inside.length_eq.trans each.length_eq.symm)]
  exact holds_zipWith each inside

theorem zipWith_zipWith {source inner : Shape} {index : Index}
    (each : List.Forall₂ (fun extent extent' => extent = extent' ∨ extent = 1) source inner) :
    List.zipWith stretchedCoordinate source (List.zipWith stretchedCoordinate inner index) =
      List.zipWith stretchedCoordinate source index := by
  induction each generalizing index with
  | nil => rfl
  | @cons extent extent' sources inners head _ induction =>
      cases index with
      | nil => rfl
      | cons coordinate rest =>
          have same : stretchedCoordinate extent (stretchedCoordinate extent' coordinate) =
              stretchedCoordinate extent coordinate := by
            unfold stretchedCoordinate
            grind
          simp only [List.zipWith_cons_cons, same, induction]

/-- Stretching in two steps reads where stretching at once reads. -/
theorem stretchedIndex_stretchedIndex {source middle target : Shape} {index : Index}
    (inner : source.StretchesTo middle) (outer : middle.StretchesTo target)
    (holds : target.Holds index) :
    source.stretchedIndex (middle.stretchedIndex index) = source.stretchedIndex index := by
  obtain ⟨before, lined, rfl, each⟩ := stretchesTo_iff_append.mp inner
  obtain ⟨outermost, _, rfl, alike⟩ := stretchesTo_iff_append.mp outer
  obtain ⟨first, second, rfl, _, inside⟩ := holds.exists_append
  have second_length : second.length = (before ++ lined).length :=
    inside.length_eq.trans alike.length_eq.symm
  obtain ⟨skipped, read, rfl, skipped_length, read_length⟩ : ∃ skipped read,
      second = skipped ++ read ∧ before.length = skipped.length ∧ read.length = lined.length := by
    rw [List.length_append] at second_length
    refine ⟨second.take before.length, second.drop before.length,
      (List.take_append_drop _ _).symm, ?_, ?_⟩
    · rw [List.length_take]
      omega
    · rw [List.length_drop]
      omega
  have read_source : read.length = source.length := read_length.trans each.length_eq.symm
  have lined_source : (List.zipWith stretchedCoordinate lined read).length = source.length := by
    rw [List.length_zipWith, read_length, Nat.min_self, each.length_eq]
  rw [stretchedIndex_append first second_length, List.zipWith_append skipped_length,
    stretchedIndex_append _ lined_source, zipWith_zipWith each, ← List.append_assoc,
    stretchedIndex_append _ read_source]

/-- A position of a shape is read where it is. -/
theorem Holds.stretchedIndex_self {shape : Shape} {index : Index} (holds : shape.Holds index) :
    shape.stretchedIndex index = index := by
  have lined := stretchedIndex_append [] holds.length_eq
  rw [List.nil_append] at lined
  rw [lined]
  clear lined
  induction holds with
  | nil => rfl
  | @cons extent coordinate rest index below _ induction =>
      have same : stretchedCoordinate extent coordinate = coordinate := by
        unfold stretchedCoordinate
        split <;> omega
      rw [List.zipWith_cons_cons, same, induction]

end Shape

end QuantGraph
