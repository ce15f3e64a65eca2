import Mathlib.Algebra.Ring.Nat
import QuantGraph.Graph.Inference
import QuantGraph.NDArray.Reduction
import QuantGraph.Proofs.Graph.Slots
import QuantGraph.Proofs.Outcome
import QuantGraph.FakeQuantize

/-! The arrays that the operations make have the shapes that are foretold from the shapes
of their operands. -/

namespace QuantGraph

namespace Shape

/-! ## Sizes -/

theorem size_eq_zero {shape : Shape} (member : 0 ∈ shape) : size shape = 0 := by
  induction shape with
  | nil => cases member
  | cons extent rest induction =>
      rcases List.mem_cons.mp member with equal | member
      · rw [size, ← equal, Nat.zero_mul]
      · rw [size, induction member, Nat.mul_zero]

theorem IsAddressable.size_le {shape : Shape} (addressable : shape.IsAddressable) :
    size shape ≤ maxAddressable := by
  by_cases member : 0 ∈ shape
  · rw [size_eq_zero member]
    exact Nat.zero_le _
  · have whole : shape.filter (· ≠ 0) = shape := by
      refine List.filter_eq_self.mpr fun extent listed => ?_
      simpa using fun equal : extent = 0 => member (equal ▸ listed)
    rw [IsAddressable, whole] at addressable
    exact addressable

/-- Extents that are kept modulo `2 ^ 64` are kept exactly as long as they are sizes of
arrays. -/
theorem IsAddressable.size_eq {left right : Shape} (leftAddressable : left.IsAddressable)
    (rightAddressable : right.IsAddressable) (equal : kept left.size = kept right.size) :
    left.size = right.size := by
  have leftBound := leftAddressable.size_le
  have rightBound := rightAddressable.size_le
  unfold kept at equal
  unfold maxAddressable at leftBound rightBound
  omega

/-! ## Broadcasting -/

theorem broadcastExtent_comm (left right : Nat) :
    broadcastExtent left right = broadcastExtent right left := by
  grind [broadcastExtent]

theorem broadcastReversed_comm (left right : List Nat) :
    broadcastReversed left right = broadcastReversed right left := by
  induction left, right using broadcastReversed.induct with
  | case1 right => cases right <;> rfl
  | case2 left => cases left <;> rfl
  | case3 left lefts right rights induction =>
      rw [broadcastReversed, broadcastReversed, broadcastExtent_comm, induction]

theorem broadcast_comm (left right : Shape) : broadcast left right = broadcast right left := by
  rw [broadcast, broadcast, broadcastReversed_comm]

/-! ## Side by side -/

theorem getD_set_self {shape : Shape} {axis : Nat} (inside : axis < shape.length) (extent : Nat) :
    (shape.set axis extent).getD axis 0 = extent := by
  simp [inside]

theorem set_getD_self {shape : Shape} {axis : Nat} (inside : axis < shape.length) :
    shape.set axis (shape.getD axis 0) = shape := by
  simp [inside]

/-- Laying shapes side by side changes no axis but one, on which the extents add up. -/
theorem concatenated_eq_ok {axis : Nat} {first : Shape} {others : List Shape} {shape : Shape}
    (found : concatenated axis first others = .ok shape)
    (bound : ((first :: others).map fun shape => shape.getD axis 0).sum < 18446744073709551616) :
    axis < first.length ∧
      (∀ other ∈ others, other.length = first.length ∧
        other.eraseIdx axis = first.eraseIdx axis) ∧
      shape = first.set axis ((first :: others).map fun shape => shape.getD axis 0).sum := by
  unfold concatenated at found
  split at found
  case isTrue => cases found
  case isFalse outside =>
    have inside : axis < first.length := Nat.lt_of_not_le outside
    clear outside
    refine ⟨inside, ?_⟩
    induction others generalizing first with
    | nil =>
        refine ⟨by simp, (Except.ok.inj found).symm.trans ?_⟩
        rw [List.map_singleton, List.sum_singleton, set_getD_self inside]
    | cons other rest induction =>
        rw [List.foldlM_cons] at found
        obtain ⟨middle, joined, found⟩ := Outcome.bind_eq_ok.mp found
        split at joined
        case isFalse => cases joined
        case isTrue fits =>
          cases Except.ok.inj joined
          rw [List.map_cons, List.map_cons, List.sum_cons, List.sum_cons, ← Nat.add_assoc] at bound ⊢
          rw [kept, Nat.mod_eq_of_lt (by omega)] at found
          have joined_bound := bound
          rw [← getD_set_self inside (first.getD axis 0 + other.getD axis 0)] at joined_bound
          obtain ⟨each, shape_eq⟩ := induction joined_bound found (by simpa using inside)
          rw [List.map_cons, List.sum_cons, getD_set_self inside, List.set_set] at shape_eq
          refine ⟨?_, shape_eq⟩
          intro shape member
          rcases List.mem_cons.mp member with rfl | member
          · exact ⟨fits.1.symm, fits.2.symm⟩
          · have parts := each shape member
            rw [List.length_set, List.eraseIdx_set_eq] at parts
            exact parts

/-- Shapes that agree on all axes but one differ by the extent there. -/
theorem eq_set_getD {shape other : Shape} {axis : Nat} (length_eq : other.length = shape.length)
    (alike : other.eraseIdx axis = shape.eraseIdx axis) :
    other = shape.set axis (other.getD axis 0) := by
  induction shape generalizing other axis with
  | nil => exact List.length_eq_zero_iff.mp length_eq
  | cons extent rest induction =>
      obtain ⟨extent', rest', rfl⟩ := List.exists_cons_of_length_eq_add_one length_eq
      cases axis with
      | zero =>
          rw [List.eraseIdx_cons_zero, List.eraseIdx_cons_zero] at alike
          rw [alike]
          rfl
      | succ axis =>
          obtain ⟨same, alike⟩ := List.cons.inj alike
          have equal := induction (by simpa using length_eq) alike
          rw [same, List.set_cons_succ, List.getD_cons_succ, ← equal]

/-! ## Axes taken out and put in -/

/-- The extents whose axis, counted from `start`, is not among some axes. -/
def without (axes : List Nat) (shape : Shape) (start : Nat) : Shape :=
  ((shape.zipIdx start).filter fun entry => !axes.contains entry.2).map Prod.fst

theorem without_cons (axes : List Nat) (extent : Nat) (rest : Shape) (start : Nat) :
    without axes (extent :: rest) start =
      if start ∈ axes then without axes rest (start + 1)
      else extent :: without axes rest (start + 1) := by
  by_cases member : start ∈ axes <;> simp [without, member]

theorem without_cons_of_lt {axis start : Nat} (axes : List Nat) (shape : Shape)
    (below : axis < start) : without (axis :: axes) shape start = without axes shape start := by
  refine congrArg (List.map Prod.fst) (List.filter_congr fun entry member => ?_)
  have bound := (List.mem_zipIdx member).1
  have different : entry.2 ≠ axis := by omega
  simp [different]

theorem eraseIdx_without {axes : List Nat} {axis start : Nat} (shape : Shape)
    (above : ∀ other ∈ axes, start + axis < other) :
    (without axes shape start).eraseIdx axis = without ((start + axis) :: axes) shape start := by
  induction shape generalizing axis start with
  | nil => rfl
  | cons extent rest induction =>
      have absent : start ∉ axes := fun member => by
        have := above start member
        omega
      rw [without_cons, if_neg absent, without_cons]
      cases axis with
      | zero =>
          have unchanged := without_cons_of_lt axes rest (Nat.lt_succ_self start)
          simp only [Nat.add_zero, List.mem_cons, true_or, if_true, List.eraseIdx_cons_zero]
          exact unchanged.symm
      | succ axis =>
          have shifted : start + (axis + 1) = start + 1 + axis := by omega
          rw [shifted] at above ⊢
          have absent : start ∉ (start + 1 + axis) :: axes := by
            rw [List.mem_cons, not_or]
            exact ⟨by omega, absent⟩
          rw [if_neg absent, List.eraseIdx_cons_succ, induction above]

/-- Of axes in increasing order, the last is taken out first, so that the others are still
where they were. -/
theorem foldr_eraseIdx {axes : List Nat} (increasing : axes.Pairwise (· < ·)) (shape : Shape) :
    axes.foldr (fun axis shape => shape.eraseIdx axis) shape = without axes shape 0 := by
  induction axes with
  | nil => simp [without]
  | cons axis rest induction =>
      have parts := List.pairwise_cons.mp increasing
      have erased : (without rest shape 0).eraseIdx axis = without ((0 + axis) :: rest) shape 0 :=
        eraseIdx_without shape (by simpa using parts.1)
      rw [List.foldr_cons, induction parts.2, erased, Nat.zero_add]

theorem without_congr {left right : List Nat} (same : ∀ axis, axis ∈ left ↔ axis ∈ right)
    (shape : Shape) (start : Nat) : without left shape start = without right shape start := by
  refine congrArg (List.map Prod.fst) (List.filter_congr fun entry _ => ?_)
  simp [same]

theorem squeezed_eq_ok {axes : List Nat} {shape result : Shape} (distinct : axes.Nodup)
    (found : squeezed axes shape = .ok result) :
    (StableSort.sortBy id axes).foldr (fun axis shape => shape.eraseIdx axis) shape = result := by
  have sorted : (StableSort.sortBy id axes).Pairwise (· ≤ ·) := StableSort.pairwise_sortBy id axes
  have nodup : (StableSort.sortBy id axes).Nodup :=
    (StableSort.sortBy_perm id axes).nodup_iff.mpr distinct
  have increasing : (StableSort.sortBy id axes).Pairwise (· < ·) :=
    (sorted.and nodup).imp fun both => Nat.lt_of_le_of_ne both.1 both.2
  rw [foldr_eraseIdx increasing, without_congr fun axis => StableSort.mem_sortBy]
  unfold squeezed at found
  split at found
  case isTrue => exact Except.ok.inj found
  case isFalse => cases found

theorem transposed_eq_ok {order : List Nat} {shape result : Shape}
    (found : transposed order shape = .ok result) : result = shape.permute order := by
  unfold transposed at found
  split at found
  case isTrue => exact (Except.ok.inj found).symm
  case isFalse => cases found

end Shape

namespace NDArray

@[simp] theorem shape_ofFn (shape : Shape) (element : Index → α) :
    (ofFn shape element).shape = shape := rfl

@[simp] theorem shape_map (transform : α → β) (array : NDArray α) :
    (array.map transform).shape = array.shape := rfl

@[simp] theorem shape_withShape (array : NDArray α) (shape : Shape)
    (equal : array.shape.size = shape.size) : (array.withShape shape equal).shape = shape := rfl

@[simp] theorem shape_insertAxis (array : NDArray α) (axis : Nat) :
    (array.insertAxis axis).shape = array.shape.insertIdx axis 1 := rfl

theorem shape_foldl_insertAxis {axes : List Nat} {array : NDArray α} {shape : Shape}
    (found : Shape.unsqueezed axes array.shape = .ok shape) :
    ((StableSort.sortBy id axes).foldl insertAxis array).shape = shape := by
  unfold Shape.unsqueezed at found
  generalize StableSort.sortBy id axes = sorted at found ⊢
  induction sorted generalizing array with
  | nil => exact Except.ok.inj found
  | cons axis rest induction =>
      rw [List.foldlM_cons] at found
      obtain ⟨middle, inserted, found⟩ := Outcome.bind_eq_ok.mp found
      split at inserted
      case isTrue => cases inserted
      case isFalse =>
        cases Except.ok.inj inserted
        exact induction found

variable [Inhabited α]

@[simp] theorem shape_dropAxis (array : NDArray α) (axis : Nat) :
    (array.dropAxis axis).shape = array.shape.eraseIdx axis := rfl

@[simp] theorem shape_permute (array : NDArray α) (order : List Nat) :
    (array.permute order).shape = array.shape.permute order := rfl

theorem shape_foldr_dropAxis (axes : List Nat) (array : NDArray α) :
    (axes.foldr (fun axis data => data.dropAxis axis) array).shape =
      axes.foldr (fun axis shape => shape.eraseIdx axis) array.shape := by
  induction axes with
  | nil => rfl
  | cons axis rest induction =>
      rw [List.foldr_cons, List.foldr_cons, shape_dropAxis, induction]

theorem exists_concatenate {axis : Nat} {first : NDArray α} {rest : List (NDArray α)}
    {shape : Shape} (found : Shape.concatenated axis first.shape (rest.map NDArray.shape) = .ok shape)
    (bound : ((first :: rest).map fun array => array.extent axis).sum < 18446744073709551616)
    (addressable : shape.IsAddressable) :
    ∃ joined, concatenate axis (first :: rest) = .ok joined ∧ joined.shape = shape := by
  have extents : ((first :: rest).map fun array => array.extent axis) =
      (first.shape :: rest.map NDArray.shape).map fun shape => shape.getD axis 0 := by
    rw [← List.map_cons, List.map_map]
    rfl
  obtain ⟨inside, each, shape_eq⟩ := Shape.concatenated_eq_ok found (extents ▸ bound)
  rw [← extents] at shape_eq
  have agree : ((first :: rest).all fun array =>
      array.shape.length == first.shape.length &&
        array.shape.eraseIdx axis == first.shape.eraseIdx axis) = true := by
    rw [List.all_cons, List.all_eq_true.mpr]
    · simp
    · intro array member
      have parts := each array.shape (List.mem_map_of_mem member)
      simp [parts]
  refine ⟨ofFn shape fun index =>
    elementAlong axis index (first :: rest) (index.getD axis 0), ?_, rfl⟩
  rw [concatenate, if_neg (Nat.not_le_of_lt inside), if_pos agree]
  dsimp only
  rw [← List.sum_eq_foldl, ← shape_eq, if_pos addressable]

/-- What arrays laid side by side are. -/
theorem concatenate_eq_ok {axis : Nat} {arrays : List (NDArray α)} {joined : NDArray α}
    (found : concatenate axis arrays = .ok joined) :
    joined.shape.IsAddressable ∧ axis < joined.shape.length ∧
      (∀ array ∈ arrays, array.shape = joined.shape.set axis (array.extent axis)) ∧
      joined.shape[axis]? = some (arrays.map fun array => array.extent axis).sum ∧
      joined = ofFn joined.shape fun index =>
        elementAlong axis index arrays (index.getD axis 0) := by
  unfold concatenate at found
  split at found
  case h_1 => cases found
  case h_2 first rest =>
    split at found
    case isTrue => cases found
    case isFalse outside =>
      split at found
      case isFalse => cases found
      case isTrue agree =>
        rw [← List.sum_eq_foldl] at found
        dsimp only at found
        split at found
        case isFalse => cases found
        case isTrue addressable =>
          cases Except.ok.inj found
          have inside : axis < first.shape.length := Nat.lt_of_not_le outside
          refine ⟨addressable, ?_, fun array member => ?_, ?_, rfl⟩
          · rw [shape_ofFn, List.length_set]
            exact inside
          · have fits := List.all_eq_true.mp agree array member
            rw [Bool.and_eq_true, beq_iff_eq, beq_iff_eq] at fits
            rw [shape_ofFn, List.set_set]
            exact Shape.eq_set_getD fits.1 fits.2
          · rw [shape_ofFn, List.getElem?_set_self inside]

end NDArray

end QuantGraph
