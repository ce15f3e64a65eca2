import Mathlib
import QuantGraph.NDArray.Layout
import QuantGraph.NDArray.Reduction
import QuantGraph.Proofs.Evaluation.Congruence
import QuantGraph.Proofs.NDArray.Reading
import QuantGraph.Proofs.NDArray.Shapes
import QuantGraph.Proofs.Scalar.Exact

/-! Arrays whose elements lie near the places of the elements of another array. Laying arrays
side by side keeps them near, and so does pooling when the places are an affine function that
does not decrease. -/

namespace QuantGraph

namespace Shape

variable {shape other : Shape} {axis extent coordinate : Nat} {index : Index}

theorem Holds.set (holds : shape.Holds index) (below : coordinate < extent) :
    Holds (shape.set axis extent) (index.set axis coordinate) := by
  induction holds generalizing axis with
  | nil => exact List.Forall₂.nil
  | cons inside rest induction =>
      cases axis with
      | zero => exact List.Forall₂.cons below rest
      | succ axis => exact List.Forall₂.cons inside induction

theorem Holds.getD_lt (holds : shape.Holds index) (found : shape[axis]? = some extent) :
    index.getD axis 0 < extent := by
  induction holds generalizing axis with
  | nil => cases found
  | cons inside rest induction =>
      cases axis with
      | zero =>
          cases Option.some.inj found
          exact inside
      | succ axis => exact induction found

end Shape

namespace NDArray

/-- Every element lies near the place of the element at the same position. -/
structure Approximates (raw value : NDArray Rat) (place : Rat → Rat) (bound : Rat) : Prop where
  shape_eq : raw.shape = value.shape
  near : ∀ index, value.shape.Holds index → |raw.get index - place (value.get index)| ≤ bound

variable {raw value joined pooled : NDArray Rat} {raws values : List (NDArray Rat)}
  {place : Rat → Rat} {bound : Rat} {axis coordinate : Nat} {index : Index}

/-! ## Side by side -/

theorem near_elementAlong
    (each : List.Forall₂ (fun raw value => Approximates raw value place bound) raws values)
    (holds : ∀ value ∈ values, ∀ coordinate < value.extent axis,
      value.shape.Holds (index.set axis coordinate))
    (inside : coordinate < (values.map fun value => value.extent axis).sum) :
    |elementAlong axis index raws coordinate - place (elementAlong axis index values coordinate)| ≤
      bound := by
  induction each generalizing coordinate with
  | nil => cases inside
  | @cons raw value raws values near _ induction =>
      have extent_eq : raw.extent axis = value.extent axis := by
        rw [extent, extent, near.shape_eq]
      rw [elementAlong, elementAlong, extent_eq]
      split
      case isTrue below => exact near.near _ (holds value List.mem_cons_self coordinate below)
      case isFalse above =>
        rw [List.map_cons, List.sum_cons] at inside
        exact induction (fun other member => holds other (List.mem_cons_of_mem value member))
          (by omega)

theorem Approximates.concatenate
    (each : List.Forall₂ (fun raw value => Approximates raw value place bound) raws values)
    (isRaw : concatenate axis raws = .ok raw) (isValue : concatenate axis values = .ok value) :
    raw.Approximates value place bound := by
  obtain ⟨_, _, rawParts, rawExtent, raw_eq⟩ := concatenate_eq_ok isRaw
  obtain ⟨_, inside, parts, extent_eq, value_eq⟩ := concatenate_eq_ok isValue
  have shapes : raws.map NDArray.shape = values.map NDArray.shape := by
    rw [← List.forall₂_eq_eq_eq, List.forall₂_map_left_iff, List.forall₂_map_right_iff]
    exact each.imp fun _ _ near => near.shape_eq
  have shape_eq : raw.shape = value.shape := by
    have alike : (NDArray.concatenate axis raws).map NDArray.shape =
      (NDArray.concatenate axis values).map NDArray.shape := Op.map_shape_concatenate shapes
    rw [isRaw, isValue] at alike
    exact Except.ok.inj alike
  refine ⟨shape_eq, fun index holds => ?_⟩
  rw [raw_eq, value_eq, get_ofFn holds, get_ofFn (shape_eq ▸ holds)]
  refine near_elementAlong each (fun part member coordinate below => ?_) ?_
  · rw [parts part member]
    exact holds.set below
  · exact holds.getD_lt extent_eq

/-! ## Pooling -/

/-- The positions under a pooling window. -/
def windowIndices (height width : Nat) (index : Index) : List Index :=
  (List.range height).flatMap fun row => (List.range width).map fun column =>
    [index.getD 0 0, index.getD 1 0, index.getD 2 0 * height + row, index.getD 3 0 * width + column]

theorem window_eq_map (array : NDArray Rat) (height width : Nat) (index : Index) :
    array.window height width index = (windowIndices height width index).map array.get := by
  unfold window windowIndices
  rw [List.map_flatMap]
  simp only [List.map_map]
  rfl

theorem pool?_eq_some {array pooled : NDArray Rat} {height width : Nat} {reduce : List Rat → Rat}
    (found : array.pool? height width reduce = some pooled) :
    ∃ batches channels rows columns, array.shape = [batches, channels, rows, columns] ∧
      pooled = ofFn [batches, channels, rows / height, columns / width] fun index =>
        reduce (array.window height width index) := by
  unfold pool? at found
  split at found
  case h_1 batches channels rows columns equal =>
    exact ⟨batches, channels, rows, columns, equal, (Option.some.inj found).symm⟩
  case h_2 => cases found

/-- Pooling makes no axis longer, and one without an extent stays so. -/
theorem shape_pool? {array pooled : NDArray Rat} {height width : Nat} {reduce : List Rat → Rat}
    (found : array.pool? height width reduce = some pooled) :
    List.Forall₂ (fun extent extent' => extent ≤ extent') pooled.shape array.shape := by
  obtain ⟨batches, channels, rows, columns, shape, rfl⟩ := pool?_eq_some found
  rw [shape]
  exact .cons le_rfl (.cons le_rfl (.cons (Nat.div_le_self _ _) (.cons (Nat.div_le_self _ _) .nil)))

/-- A window for a position of the pooled array is not empty and lies inside the array. -/
theorem holds_of_mem_windowIndices {batches channels rows columns height width : Nat}
    (holds : Shape.Holds [batches, channels, rows / height, columns / width] index) :
    windowIndices height width index ≠ [] ∧
      ∀ other ∈ windowIndices height width index,
        Shape.Holds [batches, channels, rows, columns] other := by
  unfold Shape.Holds at holds
  obtain _ | ⟨batch, _ | ⟨channel, _ | ⟨row, _ | ⟨column, _ | _⟩⟩⟩⟩ := holds
  rename_i first second third fourth
  have tall : 0 < height := Nat.pos_of_ne_zero fun zero => by
    rw [zero, Nat.div_zero] at row
    cases row
  have wide : 0 < width := Nat.pos_of_ne_zero fun zero => by
    rw [zero, Nat.div_zero] at column
    cases column
  have bottom : (third + 1) * height ≤ rows := (Nat.le_div_iff_mul_le tall).mp row
  have right : (fourth + 1) * width ≤ columns := (Nat.le_div_iff_mul_le wide).mp column
  rw [Nat.succ_mul] at bottom right
  constructor
  · intro empty
    have member : [first, second, third * height + 0, fourth * width + 0] ∈
        windowIndices height width [first, second, third, fourth] :=
      List.mem_flatMap.mpr ⟨0, List.mem_range.mpr tall,
        List.mem_map.mpr ⟨0, List.mem_range.mpr wide, rfl⟩⟩
    rw [empty] at member
    cases member
  · intro other member
    obtain ⟨below, isBelow, member⟩ := List.mem_flatMap.mp member
    obtain ⟨beside, isBeside, rfl⟩ := List.mem_map.mp member
    have isBelow := List.mem_range.mp isBelow
    have isBeside := List.mem_range.mp isBeside
    refine .cons batch (.cons channel (.cons ?_ (.cons ?_ .nil)))
    · change third * height + below < rows
      omega
    · change fourth * width + beside < columns
      omega

theorem exists_of_mem_left {α β : Type} {relation : α → β → Prop} {left : List α} {right : List β}
    (related : List.Forall₂ relation left right) {first : α} (member : first ∈ left) :
    ∃ second ∈ right, relation first second := by
  induction related with
  | nil => cases member
  | cons head _ induction =>
      rcases List.mem_cons.mp member with rfl | member
      · exact ⟨_, List.mem_cons_self, head⟩
      · obtain ⟨second, listed, holds⟩ := induction member
        exact ⟨second, List.mem_cons_of_mem _ listed, holds⟩

/-- What reduces a window keeps the results near when the elements are near. -/
def KeepsNear (reduce : List Rat → Rat) (place : Rat → Rat) (bound : Rat) : Prop :=
  ∀ raws values : List Rat, values ≠ [] →
    List.Forall₂ (fun raw value => |raw - place value| ≤ bound) raws values →
      |reduce raws - place (reduce values)| ≤ bound

theorem Approximates.pool {height width : Nat} {reduce : List Rat → Rat}
    (near : raw.Approximates value place bound) (keeps : KeepsNear reduce place bound)
    {rawPooled : NDArray Rat} (isRaw : raw.pool? height width reduce = some rawPooled)
    (isValue : value.pool? height width reduce = some pooled) :
    rawPooled.Approximates pooled place bound := by
  obtain ⟨batches, channels, rows, columns, shape, rfl⟩ := pool?_eq_some isValue
  obtain ⟨_, _, _, _, rawShape, rfl⟩ := pool?_eq_some isRaw
  rw [near.shape_eq, shape] at rawShape
  obtain ⟨rfl, rfl, rfl, rfl, _⟩ : batches = _ ∧ channels = _ ∧ rows = _ ∧ columns = _ ∧ True := by
    simpa using rawShape
  refine ⟨rfl, fun index holds => ?_⟩
  have holds : Shape.Holds [batches, channels, rows / height, columns / width] index := holds
  obtain ⟨nonempty, inside⟩ := holds_of_mem_windowIndices holds
  rw [get_ofFn holds, get_ofFn holds, window_eq_map, window_eq_map]
  refine keeps _ _ (by simpa using nonempty) ?_
  rw [List.forall₂_map_left_iff, List.forall₂_map_right_iff, List.forall₂_same]
  exact fun other member => near.near other (shape ▸ inside other member)

theorem keepsNear_largest (monotone : Monotone place) :
    KeepsNear Scalar.largest place bound := by
  intro raws values nonempty near
  have raws_nonempty : raws ≠ [] := by
    rw [← List.length_pos_iff_ne_nil, near.length_eq, List.length_pos_iff_ne_nil]
    exact nonempty
  rw [abs_sub_le_iff]
  constructor
  · rw [sub_le_iff_le_add, Exact.largest_le raws_nonempty]
    intro raw member
    obtain ⟨value, listed, close⟩ := exists_of_mem_left near member
    have above := monotone (Exact.le_largest listed)
    rw [abs_sub_le_iff] at close
    linarith [close.1]
  · obtain ⟨raw, listed, close⟩ := exists_of_mem_left near.flip (Exact.largest_mem nonempty)
    have above := Exact.le_largest listed
    rw [abs_sub_le_iff] at close
    linarith [close.2]

theorem mean_eq (values : List Rat) : mean values = values.sum / values.length := by
  rw [mean, Exact.ofNat_eq, Scalar.sum, List.sum_eq_foldl]
  rfl

theorem abs_sum_sub_le {raws values : List Rat} {scale shift : Rat}
    (near : List.Forall₂ (fun raw value => |raw - (value / scale + shift)| ≤ bound) raws values) :
    |raws.sum - (values.sum / scale + values.length * shift)| ≤ values.length * bound := by
  induction near with
  | nil => simp
  | @cons raw value raws values close _ induction =>
      rw [List.sum_cons, List.sum_cons, List.length_cons, Nat.cast_succ]
      calc |raw + raws.sum - ((value + values.sum) / scale + (values.length + 1) * shift)|
          = |(raw - (value / scale + shift)) +
              (raws.sum - (values.sum / scale + values.length * shift))| := by
            congr 1
            ring
        _ ≤ |raw - (value / scale + shift)| +
              |raws.sum - (values.sum / scale + values.length * shift)| := abs_add_le _ _
        _ ≤ bound + values.length * bound := add_le_add close induction
        _ = (values.length + 1) * bound := by ring

theorem keepsNear_mean {scale shift : Rat} :
    KeepsNear mean (fun value => value / scale + shift) bound := by
  intro raws values nonempty near
  have positive : (0 : Rat) < values.length := by
    exact_mod_cast List.length_pos_iff_ne_nil.mpr nonempty
  have close := abs_sum_sub_le near
  rw [mean_eq, mean_eq, near.length_eq]
  have apart : raws.sum / values.length - (values.sum / values.length / scale + shift) =
      (raws.sum - (values.sum / scale + values.length * shift)) / values.length := by
    field_simp
  dsimp only
  rw [apart, abs_div, abs_of_pos positive, div_le_iff₀ positive, mul_comm bound]
  exact close

end NDArray

end QuantGraph
