import QuantGraph.Proofs.Quantization.Projection
import QuantGraph.Proofs.Tensor.Rounding

/-! Rounding into an element type, sound and complete. A conversion truncates, so an offset of half
a unit away from zero makes it round to the nearest integer. One offset serves all elements: it
finds every integer that is near when no two elements have different signs. -/

namespace QuantGraph

namespace Exact

variable {value : Rat}

theorem exists_trunc_eq (value : Rat) : ∃ number : Int, trunc value = number := by
  unfold trunc
  split
  case isTrue => exact ⟨_, rfl⟩
  case isFalse => exact ⟨_, rfl⟩

/-- Truncation half a unit further from zero is rounding to the nearest integer. -/
theorem trunc_add_half (nonnegative : 0 ≤ value) : trunc (value + 1 / 2) = round value := by
  rw [trunc, round, if_pos (by linarith), if_pos nonnegative]

theorem trunc_sub_half (nonpositive : value ≤ 0) : trunc (value - 1 / 2) = round value := by
  rcases nonpositive.lt_or_eq with negative | rfl
  · rw [trunc, round, if_neg (by linarith), if_neg (not_le.mpr negative)]
  · decide +kernel

end Exact

namespace ElementType

variable {type : ElementType} {value near : Rat}

/-- What a conversion gives, the type can hold. -/
theorem represents_convert (type : ElementType) (value : Rat) :
    type.Represents (type.convert value) := by
  intro low high bounded
  obtain ⟨number, truncated⟩ := Exact.exists_trunc_eq value
  have converted : type.convert value = Scalar.clamp (number : Rat) low high := by
    unfold convert bounds
    rw [bounded]
    change Scalar.clamp (Exact.trunc value) (Scalar.ofInt low) (Scalar.ofInt high) = _
    rw [truncated, Exact.ofInt_eq, Exact.ofInt_eq]
  have ordered : low ≤ high := by cases type <;> cases bounded <;> decide
  rw [converted, Scalar.clamp]
  split
  case isTrue => exact ⟨low, rfl, le_rfl, ordered⟩
  case isFalse above =>
    split
    case isTrue => exact ⟨high, rfl, ordered, le_rfl⟩
    case isFalse below =>
      refine ⟨number, rfl, ?_, ?_⟩
      · exact_mod_cast not_lt.mp above
      · exact_mod_cast not_lt.mp below

theorem exists_integerBounds (integral : type.isIntegral = true) :
    ∃ low high, type.integerBounds = some (low, high) := by
  cases type <;> first | exact ⟨_, _, rfl⟩ | cases integral

/-- A conversion into an integral type looks at the integer part only. -/
theorem convert_of_trunc_eq {number : Int} (integral : type.isIntegral = true)
    (truncated : Exact.trunc value = number) (represents : type.Represents number) :
    type.convert value = number := by
  obtain ⟨low, high, bounded⟩ := exists_integerBounds integral
  have same : type.convert value = type.convert (number : Rat) := by
    unfold convert bounds
    rw [bounded]
    change Scalar.clamp (Exact.trunc value) _ _ = Scalar.clamp (Exact.trunc number) _ _
    rw [truncated, Exact.trunc_intCast]
  exact same.trans (convert_of_represents represents)

theorem Represents.exists_integer (represents : type.Represents value)
    (integral : type.isIntegral = true) : ∃ number : Int, value = number := by
  obtain ⟨low, high, bounded⟩ := exists_integerBounds integral
  obtain ⟨number, equal, _⟩ := represents low high bounded
  exact ⟨number, equal⟩

end ElementType

namespace Tensor

variable {tensor rounded : Tensor Rat} {target : ElementType} {tolerance offset : Rat}

/-- A tensor of an element type, and of the shape of another, whose elements the type can hold and
lie closer than a tolerance to those of the other. -/
structure RoundsTo (tensor : Tensor Rat) (target : ElementType) (tolerance : Rat)
    (rounded : Tensor Rat) : Prop where
  elementType_eq : rounded.elementType = target
  shape_eq : rounded.shape = tensor.shape
  near : List.Forall₂ (fun new old => |new - old| < tolerance) rounded.toList tensor.toList
  represents : ∀ value ∈ rounded.toList, target.Represents value

/-- No two elements have different signs. -/
def IsOneSigned (tensor : Tensor Rat) : Prop :=
  (∀ value ∈ tensor.toList, 0 ≤ value) ∨ ∀ value ∈ tensor.toList, value ≤ 0

theorem toList_convertShifted (tensor : Tensor Rat) (target : ElementType) (offset : Rat) :
    (tensor.convertShifted target offset).toList =
      tensor.toList.map fun value => target.convert (value + offset) := by
  simp [convertShifted, convert, map, toList, NDArray.toList, NDArray.map]

theorem isWithin_convertShifted :
    tensor.isWithin (tensor.convertShifted target offset) tolerance = true ↔
      ∀ value ∈ tensor.toList, |target.convert (value + offset) - value| < tolerance := by
  rw [isWithin, toList_convertShifted]
  induction tensor.toList with
  | nil => simp
  | cons head tail induction =>
      rw [List.map_cons, List.zip_cons_cons, List.all_cons, Bool.and_eq_true, induction,
        List.forall_mem_cons, decide_eq_true_eq, Exact.abs_eq]

/-- A conversion that stays within the tolerance is a rounding. -/
theorem roundsTo_convertShifted
    (within : tensor.isWithin (tensor.convertShifted target offset) tolerance = true) :
    tensor.RoundsTo target tolerance (tensor.convertShifted target offset) where
  elementType_eq := rfl
  shape_eq := rfl
  near := by
    rw [toList_convertShifted, List.forall₂_map_left_iff, List.forall₂_same]
    exact isWithin_convertShifted.mp within
  represents := by
    intro value member
    rw [toList_convertShifted] at member
    obtain ⟨_, _, rfl⟩ := List.mem_map.mp member
    exact target.represents_convert _

/-- Where one of the offsets keeps all elements within the tolerance, the tensor is rounded. -/
theorem roundsTo_of_isWithin (tried : offset ∈ roundingOffsets)
    (within : tensor.isWithin (tensor.convertShifted target offset) tolerance = true) :
    tensor.RoundsTo target tolerance (tensor.roundWithTolerance target tolerance) := by
  unfold roundWithTolerance
  dsimp only
  cases found : (roundingOffsets.map (tensor.convertShifted target)).find? fun candidate =>
      tensor.isWithin candidate tolerance with
  | none =>
      have refused := List.find?_eq_none.mp found _ (List.mem_map_of_mem tried)
      exact absurd within refused
  | some candidate =>
      obtain ⟨first, _, rfl⟩ := List.mem_map.mp (List.mem_of_find?_eq_some found)
      have accepted :=
        @List.find?_some _ (fun candidate => tensor.isWithin candidate tolerance) _ _ found
      exact roundsTo_convertShifted accepted

/-- The offset under which truncation rounds to the nearest integer, by the sign of the elements. -/
theorem IsOneSigned.exists_offset (oneSigned : tensor.IsOneSigned) :
    ∃ offset ∈ (roundingOffsets : List Rat),
      ∀ value ∈ tensor.toList, Exact.trunc (value + offset) = Exact.round value := by
  have tried : 1 / 2 ∈ (roundingOffsets : List Rat) ∧ -(1 / 2) ∈ (roundingOffsets : List Rat) := by
    decide +kernel
  rcases oneSigned with nonnegative | nonpositive
  · exact ⟨1 / 2, tried.1, fun value member => Exact.trunc_add_half (nonnegative value member)⟩
  · refine ⟨-(1 / 2), tried.2, fun value member => ?_⟩
    rw [← sub_eq_add_neg]
    exact Exact.trunc_sub_half (nonpositive value member)

/-- What an integral type can hold and lies closer than half a unit to a value is the integer
nearest to it. -/
theorem eq_round_of_represents {near value : Rat} (integral : target.isIntegral = true)
    (represents : target.Represents near) (close : |near - value| < 1 / 2) :
    near = Exact.round value := by
  obtain ⟨number, rfl⟩ := represents.exists_integer integral
  rw [abs_sub_comm] at close
  exact (Exact.round_eq_of_abs_sub_lt close).symm

/-- Every value of a real type can be held, so nothing has to be rounded. -/
theorem isWithin_of_isReal (positive : 0 < tolerance) (real : target.isReal = true) :
    tensor.isWithin (tensor.convertShifted target 0) tolerance = true := by
  rw [isWithin_convertShifted]
  intro value _
  rw [ElementType.convert_of_isReal real, add_zero, sub_self, abs_zero]
  exact positive

theorem roundsTo_of_isOneSigned (positive : 0 < tolerance) (le_half : tolerance ≤ 1 / 2)
    (oneSigned : tensor.IsOneSigned)
    (near : ∀ value ∈ tensor.toList, ∃ near, target.Represents near ∧ |near - value| < tolerance) :
    tensor.RoundsTo target tolerance (tensor.roundWithTolerance target tolerance) := by
  cases real : target.isReal with
  | true => exact roundsTo_of_isWithin List.mem_cons_self (isWithin_of_isReal positive real)
  | false =>
      have integral : target.isIntegral = true := by rw [ElementType.isIntegral, real]; rfl
      obtain ⟨offset, tried, rounds⟩ := oneSigned.exists_offset
      apply roundsTo_of_isWithin tried
      rw [isWithin_convertShifted]
      intro value member
      obtain ⟨held, represents, close⟩ := near value member
      have nearest := eq_round_of_represents integral represents (close.trans_le le_half)
      obtain ⟨number, rfl⟩ := represents.exists_integer integral
      have truncated := (rounds value member).trans nearest.symm
      rwa [ElementType.convert_of_trunc_eq integral truncated represents]

/-- Up to half a unit, a tensor can be rounded into an integral type in one way at most. -/
theorem RoundsTo.unique {other : Tensor Rat} (integral : target.isIntegral = true)
    (le_half : tolerance ≤ 1 / 2) (left : tensor.RoundsTo target tolerance rounded)
    (right : tensor.RoundsTo target tolerance other) : rounded = other := by
  have same : rounded.toList = other.toList := by
    apply List.ext_getElem (left.near.length_eq.trans right.near.length_eq.symm)
    intro position inside inside'
    have original := left.near.length_eq ▸ inside
    have first := eq_round_of_represents integral (left.represents _ (List.getElem_mem inside))
      ((left.near.get inside original).trans_le le_half)
    have second := eq_round_of_represents integral (right.represents _ (List.getElem_mem inside'))
      ((right.near.get inside' original).trans_le le_half)
    exact first.trans second.symm
  apply Tensor.ext
  · exact left.elementType_eq.trans right.elementType_eq.symm
  · apply NDArray.ext
    · exact left.shape_eq.trans right.shape_eq.symm
    · exact Array.toList_inj.mp same

/-- Rounding leaves a tensor as it is or gives one of the target type that the type can hold and
that is as near as asked for; and it does not miss one if no two elements have different signs. -/
theorem roundWithTolerance_sound_and_complete (tensor : Tensor Rat) (target : ElementType)
    (positive : 0 < tolerance) (le_half : tolerance ≤ 1 / 2) :
    (tensor.roundWithTolerance target tolerance = tensor ∨
      tensor.RoundsTo target tolerance (tensor.roundWithTolerance target tolerance)) ∧
    (tensor.IsOneSigned →
      (∀ value ∈ tensor.toList, ∃ near, target.Represents near ∧ |near - value| < tolerance) →
      tensor.RoundsTo target tolerance (tensor.roundWithTolerance target tolerance) ∧
      (target.isIntegral = true → ∀ rounded, tensor.RoundsTo target tolerance rounded →
        rounded = tensor.roundWithTolerance target tolerance)) := by
  constructor
  · rcases tensor.roundWithTolerance_cases target tolerance with ⟨offset, equal, within⟩ | unchanged
    · rw [equal]
      exact Or.inr (roundsTo_convertShifted within)
    · exact Or.inl unchanged
  · intro oneSigned near
    have rounds := roundsTo_of_isOneSigned positive le_half oneSigned near
    exact ⟨rounds, fun integral _ other => other.unique integral le_half rounds⟩

-- No offset serves two elements that are close to integers from both sides of zero.
example :
    let values : NDArray Rat :=
      { shape := [2], data := #[299 / 100, -299 / 100], size_data := rfl }
    (roundWithTolerance { elementType := .f32, values := values } .i8 (1 / 10)).elementType =
      .f32 := by
  decide +kernel

/-- Numbers close to integers, none of them positive. -/
def nearlyIntegers : Tensor Rat where
  elementType := .f32
  values := { shape := [3], data := #[-299 / 100, 0, -5], size_data := rfl }

theorem roundWithTolerance_nearlyIntegers :
    (0 : Rat) < 1 / 10 ∧ (1 / 10 : Rat) ≤ 1 / 2 ∧ nearlyIntegers.IsOneSigned ∧
      nearlyIntegers.RoundsTo .i8 (1 / 10) (nearlyIntegers.roundWithTolerance .i8 (1 / 10)) ∧
      (nearlyIntegers.roundWithTolerance .i8 (1 / 10)).toList = [-3, 0, -5] := by
  have positive : (0 : Rat) < 1 / 10 := by norm_num
  have le_half : (1 / 10 : Rat) ≤ 1 / 2 := by norm_num
  have listed : nearlyIntegers.toList = [-299 / 100, 0, -5] := rfl
  have oneSigned : nearlyIntegers.IsOneSigned := by
    right
    rw [listed]
    decide +kernel
  have near : ∀ value ∈ nearlyIntegers.toList, ∃ near, ElementType.i8.Represents near ∧
      |near - value| < 1 / 10 := by
    rw [listed]
    simp only [List.forall_mem_cons, List.not_mem_nil, false_imp_iff, implies_true, and_true]
    have held (number : Int) (inside : -128 ≤ number ∧ number ≤ 127) :
        ElementType.i8.Represents number := by
      intro low high bounded
      cases bounded
      exact ⟨number, rfl, inside⟩
    exact ⟨⟨_, held (-3) (by decide), by norm_num [abs_lt]⟩,
      ⟨_, held 0 (by decide), by norm_num⟩, ⟨_, held (-5) (by decide), by norm_num⟩⟩
  have both := roundWithTolerance_sound_and_complete nearlyIntegers .i8 positive le_half
  exact ⟨positive, le_half, oneSigned, (both.2 oneSigned near).1, by decide +kernel⟩

end Tensor

end QuantGraph
