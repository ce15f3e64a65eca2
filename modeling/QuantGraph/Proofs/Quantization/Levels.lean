import Mathlib.Algebra.Order.Field.Basic
import Mathlib.Tactic.FieldSimp
import Mathlib.Tactic.Linarith
import Mathlib.Tactic.Ring
import QuantGraph.ElementType
import QuantGraph.Quantization.Folding
import QuantGraph.Quantization.TargetRange
import QuantGraph.Scalar.Exact

/-! Fake quantization in exact arithmetic. A value is moved to one of the levels. Which one
that is depends on the input limits alone; the output limits only say where the levels lie.
On a range of integers the levels are the integers, which roundings leave as they are. -/

namespace QuantGraph

namespace Exact

theorem round_intCast (number : Int) : round (number : Rat) = number := by
  unfold round
  split
  case isTrue =>
    refine congrArg _ (le_antisymm ?_ ?_)
    · refine Int.lt_add_one_iff.mp ?_
      have below := Rat.floor_le ((number : Rat) + 1 / 2)
      have bound : (((number : Rat) + 1 / 2).floor : Rat) < ((number + 1 : Int) : Rat) := by
        push_cast
        linarith
      exact_mod_cast bound
    · exact Rat.le_floor_iff.mpr (by linarith)
  case isFalse =>
    refine congrArg _ (le_antisymm ?_ ?_)
    · exact Rat.ceil_le_iff.mpr (by linarith)
    · refine Int.sub_one_lt_iff.mp ?_
      have above := @Rat.le_ceil ((number : Rat) - 1 / 2)
      have bound : ((number - 1 : Int) : Rat) < (((number : Rat) - 1 / 2).ceil : Rat) := by
        push_cast
        linarith
      exact_mod_cast bound

theorem trunc_intCast (number : Int) : trunc (number : Rat) = number := by
  unfold trunc
  rw [Rat.floor_intCast, Rat.ceil_intCast, ite_self]

/-- Between nought and a number of steps, the nearest integer is one of the steps. -/
theorem exists_round {value : Rat} {count : Nat} (nonnegative : 0 ≤ value) (le : value ≤ count) :
    ∃ step : Nat, step ≤ count ∧ round value = step := by
  have low : 0 ≤ (value + 1 / 2).floor := Rat.le_floor_iff.mpr (by push_cast; linarith)
  have high : (value + 1 / 2).floor ≤ count := by
    refine Int.lt_add_one_iff.mp ?_
    have below := Rat.floor_le (value + 1 / 2)
    have bound : ((value + 1 / 2).floor : Rat) < ((count + 1 : Int) : Rat) := by
      push_cast
      linarith
    exact_mod_cast bound
  obtain ⟨step, equal⟩ := Int.eq_ofNat_of_zero_le low
  refine ⟨step, by omega, ?_⟩
  rw [round, if_pos nonnegative, equal]
  rfl

theorem ofInt_eq (number : Int) : (Scalar.ofInt number : Rat) = number := by
  change (number : Rat) / 10 ^ 0 = number
  rw [pow_zero, div_one]

theorem ofNat_eq (number : Nat) : (Scalar.ofNat number : Rat) = number :=
  (ofInt_eq number).trans (Int.cast_natCast number)

theorem abs_eq (value : Rat) : Scalar.abs value = |value| := by
  change (if 0 ≤ value then value else -value) = _
  split
  case isTrue nonnegative => exact (abs_of_nonneg nonnegative).symm
  case isFalse negative => exact (abs_of_neg (not_le.mp negative)).symm

theorem zeroTolerance_eq : (Tensor.zeroTolerance : Rat) = 1 / 10 ^ 6 := by
  change ((1 : Int) : Rat) / 10 ^ 6 = 1 / 10 ^ 6
  norm_num

end Exact

namespace ElementType

theorem convert_of_isReal [Scalar α] {type : ElementType} (real : type.isReal = true)
    (value : α) : type.convert value = value := by
  cases type <;> first | rfl | cases real

/-- An integer within the bounds of a type stays what it is. -/
theorem convert_intCast {type : ElementType} {number : Int}
    (inside : ∀ low high, type.integerBounds = some (low, high) → low ≤ number ∧ number ≤ high) :
    type.convert (number : Rat) = number := by
  unfold convert bounds
  cases found : type.integerBounds with
  | none => rfl
  | some limits =>
      obtain ⟨low, high⟩ := limits
      obtain ⟨above, below⟩ := inside low high found
      change Scalar.clamp (Exact.trunc number) (Scalar.ofInt low) (Scalar.ofInt high) = _
      rw [Exact.trunc_intCast, Exact.ofInt_eq, Exact.ofInt_eq, Scalar.clamp,
        if_neg (by exact_mod_cast not_lt.mpr above), if_neg (by exact_mod_cast not_lt.mpr below)]

end ElementType

namespace Interval

/-- The image of a value lies a number of steps above the lower output limit. The number
depends on the value and the input limits, and not on the output limits. -/
theorem exists_step {levels : Nat} (enough : 2 ≤ levels) (inputLow inputHigh value : Rat) :
    ∃ step : Nat, step ≤ levels - 1 ∧ ∀ outputLow outputHigh : Rat,
      (Interval.mk inputLow inputHigh outputLow outputHigh).project levels value =
        outputLow + step / (levels - 1 : Nat) * (outputHigh - outputLow) := by
  have positive : (0 : Rat) < (levels - 1 : Nat) := by exact_mod_cast Nat.sub_pos_of_lt enough
  by_cases low : value ≤ inputLow
  · refine ⟨0, Nat.zero_le _, fun outputLow outputHigh => ?_⟩
    rw [project, if_pos low]
    simp
  · by_cases high : inputHigh < value
    · refine ⟨levels - 1, Nat.le_refl _, fun outputLow outputHigh => ?_⟩
      rw [project, if_neg low, if_pos high, div_self positive.ne']
      ring
    · have width : 0 < inputHigh - inputLow := by linarith
      have above : 0 ≤ (value - inputLow) / (inputHigh - inputLow) :=
        div_nonneg (by linarith) width.le
      have below : (value - inputLow) / (inputHigh - inputLow) ≤ 1 :=
        (div_le_one width).mpr (by linarith)
      obtain ⟨step, le, equal⟩ := Exact.exists_round (mul_nonneg above positive.le)
        (mul_le_of_le_one_left positive.le below)
      refine ⟨step, le, fun outputLow outputHigh => ?_⟩
      rw [project, if_neg low, if_neg high, Exact.ofNat_eq]
      change Exact.round _ / _ * _ + _ = _
      rw [equal]
      ring

/-- An operation with a constant may be applied to the output limits instead of the image. -/
def MovesLevels [Scalar α] (op : BinaryOp) (levels : Nat) : Prop :=
  ∀ inputLow inputHigh outputLow outputHigh constant value : α,
    (Interval.mk inputLow inputHigh (op.apply outputLow constant)
        (op.apply outputHigh constant)).project levels value =
      op.apply ((Interval.mk inputLow inputHigh outputLow outputHigh).project levels value) constant

theorem MovesLevels.quantize_eq [Scalar α] {op : BinaryOp} {levels : Nat}
    (moves : @MovesLevels α _ op levels) (interval : Interval α) (rounding : Bool)
    (constant value : α) :
    (Interval.mk interval.inputLow interval.inputHigh (op.apply interval.outputLow constant)
        (op.apply interval.outputHigh constant)).quantize levels rounding value =
      if rounding then Scalar.round (op.apply (interval.quantize levels false value) constant)
      else op.apply (interval.quantize levels false value) constant := by
  rw [quantize, moves]
  rfl

/-- In exact arithmetic the output limits only say where the levels lie. -/
theorem movesLevels (op : BinaryOp) {levels : Nat} (enough : 2 ≤ levels) :
    @MovesLevels Rat _ op levels := by
  intro inputLow inputHigh outputLow outputHigh constant value
  obtain ⟨step, _, image⟩ := exists_step enough inputLow inputHigh value
  rw [image, image]
  generalize (step : Rat) / (levels - 1 : Nat) = part
  cases op with
  | add =>
      change outputLow + constant + part * (outputHigh + constant - (outputLow + constant)) =
        outputLow + part * (outputHigh - outputLow) + constant
      ring
  | subtract =>
      change outputLow - constant + part * (outputHigh - constant - (outputLow - constant)) =
        outputLow + part * (outputHigh - outputLow) - constant
      ring
  | multiply =>
      change outputLow * constant + part * (outputHigh * constant - outputLow * constant) =
        (outputLow + part * (outputHigh - outputLow)) * constant
      ring
  | divide =>
      change outputLow / constant + part * (outputHigh / constant - outputLow / constant) =
        (outputLow + part * (outputHigh - outputLow)) / constant
      ring

end Interval

/-- Without a shift, the steps above the least integer of a range are restored as steps above
the lower limit, moved by what the shift would have taken away. -/
theorem restored_without_shift {min max low high step : Rat} (width : 0 < max - min) :
    (min + step) * ((high - low) / (max - min)) - (low + step / (max - min) * (high - low)) =
      (min * high - max * low) / (max - min) := by
  field_simp [width.ne']
  ring

namespace TargetRange

/-- Roundings and conversions leave alone what is quantized to the range, and it is not the
range to which folding moves values where it would have to scale them. -/
structure IsStable [Scalar α] (target : TargetRange α) (levels : Nat) : Prop where
  quantize_eq : ∀ inputLow inputHigh value rounding,
    (Interval.mk inputLow inputHigh target.min target.max).quantize levels rounding value =
      (Interval.mk inputLow inputHigh target.min target.max).project levels value
  convert_eq : ∀ inputLow inputHigh value,
    target.precision.convert
        ((Interval.mk inputLow inputHigh target.min target.max).project levels value) =
      (Interval.mk inputLow inputHigh target.min target.max).project levels value
  scales : levels = 256 →
    (target.min == Scalar.ofInt (-127) && target.max == Scalar.ofNat 127) = false

theorem IsStable.isSignedShift_eq [Scalar α] {target : TargetRange α} {levels : Nat}
    (stable : target.IsStable levels) {limits : FoldLimits α} {type : ElementType}
    (low : limits.outputLow = .scalar type target.min)
    (high : limits.outputHigh = .scalar type target.max) : limits.isSignedShift levels = false := by
  have single (value number : α) :
      (Tensor.scalar type value).isEqualTo number = (value == number) := by
    simp [Tensor.isEqualTo, Tensor.isEmpty, Tensor.scalar, NDArray.scalar, Tensor.size,
      NDArray.size, Tensor.toList, NDArray.toList]
  unfold FoldLimits.isSignedShift
  rw [low, high, single, single, Bool.and_assoc]
  by_cases many : levels = 256
  · rw [stable.scales many, Bool.and_false]
  · simp [many]

/-- The range begins at an integer, has a step less than there are levels, and lies within
the bounds of the precision. -/
structure Counts (target : TargetRange Rat) (levels : Nat) (minimum : Int) : Prop where
  min_eq : target.min = minimum
  max_eq : target.max = target.min + (levels - 1 : Nat)
  inside : ∀ low high, target.precision.integerBounds = some (low, high) →
    low ≤ minimum ∧ minimum + (levels - 1 : Nat) ≤ high

variable {target : TargetRange Rat} {levels : Nat} {minimum : Int}

theorem Counts.width_eq (counts : target.Counts levels minimum) :
    target.max - target.min = (levels - 1 : Nat) := by
  rw [counts.max_eq]
  ring

theorem Counts.width_pos (counts : target.Counts levels minimum) (enough : 2 ≤ levels) :
    0 < target.max - target.min := by
  rw [counts.width_eq]
  exact_mod_cast Nat.sub_pos_of_lt enough

/-- A value is moved to an integer of the range, as many steps above the least as it is moved
above the lower limit of any other output interval. -/
theorem Counts.exists_step (counts : target.Counts levels minimum) (enough : 2 ≤ levels)
    (inputLow inputHigh value : Rat) :
    ∃ step : Nat, step ≤ levels - 1 ∧
      (∀ outputLow outputHigh : Rat,
        (Interval.mk inputLow inputHigh outputLow outputHigh).project levels value =
          outputLow + step / (target.max - target.min) * (outputHigh - outputLow)) ∧
      (Interval.mk inputLow inputHigh target.min target.max).project levels value =
        ((minimum + step : Int) : Rat) := by
  obtain ⟨step, le, project⟩ := Interval.exists_step enough inputLow inputHigh value
  have positive : (0 : Rat) < (levels - 1 : Nat) := by exact_mod_cast Nat.sub_pos_of_lt enough
  refine ⟨step, le, ?_, ?_⟩
  · rw [counts.width_eq]
    exact project
  · rw [project, counts.width_eq, div_mul_cancel₀ _ positive.ne', counts.min_eq]
    push_cast
    rfl

theorem Counts.isStable (counts : target.Counts levels minimum) (enough : 2 ≤ levels) :
    target.IsStable levels where
  quantize_eq := by
    intro inputLow inputHigh value rounding
    obtain ⟨step, _, _, image⟩ := counts.exists_step enough inputLow inputHigh value
    unfold Interval.quantize
    rw [image]
    cases rounding with
    | false => rfl
    | true => exact Exact.round_intCast _
  convert_eq := by
    intro inputLow inputHigh value
    obtain ⟨step, le, _, image⟩ := counts.exists_step enough inputLow inputHigh value
    rw [image]
    refine ElementType.convert_intCast fun low high found => ?_
    obtain ⟨above, below⟩ := counts.inside low high found
    omega
  scales := by
    rintro rfl
    refine Bool.eq_false_iff.mpr fun both => ?_
    obtain ⟨low, high⟩ := Bool.and_eq_true_iff.mp both
    have low : target.min = -127 := (eq_of_beq low).trans (Exact.ofInt_eq (-127))
    have high : target.max = 127 := (eq_of_beq high).trans (Exact.ofNat_eq 127)
    have width := counts.width_eq
    rw [low, high] at width
    norm_num at width

end TargetRange

end QuantGraph
