import Mathlib.Tactic.NormNum
import Mathlib.Tactic.Positivity
import QuantGraph.Proofs.Quantization.Levels

/-! When a target does without a zero point. Output intervals are then restored by their
scale alone, which is right as far as they lie about zero as the range does. -/

namespace QuantGraph

namespace TargetRange

section Resolving

variable [Scalar α] {limits : QuantizationLimits α} {policy : Policy} {target : TargetRange α}

/-- A target has the range of its precision. Without a zero point it is the precision that
suits the limits, and the limits need none. -/
theorem resolve_eq_some (resolved : resolve limits policy = some target) :
    QuantizationLimits.supportsLevels limits.levels = true ∧
      bounds target.precision limits.levels = some (target.min, target.max) ∧
      (target.hasZeroPoint = false → target.precision = preferredPrecision limits ∧
        needsZeroPoint limits target.min target.max = false) := by
  unfold resolve at resolved
  obtain ⟨_, supported, resolved⟩ := Option.bind_eq_some_iff.mp resolved
  obtain ⟨preferred, isPreferred, resolved⟩ := Option.bind_eq_some_iff.mp resolved
  dsimp only at resolved
  split at resolved
  case isTrue accepted =>
    obtain ⟨_, chosen, resolved⟩ := Option.bind_eq_some_iff.mp resolved
    cases chosen
    obtain ⟨range, isRange, resolved⟩ := Option.bind_eq_some_iff.mp resolved
    obtain ⟨_, _, resolved⟩ := Option.bind_eq_some_iff.mp resolved
    cases resolved
    cases Option.some.inj (isPreferred.symm.trans isRange)
    refine ⟨by simpa using supported, isRange, fun plain => ⟨rfl, ?_⟩⟩
    exact (Bool.or_eq_false_iff.mp plain).2
  case isFalse rejected =>
    obtain ⟨precision, _, resolved⟩ := Option.bind_eq_some_iff.mp resolved
    obtain ⟨range, isRange, resolved⟩ := Option.bind_eq_some_iff.mp resolved
    obtain ⟨_, _, resolved⟩ := Option.bind_eq_some_iff.mp resolved
    cases resolved
    refine ⟨by simpa using supported, isRange, fun plain => absurd ?_ rejected⟩
    simpa using (Bool.or_eq_false_iff.mp plain).1

end Resolving

/-! ## The range of a precision -/

section Ranges

variable {limits : QuantizationLimits Rat} {policy : Policy} {target : TargetRange Rat}
  {precision : ElementType} {levels : Nat} {min max : Rat}

theorem bounds_eq_some (found : bounds precision levels = some (min, max)) :
    max = min + (levels - 1 : Nat) ∧
      (precision = .u8 ∧ min = 0 ∨ precision = .i8 ∧ min = -(levels / 2 : Nat)) := by
  unfold bounds at found
  rw [Exact.ofNat_eq, Exact.ofNat_eq] at found
  split at found
  case isTrue => cases found
  case isFalse =>
    cases precision <;> cases found
    · exact ⟨rfl, Or.inr ⟨rfl, rfl⟩⟩
    · exact ⟨(zero_add _).symm, Or.inl ⟨rfl, rfl⟩⟩

theorem isIntegral_of_resolve (resolved : resolve limits policy = some target) :
    target.precision.isIntegral = true := by
  obtain ⟨_, range, _⟩ := resolve_eq_some resolved
  obtain ⟨_, ⟨precision, _⟩ | ⟨precision, _⟩⟩ := bounds_eq_some range <;> rw [precision] <;> rfl

theorem supportsLevels_iff {levels : Nat} :
    QuantizationLimits.supportsLevels levels = true ↔ levels = 255 ∨ levels = 256 := by
  simp [QuantizationLimits.supportsLevels]

theorem bounds_signed (supported : QuantizationLimits.supportsLevels levels = true)
    (found : bounds .i8 levels = some (min, max)) : max = 127 ∧ min ≤ -127 := by
  obtain ⟨max_eq, ⟨other, _⟩ | ⟨_, min_eq⟩⟩ := bounds_eq_some found
  · cases other
  · rw [max_eq, min_eq]
    rcases supportsLevels_iff.mp supported with rfl | rfl <;> norm_num

/-- The range of a precision lies about zero, begins at an integer and counts its levels, within
the precision. -/
theorem exists_counts_of_bounds (supported : QuantizationLimits.supportsLevels levels = true)
    (range : bounds target.precision levels = some (target.min, target.max)) :
    2 ≤ levels ∧ target.min ≤ 0 ∧ 0 < target.max ∧ ∃ minimum, target.Counts levels minimum := by
  have many := supportsLevels_iff.mp supported
  obtain ⟨max_eq, ⟨precision, min_eq⟩ | ⟨precision, min_eq⟩⟩ := bounds_eq_some range
  · refine ⟨by omega, min_eq.le, ?_, 0, by rw [min_eq, Int.cast_zero], max_eq, ?_⟩
    · rw [max_eq, min_eq, zero_add]
      exact_mod_cast (by omega : 0 < levels - 1)
    · intro low high found
      rw [precision] at found
      cases found
      omega
  · refine ⟨by omega, by rw [min_eq]; exact neg_nonpos.mpr (Nat.cast_nonneg _), ?_,
      -(levels / 2 : Nat), by rw [min_eq]; push_cast; rfl, max_eq, ?_⟩
    · have half : ((levels / 2 : Nat) : Rat) < (levels - 1 : Nat) := by
        exact_mod_cast (by omega : levels / 2 < levels - 1)
      rw [max_eq, min_eq]
      linarith
    · intro low high found
      rw [precision] at found
      cases found
      omega

theorem exists_counts_of_resolve (resolved : resolve limits policy = some target) :
    2 ≤ limits.levels ∧ target.min ≤ 0 ∧ 0 < target.max ∧
      ∃ minimum, target.Counts limits.levels minimum := by
  obtain ⟨supported, range, _⟩ := resolve_eq_some resolved
  exact exists_counts_of_bounds supported range

end Ranges

/-! ## Without a zero point -/

section Unshifted

variable {limits : QuantizationLimits Rat} {policy : Policy} {target : TargetRange Rat}
  {low high : Rat} {channel : Nat}

/-- The ratio of the limits of an interval is that of the range, within the threshold. -/
def IsProportional (target : TargetRange Rat) (low high : Rat) : Prop :=
  high ≠ 0 ∧ |low / high - target.min / target.max| ≤ 1 / 100

theorem asymmetryThreshold_eq : (asymmetryThreshold : Rat) = 1 / 100 := by
  change ((1 : Int) : Rat) / 10 ^ 2 = 1 / 100
  norm_num

/-- A target without a zero point fits every interval that its resolution has looked at. -/
theorem fits_of_resolve (resolved : resolve limits policy = some target)
    (plain : target.hasZeroPoint = false) (isLow : limits.outputLow[channel]? = some low)
    (isHigh : limits.outputHigh[channel]? = some high) :
    (target.min = 0 ∧ ∀ value ∈ limits.outputLow, value = 0) ∨
      target.precision = .i8 ∧ target.IsProportional low high := by
  obtain ⟨_, range, chosen⟩ := resolve_eq_some resolved
  obtain ⟨precision, unneeded⟩ := chosen plain
  unfold needsZeroPoint at unneeded
  cases unsigned : isUnsigned limits with
  | true =>
      rw [unsigned, if_pos rfl] at unneeded
      rw [preferredPrecision, unsigned, if_pos rfl] at precision
      refine Or.inl ⟨?_, fun value member => ?_⟩
      · rcases (bounds_eq_some range).2 with ⟨_, min_eq⟩ | ⟨other, _⟩
        · exact min_eq
        · rw [precision] at other
          cases other
      · have same := List.any_eq_false.mp unneeded value member
        simpa [Scalar.differs] using same
  | false =>
      rw [unsigned, if_neg (by simp)] at unneeded
      rw [preferredPrecision, unsigned, if_neg (by simp)] at precision
      have paired : (low, high) ∈ limits.outputLow.zip limits.outputHigh := by
        refine List.mem_iff_getElem?.mpr ⟨channel, ?_⟩
        rw [List.getElem?_zip_eq_some]
        exact ⟨isLow, isHigh⟩
      have fits := List.any_eq_false.mp unneeded _ paired
      simp only [Bool.or_eq_true, beq_iff_eq, decide_eq_true_eq, not_or, not_lt, Exact.abs_eq,
        asymmetryThreshold_eq] at fits
      exact Or.inr ⟨precision, fits⟩

/-- Restoring a step without a shift misses its real value by as much as the interval lies
about zero otherwise than the range. -/
theorem abs_restored_sub_le (width : 0 < target.max - target.min) (positive : 0 < target.max)
    (proportional : target.IsProportional low high) (step : Rat) :
    |(target.min + step) * ((high - low) / (target.max - target.min)) -
        (low + step / (target.max - target.min) * (high - low))| ≤
      1 / 100 * |high| * target.max / (target.max - target.min) := by
  have apart : (target.min * high - target.max * low) / (target.max - target.min) =
      -(low / high - target.min / target.max) *
        (high * (target.max / (target.max - target.min))) := by
    field_simp [proportional.1, positive.ne', width.ne']
    ring
  rw [restored_without_shift width, apart, abs_mul, abs_neg, abs_mul,
    abs_of_pos (div_pos positive width), mul_div_assoc, mul_assoc]
  exact mul_le_mul_of_nonneg_right proportional.2
    (mul_nonneg (abs_nonneg high) (div_pos positive width).le)

/-- What a shift would take away is less than a scale where a target does without. -/
theorem abs_unshifted_le (resolved : resolve limits policy = some target)
    (plain : target.hasZeroPoint = false) (isLow : limits.outputLow[channel]? = some low)
    (isHigh : limits.outputHigh[channel]? = some high) :
    |(target.min * high - target.max * low) / (target.max - target.min)| ≤
      |(high - low) / (target.max - target.min)| := by
  rw [abs_div, abs_div]
  refine div_le_div_of_nonneg_right ?_ (abs_nonneg _)
  rcases fits_of_resolve resolved plain isLow isHigh with ⟨min_eq, zero⟩ | ⟨precision, nonzero, near⟩
  · rw [min_eq, zero low (List.mem_of_getElem? isLow), zero_mul, mul_zero, sub_zero, abs_zero]
    exact abs_nonneg _
  · obtain ⟨supported, range, _⟩ := resolve_eq_some resolved
    rw [precision] at range
    obtain ⟨max_eq, min_le⟩ := bounds_signed supported range
    rw [max_eq] at near ⊢
    generalize apart : low / high - target.min / 127 = part at near
    have low_eq : low = high * (target.min / 127 + part) := by
      rw [← apart, add_sub_cancel, mul_div_cancel₀ _ nonzero]
    have left : target.min * high - 127 * low = high * (-(127 * part)) := by
      rw [low_eq]
      ring
    have right : high - low = high * (1 - target.min / 127 - part) := by
      rw [low_eq]
      ring
    rw [left, right, abs_mul, abs_mul]
    refine mul_le_mul_of_nonneg_left ?_ (abs_nonneg _)
    have wide : 199 / 100 ≤ 1 - target.min / 127 - part := by
      linarith [(abs_le.mp near).2]
    calc |-(127 * part)| = 127 * |part| := by rw [abs_neg, abs_mul, abs_of_pos (by norm_num)]
      _ ≤ 127 * (1 / 100) := mul_le_mul_of_nonneg_left near (by norm_num)
      _ ≤ 199 / 100 := by norm_num
      _ ≤ |1 - target.min / 127 - part| := wide.trans (le_abs_self _)

/-- Where a target does without a zero point, the outputs are zero at the least and so is the
range, or the interval of a channel is proportional to the range. What is restored without a
shift is then off by a small part of the upper limit at most. The channels are those that have
a lower and an upper limit in the lists as they stand, without one being repeated. -/
theorem fits_and_abs_restored_sub_le (resolved : resolve limits policy = some target)
    (plain : target.hasZeroPoint = false) (isLow : limits.outputLow[channel]? = some low)
    (isHigh : limits.outputHigh[channel]? = some high) :
    ((target.min = 0 ∧ ∀ value ∈ limits.outputLow, value = 0) ∨
        target.IsProportional low high) ∧
      ∀ step : Rat, |(target.min + step) * ((high - low) / (target.max - target.min)) -
          (low + step / (target.max - target.min) * (high - low))| ≤
        1 / 100 * |high| * target.max / (target.max - target.min) := by
  obtain ⟨enough, _, positive, minimum, counts⟩ := exists_counts_of_resolve resolved
  have width := counts.width_pos enough
  have fits := (fits_of_resolve resolved plain isLow isHigh).imp_right And.right
  refine ⟨fits, fun step => ?_⟩
  rcases fits with ⟨min_eq, zero⟩ | proportional
  · rw [restored_without_shift width, min_eq, zero low (List.mem_of_getElem? isLow)]
    have bound : 0 ≤ 1 / 100 * |high| * target.max / (target.max - target.min) :=
      div_nonneg (mul_nonneg (by positivity) positive.le) width.le
    rw [min_eq] at bound
    simpa using bound
  · exact abs_restored_sub_le width positive proportional step

/-- Two signed channels, both of them nearly symmetric. -/
def nearlySymmetric : QuantizationLimits Rat :=
  { levels := 256, inputLow := [-128, -1], inputHigh := [127, 1]
    outputLow := [-128, -1], outputHigh := [127, 1] }

theorem fits_nearlySymmetric :
    ∃ target, resolve nearlySymmetric {} = some target ∧ target.hasZeroPoint = false ∧
      ((target.min = 0 ∧ ∀ value ∈ nearlySymmetric.outputLow, value = 0) ∨
        target.IsProportional (-1) 1) ∧
      ∀ step : Rat, |(target.min + step) * ((1 - -1) / (target.max - target.min)) -
          (-1 + step / (target.max - target.min) * (1 - -1))| ≤
        1 / 100 * |1| * target.max / (target.max - target.min) := by
  let target : TargetRange Rat :=
    { precision := .i8, min := -128, max := 127, hasZeroPoint := false }
  have resolved : resolve nearlySymmetric {} = some target := by decide +kernel
  have isLow : nearlySymmetric.outputLow[1]? = some (-1 : Rat) := rfl
  have isHigh : nearlySymmetric.outputHigh[1]? = some (1 : Rat) := rfl
  exact ⟨target, resolved, rfl, fits_and_abs_restored_sub_le resolved rfl isLow isHigh⟩

/-- Two channels with one lower limit for both. -/
def sharedLowerLimit : QuantizationLimits Rat :=
  { levels := 256, inputLow := [-128], inputHigh := [127, 1000]
    outputLow := [-128], outputHigh := [127, 1000] }

/-- A channel that has its lower limit in common with another is not looked at: its interval is
not proportional to the range, and the least value of all is restored as one that is far off. -/
theorem exists_resolve_not_isProportional :
    ∃ target, resolve sharedLowerLimit {} = some target ∧ target.hasZeroPoint = false ∧
      let low := FoldLimits.valueAt sharedLowerLimit.outputLow 1
      let high := FoldLimits.valueAt sharedLowerLimit.outputHigh 1
      low = -128 ∧ high = 1000 ∧ target.min ≠ 0 ∧ ¬ target.IsProportional low high ∧
        1 / 100 * |high| * target.max / (target.max - target.min) <
          |target.min * ((high - low) / (target.max - target.min)) - low| := by
  refine ⟨{ precision := .i8, min := -128, max := 127, hasZeroPoint := false }, by decide +kernel,
    rfl, rfl, rfl, by norm_num, ?_, ?_⟩
  · rintro ⟨_, near⟩
    have ratio : |(-128 : Rat) / 1000 - -128 / 127| ≤ 1 / 100 := near
    norm_num [abs_of_pos] at ratio
  · change 1 / 100 * |(1000 : Rat)| * 127 / (127 - -128) <
      |-128 * ((1000 - -128) / (127 - -128)) - -128|
    norm_num [abs_of_pos, abs_of_neg]

end Unshifted

end TargetRange

end QuantGraph
