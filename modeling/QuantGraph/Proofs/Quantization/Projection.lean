import Mathlib.Tactic.FieldSimp
import Mathlib.Tactic.Linarith
import Mathlib.Tactic.Ring
import QuantGraph.Proofs.Quantization.Levels
import QuantGraph.Proofs.Scalar.Exact

/-! Fake quantization as a projection, in exact arithmetic. It keeps the order of values, stays
within the output limits and ends on one of the levels. Where input and output limits agree the
levels stay where they are. Rounding the levels may spoil that: levels one apart and halfway
between the integers are rounded to where the next level is the nearest. -/

namespace QuantGraph

namespace Exact

variable {value : Rat} {number : Int}

theorem round_eq_of_abs_sub_lt (near : |value - number| < 1 / 2) : round value = number := by
  obtain ⟨nearest, equal⟩ := exists_round_eq value
  have half := abs_round_sub_le value
  rw [equal] at half ⊢
  rw [abs_le] at half
  rw [abs_lt] at near
  have below : (nearest : Rat) < ((number + 1 : Int) : Rat) := by push_cast; linarith
  have above : ((number - 1 : Int) : Rat) < nearest := by push_cast; linarith
  have below : nearest < number + 1 := by exact_mod_cast below
  have above : number - 1 < nearest := by exact_mod_cast above
  exact congrArg Int.cast (by omega)

/-- Halfway between two integers, the one further from zero is the nearest. -/
theorem round_half (number : Int) :
    round (number + 1 / 2) = if 0 ≤ number then ((number + 1 : Int) : Rat) else number := by
  unfold round
  split
  case isTrue nonnegative =>
    have whole : (number : Rat) + 1 / 2 + 1 / 2 = ((number + 1 : Int) : Rat) := by
      push_cast
      ring
    have above : ((-1 : Int) : Rat) < number := by push_cast; linarith
    have above : -1 < number := by exact_mod_cast above
    rw [whole, Rat.floor_intCast, if_pos (by omega)]
  case isFalse negative =>
    have below : (number : Rat) < ((0 : Int) : Rat) := by push_cast; linarith
    have below : number < 0 := by exact_mod_cast below
    rw [add_sub_cancel_right, Rat.ceil_intCast, if_neg (by omega)]

/-- Nothing above an integer is rounded below it. -/
theorem le_round_of_le (le : (number : Rat) ≤ value) : number ≤ round value :=
  (round_intCast number).symm.le.trans (round_mono le)

theorem round_le_of_le (le : value ≤ number) : round value ≤ number :=
  (round_mono le).trans (round_intCast number).le

end Exact

namespace Interval

/-- The input limits differ, and no limit exceeds its upper one. -/
structure IsOrdered (interval : Interval Rat) : Prop where
  input : interval.inputLow < interval.inputHigh
  output : interval.outputLow ≤ interval.outputHigh

/-- Values are moved to levels of the interval that they come from. -/
structure IsSelfMap (interval : Interval Rat) : Prop where
  low : interval.inputLow = interval.outputLow
  high : interval.inputHigh = interval.outputHigh

/-- A level, counted from the lower output limit. -/
def level (interval : Interval Rat) (levels step : Nat) : Rat :=
  interval.outputLow + step * (interval.outputHigh - interval.outputLow) / (levels - 1 : Nat)

/-- The levels are one apart and halfway between the integers, and two of them at least are
positive. -/
def IsHalfway (interval : Interval Rat) (levels : Nat) : Prop :=
  interval.inputHigh - interval.inputLow = (levels - 1 : Nat) ∧
    (∃ number : Int, interval.inputLow = number + 1 / 2) ∧ 1 < interval.inputHigh

section Branches

variable {interval : Interval Rat} {levels : Nat} {value : Rat}

theorem project_of_le (low : value ≤ interval.inputLow) :
    interval.project levels value = interval.outputLow :=
  if_pos low

theorem project_of_lt (ordered : interval.inputLow < interval.inputHigh)
    (high : interval.inputHigh < value) :
    interval.project levels value = interval.outputHigh := by
  rw [project, if_neg (not_le.mpr (ordered.trans high)), if_pos high]

theorem project_of_mem (above : interval.inputLow < value) (below : value ≤ interval.inputHigh) :
    interval.project levels value =
      Exact.round ((value - interval.inputLow) / (interval.inputHigh - interval.inputLow) *
          (levels - 1 : Nat)) / (levels - 1 : Nat) *
        (interval.outputHigh - interval.outputLow) + interval.outputLow := by
  rw [project, if_neg (not_le.mpr above), if_neg (not_lt.mpr below), Exact.ofNat_eq]
  rfl

theorem steps_pos (enough : 2 ≤ levels) : (0 : Rat) < (levels - 1 : Nat) := by
  exact_mod_cast Nat.sub_pos_of_lt enough

end Branches

/-! ## Division -/

section Division

/-- A quotient, unless it is one by zero. -/
def quotient? (dividend divisor : Rat) : Option Rat :=
  if divisor = 0 then none else some (dividend / divisor)

/-- Projection that fails on a division by zero. -/
def project? (interval : Interval Rat) (levels : Nat) (value : Rat) : Option Rat :=
  if value ≤ interval.inputLow then some interval.outputLow
  else if interval.inputHigh < value then some interval.outputHigh
  else do
    let part ← quotient? (value - interval.inputLow) (interval.inputHigh - interval.inputLow)
    let share ← quotient? (Scalar.round (part * Scalar.ofNat (levels - 1)))
      (Scalar.ofNat (levels - 1))
    return share * (interval.outputHigh - interval.outputLow) + interval.outputLow

theorem quotient?_eq {dividend divisor : Rat} (nonzero : divisor ≠ 0) :
    quotient? dividend divisor = some (dividend / divisor) :=
  if_neg nonzero

theorem project?_eq {levels : Nat} (enough : 2 ≤ levels) (interval : Interval Rat) (value : Rat) :
    interval.project? levels value = some (interval.project levels value) := by
  unfold project? project
  split
  case isTrue => rfl
  case isFalse above =>
    split
    case isTrue => rfl
    case isFalse below =>
      have width : interval.inputHigh - interval.inputLow ≠ 0 := by
        refine (sub_pos.mpr ?_).ne'
        exact (not_le.mp above).trans_le (not_lt.mp below)
      have steps : (Scalar.ofNat (levels - 1) : Rat) ≠ 0 := by
        rw [Exact.ofNat_eq]
        exact (steps_pos enough).ne'
      rw [quotient?_eq width, Option.bind_eq_bind, Option.bind_some, quotient?_eq steps]
      rfl

end Division

/-! ## Order -/

section Order

variable {interval : Interval Rat} {levels : Nat}

theorem exists_level (enough : 2 ≤ levels) (interval : Interval Rat) (value : Rat) :
    ∃ step ≤ levels - 1, interval.project levels value = interval.level levels step := by
  obtain ⟨step, le, image⟩ := exists_step enough interval.inputLow interval.inputHigh value
  refine ⟨step, le, (image interval.outputLow interval.outputHigh).trans ?_⟩
  rw [level]
  ring

theorem level_mem (enough : 2 ≤ levels) (ordered : interval.outputLow ≤ interval.outputHigh)
    {step : Nat} (le : step ≤ levels - 1) :
    interval.outputLow ≤ interval.level levels step ∧
      interval.level levels step ≤ interval.outputHigh := by
  have positive := steps_pos enough
  have width : 0 ≤ interval.outputHigh - interval.outputLow := sub_nonneg.mpr ordered
  have cast : (step : Rat) ≤ (levels - 1 : Nat) := by exact_mod_cast le
  unfold level
  constructor
  · exact le_add_of_nonneg_right
      (div_nonneg (mul_nonneg (Nat.cast_nonneg step) width) positive.le)
  · have part : step * (interval.outputHigh - interval.outputLow) / (levels - 1 : Nat) ≤
        interval.outputHigh - interval.outputLow := by
      rw [div_le_iff₀ positive, mul_comm]
      exact mul_le_mul_of_nonneg_left cast width
    linarith

theorem project_mem (enough : 2 ≤ levels) (ordered : interval.outputLow ≤ interval.outputHigh)
    (value : Rat) :
    interval.outputLow ≤ interval.project levels value ∧
      interval.project levels value ≤ interval.outputHigh := by
  obtain ⟨step, le, image⟩ := exists_level enough interval value
  rw [image]
  exact level_mem enough ordered le

theorem project_mono (enough : 2 ≤ levels) (ordered : interval.IsOrdered) {left right : Rat}
    (le : left ≤ right) : interval.project levels left ≤ interval.project levels right := by
  by_cases low : left ≤ interval.inputLow
  · rw [project_of_le low]
    exact (project_mem enough ordered.output right).1
  · by_cases high : interval.inputHigh < right
    · rw [project_of_lt ordered.input high]
      exact (project_mem enough ordered.output left).2
    · have positive := steps_pos enough
      rw [project_of_mem (not_le.mp low) (le.trans (not_lt.mp high)),
        project_of_mem ((not_le.mp low).trans_le le) (not_lt.mp high)]
      have position : (left - interval.inputLow) / (interval.inputHigh - interval.inputLow) *
            (levels - 1 : Nat) ≤
          (right - interval.inputLow) / (interval.inputHigh - interval.inputLow) *
            (levels - 1 : Nat) := by
        refine mul_le_mul_of_nonneg_right ?_ positive.le
        exact div_le_div_of_nonneg_right (sub_le_sub_right le _) (sub_pos.mpr ordered.input).le
      refine add_le_add_left ?_ _
      refine mul_le_mul_of_nonneg_right ?_ (sub_nonneg.mpr ordered.output)
      exact div_le_div_of_nonneg_right (Exact.round_mono position) positive.le

end Order

/-! ## Levels that stay where they are -/

section SelfMap

variable {interval : Interval Rat} {levels step : Nat} {value : Rat}

/-- Where a value of the input interval lies among the levels. -/
theorem position_eq (self : interval.IsSelfMap) (ordered : interval.inputLow < interval.inputHigh)
    (enough : 2 ≤ levels) (value : Rat) (step : Nat) :
    (value - interval.inputLow) / (interval.inputHigh - interval.inputLow) * (levels - 1 : Nat) =
      step + (value - interval.level levels step) /
        ((interval.inputHigh - interval.inputLow) / (levels - 1 : Nat)) := by
  have width : interval.inputHigh - interval.inputLow ≠ 0 := (sub_pos.mpr ordered).ne'
  have steps := (steps_pos enough).ne'
  rw [level, ← self.low, ← self.high]
  field_simp
  ring

/-- A value less than half a step from a level is moved to that level. -/
theorem project_eq_level (self : interval.IsSelfMap) (ordered : interval.inputLow < interval.inputHigh)
    (enough : 2 ≤ levels) (above : interval.inputLow < value) (below : value ≤ interval.inputHigh)
    (near : |value - interval.level levels step| <
      (interval.inputHigh - interval.inputLow) / (levels - 1 : Nat) / 2) :
    interval.project levels value = interval.level levels step := by
  have positive : 0 < (interval.inputHigh - interval.inputLow) / (levels - 1 : Nat) :=
    div_pos (sub_pos.mpr ordered) (steps_pos enough)
  have nearest : Exact.round ((value - interval.inputLow) /
      (interval.inputHigh - interval.inputLow) * (levels - 1 : Nat)) = ((step : Int) : Rat) := by
    rw [position_eq self ordered enough value step]
    refine Exact.round_eq_of_abs_sub_lt ?_
    rw [Int.cast_natCast, add_sub_cancel_left, abs_div, abs_of_pos positive, div_lt_iff₀ positive]
    linarith
  rw [project_of_mem above below, nearest, level, Int.cast_natCast]
  ring

theorem project_level (self : interval.IsSelfMap) (ordered : interval.inputLow < interval.inputHigh)
    (enough : 2 ≤ levels) (le : step ≤ levels - 1) :
    interval.project levels (interval.level levels step) = interval.level levels step := by
  have bounds := level_mem enough (self.low ▸ self.high ▸ ordered.le) le
  by_cases low : interval.level levels step ≤ interval.inputLow
  · rw [project_of_le low]
    exact le_antisymm bounds.1 (self.low ▸ low)
  · refine project_eq_level self ordered enough (not_le.mp low) (self.high ▸ bounds.2) ?_
    rw [sub_self, abs_zero]
    exact half_pos (div_pos (sub_pos.mpr ordered) (steps_pos enough))

theorem project_project (self : interval.IsSelfMap)
    (ordered : interval.inputLow < interval.inputHigh) (enough : 2 ≤ levels) (value : Rat) :
    interval.project levels (interval.project levels value) = interval.project levels value := by
  obtain ⟨step, le, image⟩ := exists_level enough interval value
  rw [image, project_level self ordered enough le]

/-- The levels are what stays where it is. -/
theorem project_eq_self_iff (self : interval.IsSelfMap)
    (ordered : interval.inputLow < interval.inputHigh) (enough : 2 ≤ levels) :
    interval.project levels value = value ↔
      ∃ step ≤ levels - 1, value = interval.level levels step := by
  constructor
  · intro fixed
    obtain ⟨step, le, image⟩ := exists_level enough interval value
    exact ⟨step, le, fixed.symm.trans image⟩
  · rintro ⟨step, le, rfl⟩
    exact project_level self ordered enough le

/-- No value of the interval is moved by more than half a step. -/
theorem abs_project_sub_le (self : interval.IsSelfMap)
    (ordered : interval.inputLow < interval.inputHigh) (enough : 2 ≤ levels)
    (above : interval.inputLow < value) (below : value ≤ interval.inputHigh) :
    |interval.project levels value - value| ≤
      (interval.inputHigh - interval.inputLow) / (levels - 1 : Nat) / 2 := by
  have width : 0 < interval.inputHigh - interval.inputLow := sub_pos.mpr ordered
  have steps := steps_pos enough
  have positive : 0 < (interval.inputHigh - interval.inputLow) / (levels - 1 : Nat) :=
    div_pos width steps
  have half := Exact.abs_round_sub_le ((value - interval.inputLow) /
    (interval.inputHigh - interval.inputLow) * (levels - 1 : Nat))
  rw [project_of_mem above below, ← self.low, ← self.high]
  have scaled : ∀ nearest : Rat,
      nearest / (levels - 1 : Nat) * (interval.inputHigh - interval.inputLow) + interval.inputLow -
          value =
        (nearest - (value - interval.inputLow) / (interval.inputHigh - interval.inputLow) *
          (levels - 1 : Nat)) *
          ((interval.inputHigh - interval.inputLow) / (levels - 1 : Nat)) := by
    intro nearest
    have width := width.ne'
    have steps := steps.ne'
    field_simp
    ring
  rw [scaled, abs_mul, abs_of_pos positive]
  refine (mul_le_mul_of_nonneg_right half positive.le).trans_eq ?_
  ring

end SelfMap

/-! ## Levels that are rounded -/

section Rounding

variable {interval : Interval Rat} {levels step : Nat}

/-- Halfway between two levels, a value is moved to the upper one. -/
theorem project_halfway {value : Rat} (above : interval.inputLow < value)
    (below : value ≤ interval.inputHigh)
    (half : (value - interval.inputLow) / (interval.inputHigh - interval.inputLow) *
      (levels - 1 : Nat) = (step : Rat) + 1 / 2) :
    interval.project levels value = interval.level levels (step + 1) := by
  have rounded := Exact.round_half step
  rw [if_pos (Int.natCast_nonneg step), Int.cast_natCast] at rounded
  rw [project_of_mem above below, half, rounded, level]
  push_cast
  ring

/-- An integer halfway between two levels one apart is moved to the upper one. That is the level
that was rounded to it, since the lower one would have been rounded up. -/
theorem round_project_half (self : interval.IsSelfMap)
    (ordered : interval.inputLow < interval.inputHigh) (enough : 2 ≤ levels)
    (apart : ¬ interval.IsHalfway levels)
    (one : (interval.inputHigh - interval.inputLow) / (levels - 1 : Nat) = 1) {number : Int}
    (rounded : Exact.round (interval.level levels step) = number)
    (half : |(number : Rat) - interval.level levels step| = 1 / 2)
    (above : interval.inputLow < number) (below : number ≤ interval.inputHigh) :
    Exact.round (interval.project levels number) = number := by
  have width : interval.inputHigh - interval.inputLow = (levels - 1 : Nat) :=
    (div_eq_one_iff_eq (steps_pos enough).ne').mp one
  have level_eq : interval.level levels step = interval.inputLow + step := by
    rw [level, ← self.low, ← self.high, mul_div_assoc, one, mul_one]
  rcases (abs_eq (by norm_num)).mp half with up | down
  · exfalso
    have position : interval.level levels step = ((number - 1 : Int) : Rat) + 1 / 2 := by
      push_cast
      linarith
    rw [position, Exact.round_half] at rounded
    split at rounded
    case isFalse =>
      have equal : number - 1 = number := by exact_mod_cast rounded
      omega
    case isTrue positive =>
      refine apart ⟨width, ⟨number - 1 - step, ?_⟩, ?_⟩
      · push_cast
        linarith
      · have least : (1 : Rat) ≤ number := by exact_mod_cast (by omega : (1 : Int) ≤ number)
        have further : (step : Rat) < (levels - 1 : Nat) := by linarith
        have further : step + 1 ≤ levels - 1 := by exact_mod_cast further
        have further : (step : Rat) + 1 ≤ (levels - 1 : Nat) := by exact_mod_cast further
        linarith
  · have positive : 0 < (step : Rat) := by linarith
    have positive : 0 < step := by exact_mod_cast positive
    obtain ⟨earlier, rfl⟩ : ∃ earlier, step = earlier + 1 := ⟨step - 1, by omega⟩
    have position : (number - interval.inputLow) / (interval.inputHigh - interval.inputLow) *
        (levels - 1 : Nat) = (earlier : Rat) + 1 / 2 := by
      rw [position_eq self ordered enough number (earlier + 1), one]
      push_cast
      linarith
    rw [project_halfway above below position, rounded]

/-- A rounded level keeps the integer to which it is rounded, unless the levels are halfway
between the integers. -/
theorem round_project_round (self : interval.IsSelfMap)
    (ordered : interval.inputLow < interval.inputHigh) (enough : 2 ≤ levels)
    (apart : ¬ interval.IsHalfway levels) (le : step ≤ levels - 1) :
    Exact.round (interval.project levels (Exact.round (interval.level levels step))) =
      Exact.round (interval.level levels step) := by
  have bounds := level_mem enough (self.low ▸ self.high ▸ ordered.le) le
  rw [← self.low, ← self.high] at bounds
  have steps := steps_pos enough
  have half := Exact.abs_round_sub_le (interval.level levels step)
  obtain ⟨number, rounded⟩ := Exact.exists_round_eq (interval.level levels step)
  rw [rounded] at half ⊢
  by_cases low : (number : Rat) ≤ interval.inputLow
  · rw [project_of_le low, ← self.low]
    exact le_antisymm (rounded ▸ Exact.round_mono bounds.1) (Exact.le_round_of_le low)
  by_cases high : interval.inputHigh < number
  · rw [project_of_lt ordered high, ← self.high]
    exact le_antisymm (Exact.round_le_of_le high.le) (rounded ▸ Exact.round_mono bounds.2)
  have above := not_le.mp low
  have below := not_lt.mp high
  -- Short steps leave the integer where it is, long ones lead back to the level.
  rcases lt_trichotomy ((interval.inputHigh - interval.inputLow) / (levels - 1 : Nat)) 1
    with short | one | long
  · refine Exact.round_eq_of_abs_sub_lt ((abs_project_sub_le self ordered enough above below).trans_lt ?_)
    linarith
  · rcases half.lt_or_eq with near | far
    · rw [project_eq_level self ordered enough above below (by rw [one]; exact near), rounded]
    · exact round_project_half self ordered enough apart one rounded far above below
  · rw [project_eq_level self ordered enough above below (half.trans_lt (by linarith)), rounded]

/-- The last level but one of those halfway between the integers is rounded up, and from there
the last is the nearest. -/
theorem exists_round_project_ne (self : interval.IsSelfMap)
    (ordered : interval.inputLow < interval.inputHigh) (enough : 2 ≤ levels)
    (halfway : interval.IsHalfway levels) :
    ∃ value, interval.quantize levels true (interval.quantize levels true value) ≠
      interval.quantize levels true value := by
  obtain ⟨width, ⟨number, low⟩, upper⟩ := halfway
  have positive := steps_pos enough
  obtain ⟨last, equal⟩ : ∃ last : Nat, levels - 1 = last + 1 := ⟨levels - 2, by omega⟩
  have high : interval.inputHigh = ((number + last + 1 : Int) : Rat) + 1 / 2 := by
    rw [equal] at width
    push_cast at width ⊢
    linarith
  have nonnegative : 0 ≤ number + last := by
    rw [high] at upper
    push_cast at upper
    have bound : ((-1 : Int) : Rat) < ((number + last : Int) : Rat) := by push_cast; linarith
    have bound : -1 < number + last := by exact_mod_cast bound
    omega
  have cast : (0 : Rat) ≤ ((number + last : Int) : Rat) := by exact_mod_cast nonnegative
  have below : interval.level levels last = ((number + last : Int) : Rat) + 1 / 2 := by
    rw [level, ← self.low, ← self.high, width, mul_div_assoc, div_self positive.ne', low]
    push_cast
    ring
  have top : interval.level levels (last + 1) = ((number + last + 1 : Int) : Rat) + 1 / 2 := by
    rw [level, ← self.low, ← self.high, width, mul_div_assoc, div_self positive.ne', low]
    push_cast
    ring
  have first : interval.quantize levels true (interval.level levels last) =
      ((number + last + 1 : Int) : Rat) := by
    rw [quantize, project_level self ordered enough (by omega), below]
    exact (Exact.round_half _).trans (if_pos nonnegative)
  have second : interval.quantize levels true ((number + last + 1 : Int) : Rat) =
      ((number + last + 1 + 1 : Int) : Rat) := by
    have inside : interval.inputLow < ((number + last + 1 : Int) : Rat) := by
      have last : (0 : Rat) ≤ last := Nat.cast_nonneg last
      push_cast
      linarith
    have position : (((number + last + 1 : Int) : Rat) - interval.inputLow) /
        (interval.inputHigh - interval.inputLow) * (levels - 1 : Nat) = (last : Rat) + 1 / 2 := by
      rw [width, div_mul_cancel₀ _ positive.ne', low]
      push_cast
      ring
    rw [quantize, project_halfway inside (by rw [high]; linarith) position, top]
    exact (Exact.round_half _).trans (if_pos (by omega))
  refine ⟨interval.level levels last, ?_⟩
  rw [first, second]
  exact fun equal => absurd (Int.cast_inj.mp equal) (by omega)

theorem quantize_quantize_iff (self : interval.IsSelfMap)
    (ordered : interval.inputLow < interval.inputHigh) (enough : 2 ≤ levels) :
    (∀ value, interval.quantize levels true (interval.quantize levels true value) =
        interval.quantize levels true value) ↔ ¬ interval.IsHalfway levels := by
  constructor
  · intro fixed halfway
    obtain ⟨value, moved⟩ := exists_round_project_ne self ordered enough halfway
    exact moved (fixed value)
  · intro apart value
    obtain ⟨step, le, image⟩ := exists_level enough interval value
    change Exact.round (interval.project levels (Exact.round (interval.project levels value))) =
      Exact.round (interval.project levels value)
    rw [image]
    exact round_project_round self ordered enough apart le

end Rounding

/-- What a number of levels makes of an interval. -/
structure ProjectsOnto (interval : Interval Rat) (levels : Nat) : Prop where
  mono : ∀ rounding left right, left ≤ right →
    interval.quantize levels rounding left ≤ interval.quantize levels rounding right
  mem : ∀ value, interval.outputLow ≤ interval.quantize levels false value ∧
    interval.quantize levels false value ≤ interval.outputHigh
  rounded_mem : ∀ value, Exact.round interval.outputLow ≤ interval.quantize levels true value ∧
    interval.quantize levels true value ≤ Exact.round interval.outputHigh
  exists_level : ∀ value, ∃ step ≤ levels - 1, interval.quantize levels false value =
    interval.outputLow + step * (interval.outputHigh - interval.outputLow) / (levels - 1 : Nat)
  idempotent : interval.IsSelfMap → ∀ value,
    interval.quantize levels false (interval.quantize levels false value) =
      interval.quantize levels false value
  rounded_idempotent : interval.IsSelfMap →
    ((∀ value, interval.quantize levels true (interval.quantize levels true value) =
      interval.quantize levels true value) ↔ ¬ interval.IsHalfway levels)
  divides : ∀ value, interval.project? levels value = some (interval.project levels value)

theorem IsOrdered.projectsOnto {interval : Interval Rat} (ordered : interval.IsOrdered)
    {levels : Nat} (enough : 2 ≤ levels) : interval.ProjectsOnto levels where
  mono := by
    intro rounding left right le
    have image := project_mono enough ordered le
    cases rounding with
    | false => exact image
    | true => exact Exact.round_mono image
  mem := project_mem enough ordered.output
  rounded_mem := by
    intro value
    have image := project_mem enough ordered.output value
    exact ⟨Exact.round_mono image.1, Exact.round_mono image.2⟩
  exists_level := exists_level enough interval
  idempotent self value := project_project self ordered.input enough value
  rounded_idempotent self := quantize_quantize_iff self ordered.input enough
  divides := project?_eq enough interval

end Interval

end QuantGraph
