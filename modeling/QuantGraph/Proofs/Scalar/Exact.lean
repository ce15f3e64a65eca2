import QuantGraph.Proofs.Quantization.Levels

/-! Roundings and extrema in exact arithmetic. -/

namespace QuantGraph

namespace Exact

/-! ## Rounding -/

section Rounding

variable {value left right : Rat} {number : Int}

theorem exists_round_eq (value : Rat) : ∃ number : Int, round value = number := by
  unfold round
  split
  case isTrue => exact ⟨_, rfl⟩
  case isFalse => exact ⟨_, rfl⟩

/-- A value and the nearest integer are half a unit apart at most. -/
theorem abs_round_sub_le (value : Rat) : |round value - value| ≤ 1 / 2 := by
  unfold round
  rw [abs_le]
  split
  case isTrue =>
    have below := Rat.floor_le (value + 1 / 2)
    have above := Rat.lt_floor_add_one (value + 1 / 2)
    push_cast at above
    constructor <;> linarith
  case isFalse =>
    have above := @Rat.le_ceil (value - 1 / 2)
    have below := @Rat.ceil_lt (value - 1 / 2)
    constructor <;> linarith

theorem round_mono (le : left ≤ right) : round left ≤ round right := by
  unfold round
  split <;> split <;> refine Int.cast_le.mpr ?_
  case isTrue.isTrue =>
    refine Rat.le_floor_iff.mpr ((Rat.floor_le _).trans ?_)
    linarith
  case isTrue.isFalse nonnegative negative => exact absurd (nonnegative.trans le) negative
  case isFalse.isTrue negative nonnegative =>
    have below : (left - 1 / 2).ceil ≤ 0 := Rat.ceil_le_iff.mpr (by push_cast; linarith)
    have above : 0 ≤ (right + 1 / 2).floor := Rat.le_floor_iff.mpr (by push_cast; linarith)
    exact below.trans above
  case isFalse.isFalse =>
    refine Rat.ceil_le_iff.mpr (le_trans ?_ Rat.le_ceil)
    linarith

/-- A value is not rounded below an integer that is not positive as long as it is less than half
a unit below. -/
theorem le_round_iff (nonpositive : number ≤ 0) :
    (number : Rat) ≤ round value ↔ number - 1 / 2 < value := by
  have cast : (number : Rat) ≤ 0 := by exact_mod_cast nonpositive
  unfold round
  split
  case isTrue nonnegative =>
    refine iff_of_true ?_ (by linarith)
    refine Int.cast_le.mpr (nonpositive.trans (Rat.le_floor_iff.mpr ?_))
    push_cast
    linarith
  case isFalse =>
    rw [Int.cast_le, ← Int.sub_one_lt_iff, ← not_le, Rat.ceil_le_iff, not_le]
    push_cast
    constructor <;> intro less <;> linarith

/-- Nor is it rounded above one that is not negative as long as it is less than half a unit
above. -/
theorem round_le_iff (nonnegative : 0 ≤ number) :
    round value ≤ (number : Rat) ↔ value < number + 1 / 2 := by
  have cast : 0 ≤ (number : Rat) := by exact_mod_cast nonnegative
  unfold round
  split
  case isTrue =>
    rw [Int.cast_le, ← Int.lt_add_one_iff, ← not_le, Rat.le_floor_iff, not_le]
    push_cast
    constructor <;> intro less <;> linarith
  case isFalse negative =>
    refine iff_of_true ?_ (by linarith)
    refine Int.cast_le.mpr ((Rat.ceil_le_iff.mpr ?_).trans nonnegative)
    push_cast
    linarith

end Rounding

/-! ## Extrema -/

section Extrema

variable {values : List Rat} {start bound : Rat}

theorem foldl_larger_le :
    values.foldl larger start ≤ bound ↔ start ≤ bound ∧ ∀ value ∈ values, value ≤ bound := by
  induction values generalizing start with
  | nil => simp
  | cons head tail induction =>
      rw [List.foldl_cons, induction, List.forall_mem_cons, ← and_assoc]
      refine and_congr_left fun _ => ?_
      unfold larger
      split
      case isTrue less => exact ⟨fun le => ⟨less.le.trans le, le⟩, And.right⟩
      case isFalse not_less => exact ⟨fun le => ⟨le, (not_lt.mp not_less).trans le⟩, And.left⟩

theorem le_foldl_smaller :
    bound ≤ values.foldl smaller start ↔ bound ≤ start ∧ ∀ value ∈ values, bound ≤ value := by
  induction values generalizing start with
  | nil => simp
  | cons head tail induction =>
      rw [List.foldl_cons, induction, List.forall_mem_cons, ← and_assoc]
      refine and_congr_left fun _ => ?_
      unfold smaller
      split
      case isTrue less => exact ⟨fun le => ⟨le.trans less.le, le⟩, And.right⟩
      case isFalse not_less => exact ⟨fun le => ⟨le, le.trans (not_lt.mp not_less)⟩, And.left⟩

theorem largest_le (nonempty : values ≠ []) :
    Scalar.largest values ≤ bound ↔ ∀ value ∈ values, value ≤ bound := by
  change values.foldl larger (values.headD 0) ≤ bound ↔ _
  rw [foldl_larger_le]
  cases values with
  | nil => exact absurd rfl nonempty
  | cons head tail => exact ⟨And.right, fun all => ⟨all head List.mem_cons_self, all⟩⟩

theorem le_least (nonempty : values ≠ []) :
    bound ≤ Scalar.least values ↔ ∀ value ∈ values, bound ≤ value := by
  change bound ≤ values.foldl smaller (values.headD 0) ↔ _
  rw [le_foldl_smaller]
  cases values with
  | nil => exact absurd rfl nonempty
  | cons head tail => exact ⟨And.right, fun all => ⟨all head List.mem_cons_self, all⟩⟩

theorem le_largest {value : Rat} (member : value ∈ values) : value ≤ Scalar.largest values :=
  (largest_le (List.ne_nil_of_mem member)).mp le_rfl value member

theorem least_le {value : Rat} (member : value ∈ values) : Scalar.least values ≤ value :=
  (le_least (List.ne_nil_of_mem member)).mp le_rfl value member

theorem foldl_mem_of_choice {pick : Rat → Rat → Rat}
    (chooses : ∀ left right, pick left right = left ∨ pick left right = right) :
    values.foldl pick start ∈ start :: values := by
  induction values generalizing start with
  | nil => exact List.mem_singleton_self start
  | cons head tail induction =>
      rw [List.foldl_cons]
      rcases List.mem_cons.mp (@induction (pick start head)) with equal | member
      · rw [equal]
        rcases chooses start head with first | second
        · simp [first]
        · simp [second]
      · exact List.mem_cons_of_mem _ (List.mem_cons_of_mem _ member)

theorem headD_cons_subset (nonempty : values ≠ []) {value : Rat}
    (member : value ∈ values.headD 0 :: values) : value ∈ values := by
  cases values with
  | nil => exact absurd rfl nonempty
  | cons head tail => simpa using member

theorem largest_mem (nonempty : values ≠ []) : (Scalar.largest values : Rat) ∈ values :=
  headD_cons_subset nonempty (foldl_mem_of_choice fun left right => by
    unfold larger
    split
    · exact Or.inr rfl
    · exact Or.inl rfl)

theorem least_mem (nonempty : values ≠ []) : (Scalar.least values : Rat) ∈ values :=
  headD_cons_subset nonempty (foldl_mem_of_choice fun left right => by
    unfold smaller
    split
    · exact Or.inr rfl
    · exact Or.inl rfl)

end Extrema

end Exact

end QuantGraph
