import Mathlib
import QuantGraph.Proofs.Dequantization.Division
import QuantGraph.Proofs.Joint.Isolation
import QuantGraph.Proofs.Scalar.Exact

/-! One scale for the fake quantizations of a subgraph. Their union is mapped onto a range with
a zero point, and beside it by less than a unit without one; where it reaches over the range by
half a unit, some fake quantization is narrowed to limits outside of the precision. -/

namespace QuantGraph

namespace SharedScale

/-! ## The union -/

section Union

variable [Scalar α]

def unionLow (shared : SharedScale α) : α :=
  Scalar.least (shared.limits.map QuantizationLimits.leastOutputLow)

def unionHigh (shared : SharedScale α) : α :=
  Scalar.largest (shared.limits.map QuantizationLimits.largestOutputHigh)

/-- Where a value lies once it is scaled and shifted, before it is rounded. -/
def position (shared : SharedScale α) (value : α) : α := value / shared.scale + shared.shift

/-- The union of the output intervals is mapped to a target that has been resolved for it. -/
structure MapsUnion (shared : SharedScale α) (levels : Nat) (policy : Policy) : Prop where
  resolved : TargetRange.resolve (limitsOf levels shared.unionLow shared.unionHigh) policy =
    some shared.target
  scale_eq : shared.scale =
    (shared.unionHigh - shared.unionLow) / (shared.target.max - shared.target.min)
  shift_eq : shared.shift = if shared.target.hasZeroPoint then
      (shared.target.min * shared.unionHigh - shared.target.max * shared.unionLow) /
        (shared.unionHigh - shared.unionLow)
    else 0

theorem mapsUnion_of_ofUnion? {limits : List (QuantizationLimits α)} {levels : Nat}
    {policy : Policy} {restoredType : ElementType} {shared : SharedScale α}
    (union : ofUnion? limits levels policy restoredType = some shared) :
    shared.limits = limits ∧ shared.restoredType = restoredType ∧ shared.MapsUnion levels policy := by
  unfold ofUnion? at union
  dsimp only at union
  obtain ⟨target, resolved, union⟩ := Option.bind_eq_some_iff.mp union
  obtain ⟨_, _, union⟩ := Option.bind_eq_some_iff.mp union
  cases union
  exact ⟨rfl, rfl, resolved, rfl, rfl⟩

/-- A scale that would make everything zero is of no use. -/
theorem scale_ne_zero_of_ofUnion? {limits : List (QuantizationLimits Rat)} {levels : Nat}
    {policy : Policy} {restoredType : ElementType} {shared : SharedScale Rat}
    (union : ofUnion? limits levels policy restoredType = some shared) : shared.scale ≠ 0 := by
  unfold ofUnion? at union
  dsimp only at union
  obtain ⟨target, _, union⟩ := Option.bind_eq_some_iff.mp union
  obtain ⟨_, useful, union⟩ := Option.bind_eq_some_iff.mp union
  obtain ⟨_, differs⟩ := Bool.and_eq_true_iff.mp ((Option.guard_eq_some' _).mp useful)
  cases union
  exact bne_iff_ne.mp differs

end Union

/-! ## Beside the range -/

section Exactly

variable {shared : SharedScale Rat} {levels : Nat} {policy : Policy} {value left right : Rat}

/-- How far the union lies beside the range. -/
def overhang (shared : SharedScale Rat) : Rat :=
  shared.position shared.unionLow - shared.target.min

theorem position_unionLow (shared : SharedScale Rat) :
    shared.position shared.unionLow = shared.target.min + shared.overhang := by
  unfold overhang
  ring

theorem monotone_position (positive : 0 < shared.scale) : Monotone shared.position :=
  fun _ _ le => add_le_add_left (div_le_div_of_nonneg_right le positive.le) _

namespace MapsUnion

variable (maps : shared.MapsUnion levels policy) (wide : shared.unionLow < shared.unionHigh)

include maps

theorem width_pos : 0 < shared.target.max - shared.target.min := by
  obtain ⟨enough, _, _, _, counts⟩ := TargetRange.exists_counts_of_resolve maps.resolved
  exact counts.width_pos enough

theorem fits (plain : shared.target.hasZeroPoint = false) :
    (shared.target.min = 0 ∧ shared.unionLow = 0) ∨ shared.target.precision = .i8 ∧
      shared.target.IsProportional shared.unionLow shared.unionHigh := by
  have isLow : (limitsOf levels shared.unionLow shared.unionHigh).outputLow[0]? =
    some shared.unionLow := rfl
  have isHigh : (limitsOf levels shared.unionLow shared.unionHigh).outputHigh[0]? =
    some shared.unionHigh := rfl
  refine (TargetRange.fits_of_resolve maps.resolved plain isLow isHigh).imp_left fun unsigned => ?_
  exact ⟨unsigned.1, unsigned.2 _ (List.mem_of_getElem? isLow)⟩

include wide

theorem scale_pos : 0 < shared.scale := by
  rw [maps.scale_eq]
  exact div_pos (sub_pos.mpr wide) maps.width_pos

theorem position_mono (le : left ≤ right) : shared.position left ≤ shared.position right :=
  monotone_position (maps.scale_pos wide) le

theorem position_unionHigh : shared.position shared.unionHigh =
    shared.target.max + shared.overhang := by
  have nonzero : shared.unionHigh - shared.unionLow ≠ 0 := (sub_pos.mpr wide).ne'
  have width := maps.width_pos.ne'
  unfold overhang position
  rw [maps.scale_eq]
  field_simp
  ring

/-- Without a zero point the union lies beside the range as much as it lies about zero
otherwise. -/
theorem overhang_of_plain (plain : shared.target.hasZeroPoint = false)
    (high : shared.unionHigh ≠ 0) (positive : 0 < shared.target.max) :
    shared.overhang * (1 - shared.unionLow / shared.unionHigh) =
      shared.target.max * (shared.unionLow / shared.unionHigh -
        shared.target.min / shared.target.max) := by
  have nonzero : shared.unionHigh - shared.unionLow ≠ 0 := (sub_pos.mpr wide).ne'
  have width := maps.width_pos.ne'
  have max := positive.ne'
  unfold overhang position
  rw [maps.shift_eq, if_neg (by simp [plain]), maps.scale_eq]
  field_simp
  ring

/-- With a zero point the union is mapped onto the range, and so it is where the range begins at
zero. -/
theorem overhang_eq_zero
    (settled : shared.target.hasZeroPoint = true ∨ shared.target.min = 0) :
    shared.overhang = 0 := by
  have nonzero : shared.unionHigh - shared.unionLow ≠ 0 := (sub_pos.mpr wide).ne'
  have width := maps.width_pos.ne'
  unfold overhang position
  cases pointed : shared.target.hasZeroPoint with
  | true =>
      rw [maps.shift_eq, if_pos pointed, maps.scale_eq]
      field_simp
      ring
  | false =>
      have min_eq : shared.target.min = 0 := settled.resolve_left (by simp [pointed])
      obtain ⟨supported, range, _⟩ := TargetRange.resolve_eq_some maps.resolved
      rcases maps.fits pointed with ⟨_, low_eq⟩ | ⟨precision, _⟩
      · rw [low_eq, min_eq, maps.shift_eq, if_neg (by simp [pointed])]
        simp
      · rw [precision] at range
        have least := (TargetRange.bounds_signed supported range).2
        linarith

theorem abs_overhang_lt_one : |shared.overhang| < 1 := by
  by_cases settled : shared.target.hasZeroPoint = true ∨ shared.target.min = 0
  · rw [maps.overhang_eq_zero wide settled, abs_zero]
    exact one_pos
  · rw [not_or, Bool.not_eq_true] at settled
    obtain ⟨plain, signed⟩ := settled
    obtain ⟨_, _, positive, _⟩ := TargetRange.exists_counts_of_resolve maps.resolved
    obtain ⟨supported, range, _⟩ := TargetRange.resolve_eq_some maps.resolved
    rcases maps.fits plain with ⟨min_eq, _⟩ | ⟨precision, high, near⟩
    · exact absurd min_eq signed
    · -- A signed range ends at 127 and its ratio is -1 or a little less, so that a ratio
      -- within the threshold leaves less than 1.27 / 1.99 of a unit.
      rw [precision] at range
      obtain ⟨max_eq, least⟩ := TargetRange.bounds_signed supported range
      have ratio : shared.target.min / shared.target.max ≤ -1 := by
        rw [div_le_iff₀ positive]
        linarith
      have equal := maps.overhang_of_plain wide plain high positive
      rw [abs_le] at near
      have apart : (199 : Rat) / 100 ≤ 1 - shared.unionLow / shared.unionHigh := by linarith
      rw [max_eq] at equal near ratio
      rw [abs_lt]
      constructor
      · by_contra below
        nlinarith
      · by_contra above
        nlinarith

theorem integerFor_mono (le : left ≤ right) : shared.integerFor left ≤ shared.integerFor right :=
  Exact.round_mono (maps.position_mono wide le)

/-- The ends of the union are rounded to integers that lie by some units over the range at most,
if and only if the union itself lies beside the range by less than half a unit more. -/
theorem integerFor_union_iff (slack : Nat) :
    shared.target.min - slack ≤ shared.integerFor shared.unionLow ∧
        shared.integerFor shared.unionHigh ≤ shared.target.max + slack ↔
      |shared.overhang| < slack + 1 / 2 := by
  obtain ⟨_, nonpositive, positive, minimum, counts⟩ :=
    TargetRange.exists_counts_of_resolve maps.resolved
  have min_eq := counts.min_eq
  have max_eq : shared.target.max = ((minimum + (levels - 1 : Nat) : Int) : Rat) := by
    rw [counts.max_eq, min_eq]
    push_cast
    rfl
  have minimum_le : minimum ≤ 0 := by exact_mod_cast min_eq ▸ nonpositive
  have maximum_ge : 0 < minimum + (levels - 1 : Nat) := by exact_mod_cast max_eq ▸ positive
  have lowest : shared.target.min - slack = ((minimum - slack : Int) : Rat) := by
    rw [min_eq]
    push_cast
    rfl
  have highest : shared.target.max + slack =
      ((minimum + (levels - 1 : Nat) + slack : Int) : Rat) := by
    rw [max_eq]
    push_cast
    rfl
  change shared.target.min - slack ≤ Exact.round (shared.position shared.unionLow) ∧
    Exact.round (shared.position shared.unionHigh) ≤ shared.target.max + slack ↔ _
  rw [lowest, highest, Exact.le_round_iff (by omega), Exact.round_le_iff (by omega), ← lowest,
    ← highest, shared.position_unionLow, maps.position_unionHigh wide, abs_lt]
  constructor
  · rintro ⟨below, above⟩
    constructor <;> linarith
  · rintro ⟨below, above⟩
    constructor <;> linarith

end MapsUnion

end Exactly

end SharedScale

/-! ## Producers -/

namespace QuantizationLimits

variable {limits : QuantizationLimits Rat} {values : List Rat}

theorem eq_replicate_of_isSingleValued (single : isSingleValued values = true) :
    ∃ value count, values = List.replicate (count + 1) value := by
  induction values with
  | nil => cases single
  | cons head tail induction =>
      cases tail with
      | nil => exact ⟨head, 0, rfl⟩
      | cons next rest =>
          obtain ⟨_, pairs⟩ := Bool.and_eq_true_iff.mp single
          rw [List.tail_cons, List.zip_cons_cons, List.all_cons, Bool.and_eq_true_iff] at pairs
          obtain ⟨equal, others⟩ := pairs
          obtain ⟨value, count, replicated⟩ := induction (by
            rw [isSingleValued, Bool.and_eq_true_iff]
            exact ⟨rfl, others⟩)
          have same : head = value := by
            rw [List.replicate_succ] at replicated
            exact (eq_of_beq equal).trans (List.cons.inj replicated).1
          exact ⟨value, count + 1, by rw [replicated, same, ← List.replicate_succ]⟩

theorem least_replicate (count : Nat) (value : Rat) :
    Scalar.least (List.replicate (count + 1) value) = value :=
  List.eq_of_mem_replicate (Exact.least_mem (by simp))

theorem largest_replicate (count : Nat) (value : Rat) :
    Scalar.largest (List.replicate (count + 1) value) = value :=
  List.eq_of_mem_replicate (Exact.largest_mem (by simp))

/-- A fake quantization with one value for each limit has one output interval. -/
structure HasOutputs (limits : QuantizationLimits Rat) (low high : Rat) : Prop where
  low : ∃ count, limits.outputLow = List.replicate (count + 1) low
  high : ∃ count, limits.outputHigh = List.replicate (count + 1) high

theorem exists_hasOutputs (perTensor : limits.isPerTensor = true) :
    ∃ low high, limits.HasOutputs low high := by
  simp only [isPerTensor, Bool.and_eq_true] at perTensor
  obtain ⟨⟨_, isLow⟩, isHigh⟩ := perTensor
  obtain ⟨low, lows, isLow⟩ := eq_replicate_of_isSingleValued isLow
  obtain ⟨high, highs, isHigh⟩ := eq_replicate_of_isSingleValued isHigh
  exact ⟨low, high, ⟨lows, isLow⟩, ⟨highs, isHigh⟩⟩

namespace HasOutputs

variable {low high : Rat} (outputs : limits.HasOutputs low high)

include outputs

theorem low_mem : low ∈ limits.outputLow := by
  obtain ⟨count, equal⟩ := outputs.low
  rw [equal]
  exact List.mem_replicate.mpr ⟨Nat.succ_ne_zero count, rfl⟩

theorem high_mem : high ∈ limits.outputHigh := by
  obtain ⟨count, equal⟩ := outputs.high
  rw [equal]
  exact List.mem_replicate.mpr ⟨Nat.succ_ne_zero count, rfl⟩

theorem mem_zip : (low, high) ∈ limits.outputLow.zip limits.outputHigh := by
  obtain ⟨lows, isLow⟩ := outputs.low
  obtain ⟨highs, isHigh⟩ := outputs.high
  rw [isLow, isHigh, List.replicate_succ, List.replicate_succ, List.zip_cons_cons]
  exact List.mem_cons_self

theorem getD_low : limits.outputLow.getD 0 0 = low := by
  obtain ⟨count, equal⟩ := outputs.low
  rw [equal]
  rfl

theorem getD_high : limits.outputHigh.getD 0 0 = high := by
  obtain ⟨count, equal⟩ := outputs.high
  rw [equal]
  rfl

theorem leastOutputLow_eq : limits.leastOutputLow = low := by
  obtain ⟨count, equal⟩ := outputs.low
  rw [leastOutputLow, equal, least_replicate]

theorem largestOutputHigh_eq : limits.largestOutputHigh = high := by
  obtain ⟨count, equal⟩ := outputs.high
  rw [largestOutputHigh, equal, largest_replicate]

end HasOutputs

end QuantizationLimits

namespace SharedScale

variable {graph : Graph Rat} {subgraph : Subgraph} {policy : Policy} {shared : SharedScale Rat}
  {levels : Nat}

/-- A mapping has been found for the fake quantizations of a subgraph. -/
structure Serves (shared : SharedScale Rat) (graph : Graph Rat) (subgraph : Subgraph)
    (policy : Policy) (levels : Nat) : Prop where
  maps : shared.MapsUnion levels policy
  length_eq : shared.limits.length = subgraph.quantizers.length
  share : ∀ id limits, (id, limits) ∈ subgraph.quantizers.zip shared.limits →
    graph.quantizationLimits? id = some limits ∧ limits.levels = levels ∧
      ∃ low high, limits.HasOutputs low high

theorem exists_serves (resolves : forSubgraph graph subgraph policy = .ok (some shared)) :
    ∃ levels, shared.Serves graph subgraph policy levels := by
  obtain ⟨limits, concat, levels, isLimits, perTensor, isLevels, union⟩ :=
    JointState.ofUnion?_of_forSubgraph resolves
  obtain ⟨rfl, _, maps⟩ := mapsUnion_of_ofUnion? union
  have all := Outcome.mapM_eq_some.mp isLimits
  refine ⟨levels, maps, all.length_eq.symm, fun id limits member => ⟨?_, ?_, ?_⟩⟩
  · exact (List.forall₂_iff_zip.mp all).2 member
  · exact JointState.levels_eq_of_commonLevels isLevels (List.of_mem_zip member).2
  · have listed := (List.of_mem_zip member).2
    exact QuantizationLimits.exists_hasOutputs (List.all_eq_true.mp perTensor limits listed)

/-- The output intervals of the fake quantizations of a subgraph are intervals. -/
def AreIncreasing (graph : Graph Rat) (subgraph : Subgraph) : Prop :=
  ∀ id ∈ subgraph.quantizers, ∀ limits, graph.quantizationLimits? id = some limits →
    ∀ low ∈ limits.outputLow, ∀ high ∈ limits.outputHigh, low < high

instance (graph : Graph Rat) (subgraph : Subgraph) : Decidable (AreIncreasing graph subgraph) :=
  inferInstanceAs (Decidable (∀ id ∈ subgraph.quantizers, ∀ limits ∈ graph.quantizationLimits? id,
    ∀ low ∈ limits.outputLow, ∀ high ∈ limits.outputHigh, low < high))

/-- Every output interval is part of the union. -/
theorem union_covers {limits : QuantizationLimits Rat} {low high : Rat}
    (member : limits ∈ shared.limits) (outputs : limits.HasOutputs low high) :
    shared.unionLow ≤ low ∧ high ≤ shared.unionHigh := by
  constructor
  · rw [← outputs.leastOutputLow_eq]
    exact Exact.least_le (List.mem_map_of_mem member)
  · rw [← outputs.largestOutputHigh_eq]
    exact Exact.le_largest (List.mem_map_of_mem member)

namespace Serves

variable (serves : shared.Serves graph subgraph policy levels)

include serves

theorem exists_entry {limits : QuantizationLimits Rat} (member : limits ∈ shared.limits) :
    ∃ id, (id, limits) ∈ subgraph.quantizers.zip shared.limits := by
  obtain ⟨place, inside, rfl⟩ := List.getElem_of_mem member
  have bound : place < subgraph.quantizers.length := serves.length_eq ▸ inside
  refine ⟨subgraph.quantizers[place], List.mem_iff_getElem.mpr ⟨place, ?_, List.getElem_zip⟩⟩
  rw [List.length_zip]
  omega

theorem union_wide (nonempty : subgraph.quantizers ≠ []) (increasing : AreIncreasing graph subgraph) :
    shared.unionLow < shared.unionHigh := by
  obtain ⟨id, member⟩ := List.exists_mem_of_ne_nil _ nonempty
  obtain ⟨place, inside, rfl⟩ := List.getElem_of_mem member
  have bound : place < shared.limits.length := serves.length_eq ▸ inside
  obtain ⟨id, paired⟩ := serves.exists_entry (List.getElem_mem bound)
  obtain ⟨found, _, low, high, outputs⟩ := serves.share _ _ paired
  obtain ⟨below, above⟩ := union_covers (List.of_mem_zip paired).2 outputs
  have less := increasing id (List.of_mem_zip paired).1 _ found low outputs.low_mem high
    outputs.high_mem
  linarith

end Serves

/-- A fake quantization is narrowed to its share of the range. -/
structure IsShare (shared : SharedScale Rat) (graph : Graph Rat) (policy : Policy)
    (narrowing : Narrowing Rat) (limits : QuantizationLimits Rat) (low high : Rat) : Prop where
  listed : limits ∈ shared.limits
  found : graph.quantizationLimits? narrowing.id = some limits
  outputs : limits.HasOutputs low high
  values_eq : narrowing.values = shared.dequantization
  precision_eq : narrowing.precision = if policy.updatePrecisions then shared.target.precision
    else (graph.elementType? narrowing.id).getD shared.restoredType
  min_eq : narrowing.min = shared.integerFor low
  max_eq : narrowing.max = shared.integerFor high

theorem Serves.exists_isShare (serves : shared.Serves graph subgraph policy levels)
    {narrowings : List (Narrowing Rat)} {narrowing : Narrowing Rat}
    (works : graph.Works narrowing.id)
    (follows : JointState.FollowsNarrowings graph narrowings
      (JointState.NarrowsToShare subgraph policy shared) narrowing) :
    ∃ limits low high, shared.IsShare graph policy narrowing limits low high := by
  obtain ⟨earlier, moved, middle, absent, _, requantizes, limits, paired, values_eq, precision_eq,
    min_eq, max_eq⟩ := follows
  obtain ⟨found, _, low, high, outputs⟩ := serves.share _ _ paired
  refine ⟨limits, low, high, (List.of_mem_zip paired).2, found, outputs, values_eq, ?_, ?_, ?_⟩
  · rw [precision_eq, Graph.elementType?, Graph.elementType?,
      requantizes.node_other _ works absent]
  · rw [min_eq, outputs.getD_low]
  · rw [max_eq, outputs.getD_high]

end SharedScale

/-! ## The narrowed fake quantizations -/

namespace Interval

variable {interval : Interval Rat} {levels : Nat}

/-- An image lies between the output limits. -/
theorem project_inside (enough : 2 ≤ levels) (le : interval.outputLow ≤ interval.outputHigh)
    (value : Rat) :
    interval.outputLow ≤ interval.project levels value ∧
      interval.project levels value ≤ interval.outputHigh := by
  obtain ⟨step, bound, project⟩ :=
    exists_step enough interval.inputLow interval.inputHigh value
  have width : 0 ≤ interval.outputHigh - interval.outputLow := by linarith
  have some_of : 0 ≤ (step : Rat) / (levels - 1 : Nat) := by positivity
  have positive : (0 : Rat) < (levels - 1 : Nat) := by exact_mod_cast Nat.sub_pos_of_lt enough
  have at_most : (step : Rat) / (levels - 1 : Nat) ≤ 1 :=
    (div_le_one positive).mpr (by exact_mod_cast bound)
  rw [project interval.outputLow interval.outputHigh]
  constructor <;> nlinarith

/-- A rounded image is an integer between output limits that are integers. -/
theorem exists_quantize_eq {low high : Int} (enough : 2 ≤ levels) (le : low ≤ high)
    (isLow : interval.outputLow = low) (isHigh : interval.outputHigh = high) (value : Rat) :
    ∃ number : Int, interval.quantize levels true value = number ∧ low ≤ number ∧ number ≤ high := by
  have ordered : interval.outputLow ≤ interval.outputHigh := by
    rw [isLow, isHigh]
    exact_mod_cast le
  obtain ⟨above, below⟩ := project_inside enough ordered value
  obtain ⟨number, equal⟩ := Exact.exists_round_eq (interval.project levels value)
  have above := Exact.round_mono above
  have below := Exact.round_mono below
  rw [isLow, Exact.round_intCast, equal] at above
  rw [isHigh, Exact.round_intCast, equal] at below
  exact ⟨number, equal, by exact_mod_cast above, by exact_mod_cast below⟩

end Interval

namespace Graph

variable {graph : Graph Rat} {id : NodeId} {low high : Rat}

theorem levels_of_quantizationLimits? {view : FakeQuantizeNode Rat}
    {limits : QuantizationLimits Rat} (isView : graph.fakeQuantizeNode id = .ok view)
    (found : graph.quantizationLimits? id = some limits) : limits.levels = view.levels := by
  obtain ⟨present, isQuantize, _⟩ := fakeQuantizeNode_eq_ok isView
  simp only [quantizationLimits?, Option.bind_eq_bind, Option.bind_eq_some_iff] at found
  obtain ⟨node, isNode, levels, isLevels, _, _, _, _, _, _, _, _, equal⟩ := found
  cases Option.some.inj (present.symm.trans isNode)
  rw [isQuantize] at isLevels
  cases isLevels
  cases equal
  rfl

/-- The output limits of a fake quantization are two numbers. -/
def QuantizesOnto (graph : Graph α) (id : NodeId) (low high : α) : Prop :=
  ∃ type, graph.limit? id .outputLow = some (.scalar type low) ∧
    graph.limit? id .outputHigh = some (.scalar type high)

theorem QuantizesOnto.unique {low' high' : Rat} (left : graph.QuantizesOnto id low high)
    (right : graph.QuantizesOnto id low' high') : low = low' ∧ high = high' := by
  obtain ⟨type, isLow, isHigh⟩ := left
  obtain ⟨type', isLow', isHigh'⟩ := right
  have value_eq {value value' : Rat}
      (equal : some (Tensor.scalar type value) = some (.scalar type' value')) : value = value' :=
    congrArg (fun tensor => tensor.values.read []) (Option.some.inj equal)
  exact ⟨value_eq (isLow.symm.trans isLow'), value_eq (isHigh.symm.trans isHigh')⟩

/-- What an integral fake quantization gives lies between output limits that are integers. -/
theorem HasValue.exists_integer {feeds : Assignment Rat} {value : NDArray Rat}
    {view : FakeQuantizeNode Rat} {type : ElementType} {lowest highest : Int}
    (has : graph.HasValue feeds id value) (isView : graph.fakeQuantizeNode id = .ok view)
    (enough : 2 ≤ view.levels) (integral : view.node.elementType.isIntegral = true)
    (isLow : graph.constant? view.outputLow.node = some (.scalar type lowest))
    (isHigh : graph.constant? view.outputHigh.node = some (.scalar type highest))
    (le : lowest ≤ highest) {index : Index} (holds : value.shape.Holds index) :
    ∃ number : Int, value.get index = number ∧ lowest ≤ number ∧ number ≤ highest := by
  obtain ⟨datum, limits, _, _, _, hasLow, hasHigh, _, _, equal⟩ := has.exists_limits isView enough
  rw [equal] at holds ⊢
  have holds : value.shape.Holds index := holds
  rw [LimitArrays.quantize, NDArray.get_ofFn holds, integral]
  refine Interval.exists_quantize_eq enough le ?_ ?_ _
  · change limits.outputLow.read index = _
    rw [hasLow.eq_of_constant isLow]
    exact NDArray.read_scalar _ index
  · change limits.outputHigh.read index = _
    rw [hasHigh.eq_of_constant isHigh]
    exact NDArray.read_scalar _ index

end Graph

namespace JointState

open QuantGraph.Graph

variable {registry : Registry} {concat : NodeId} {policy : Policy} {state final : JointState Rat}

/-- The subgraph around a Concat has been quantized with one scale. -/
structure SharesScale (state : JointState Rat) (policy : Policy) (shared : SharedScale Rat)
    (levels : Nat) (narrowings : List (Narrowing Rat)) (moved : NodeId → NodeId)
    (chains : NodeId → Option DequantizationChain) (final : JointState Rat) : Prop where
  discovers : Subgraph.Discovers state.graph [] state.subgraph
  nonempty : state.subgraph.quantizers ≠ []
  serves : shared.Serves state.graph state.subgraph policy levels
  share : ∀ narrowing ∈ narrowings, ∃ limits low high,
    shared.IsShare state.graph policy narrowing limits low high
  wellFormed : final.graph.WellFormed
  subgraph_eq : final.subgraph = state.subgraph.relocate moved
  quantizes : ∃ cache narrowed dequantized, state.graph.QuantizesTogether state.subgraph
    policy.updatePrecisions narrowings moved cache chains narrowed dequantized final.graph

theorem exists_sharesScale_of_quantizes (wellFormed : state.graph.WellFormed)
    (constants : state.graph.ConstantsReadNothing)
    (kind : state.graph.kind? concat = some .concat)
    (around : Subgraph.around? registry state.graph concat = some state.subgraph)
    (later : final.graph.WellFormed) (quantizes : QuantizesWithSharedScale policy state final) :
    ∃ shared levels narrowings moved chains,
      SharedScale.forSubgraph state.graph state.subgraph policy = .ok (some shared) ∧
      state.SharesScale policy shared levels narrowings moved chains final := by
  obtain ⟨discovers, nonempty⟩ := Subgraph.discovers_around? kind around
  obtain ⟨shared, narrowings, moved, cache, chains, narrowed, dequantized, resolves, subgraph_eq,
    whole, follows⟩ := exists_quantizesTogether_of_sharedScale wellFormed constants discovers
      quantizes
  obtain ⟨levels, serves⟩ := SharedScale.exists_serves resolves
  exact ⟨shared, levels, narrowings, moved, chains, resolves,
    { discovers := discovers
      nonempty := nonempty
      serves := serves
      share := fun narrowing member =>
        serves.exists_isShare (whole.narrowing_works discovers _ member) (follows _ member)
      wellFormed := later
      subgraph_eq := subgraph_eq
      quantizes := ⟨cache, narrowed, dequantized, whole⟩ }⟩

theorem exists_sharesScale (wellFormed : state.graph.WellFormed)
    (constants : state.graph.ConstantsReadNothing)
    (kind : state.graph.kind? concat = some .concat)
    (around : Subgraph.around? registry state.graph concat = some state.subgraph)
    (ran : (JointRevision.quantizeWithSharedScale policy).runOn state = (.ok true, final)) :
    ∃ shared levels narrowings moved chains,
      SharedScale.forSubgraph state.graph state.subgraph policy = .ok (some shared) ∧
      state.SharesScale policy shared levels narrowings moved chains final := by
  obtain ⟨discovers, _⟩ := Subgraph.discovers_around? kind around
  obtain ⟨kept, quantizes⟩ := (JointRevision.ensures_quantizeWithSharedScale
    (RunRevision.kept_of_discovers wellFormed .refl discovers)).of_runOn ran
  rw [if_pos rfl] at quantizes
  exact exists_sharesScale_of_quantizes wellFormed constants kind around kept.wellFormed quantizes

namespace SharesScale

variable {shared : SharedScale Rat} {levels : Nat} {narrowings : List (Narrowing Rat)}
  {moved : NodeId → NodeId} {chains : NodeId → Option DequantizationChain}
  (shares : state.SharesScale policy shared levels narrowings moved chains final)

include shares

theorem exists_narrowing {quantizer : NodeId} (member : quantizer ∈ state.subgraph.quantizers) :
    ∃ narrowing ∈ narrowings, narrowing.id = quantizer := by
  obtain ⟨_, _, _, whole⟩ := shares.quantizes
  exact whole.exists_narrowing member

theorem exists_narrowing_moved {quantizer : NodeId}
    (member : quantizer ∈ final.subgraph.quantizers) :
    ∃ narrowing ∈ narrowings, moved narrowing.id = quantizer := by
  rw [shares.subgraph_eq] at member
  obtain ⟨origin, listed, rfl⟩ := List.mem_map.mp member
  obtain ⟨narrowing, isNarrowing, rfl⟩ := shares.exists_narrowing listed
  exact ⟨narrowing, isNarrowing, rfl⟩

theorem mem_quantizers {narrowing : Narrowing Rat} (member : narrowing ∈ narrowings) :
    narrowing.id ∈ state.subgraph.quantizers := by
  obtain ⟨_, _, _, whole⟩ := shares.quantizes
  exact whole.mem_quantizers member

theorem holdsNarrowed {narrowing : Narrowing Rat} (member : narrowing ∈ narrowings) :
    state.graph.HoldsNarrowed (narrowings.map Narrowing.id) narrowing moved final.graph := by
  obtain ⟨_, _, _, whole⟩ := shares.quantizes
  exact whole.holdsNarrowed shares.discovers member

theorem exists_share {limits : QuantizationLimits Rat} (listed : limits ∈ shared.limits) :
    ∃ narrowing ∈ narrowings, ∃ low high,
      shared.IsShare state.graph policy narrowing limits low high := by
  obtain ⟨id, paired⟩ := shares.serves.exists_entry listed
  obtain ⟨narrowing, member, rfl⟩ := shares.exists_narrowing (List.of_mem_zip paired).1
  obtain ⟨limits', low, high, share⟩ := shares.share narrowing member
  cases Option.some.inj (share.found.symm.trans (shares.serves.share _ _ paired).1)
  exact ⟨narrowing, member, low, high, share⟩

/-- The ends of the union are limits of fake quantizations. -/
theorem exists_union_attained :
    (∃ narrowing ∈ narrowings, narrowing.min = shared.integerFor shared.unionLow) ∧
      ∃ narrowing ∈ narrowings, narrowing.max = shared.integerFor shared.unionHigh := by
  have some_limits : shared.limits ≠ [] := by
    rw [← List.length_pos_iff_ne_nil, shares.serves.length_eq, List.length_pos_iff_ne_nil]
    exact shares.nonempty
  have lowest : shared.unionLow ∈ shared.limits.map QuantizationLimits.leastOutputLow :=
    Exact.least_mem (by simpa using some_limits)
  have highest : shared.unionHigh ∈ shared.limits.map QuantizationLimits.largestOutputHigh :=
    Exact.largest_mem (by simpa using some_limits)
  constructor
  · obtain ⟨limits, listed, equal⟩ := List.mem_map.mp lowest
    obtain ⟨narrowing, member, low, high, share⟩ := shares.exists_share listed
    exact ⟨narrowing, member, by rw [share.min_eq, ← equal, share.outputs.leastOutputLow_eq]⟩
  · obtain ⟨limits, listed, equal⟩ := List.mem_map.mp highest
    obtain ⟨narrowing, member, low, high, share⟩ := shares.exists_share listed
    exact ⟨narrowing, member, by rw [share.max_eq, ← equal, share.outputs.largestOutputHigh_eq]⟩

theorem enough {narrowing : Narrowing Rat} (member : narrowing ∈ narrowings)
    {view : FakeQuantizeNode Rat} (isView : state.graph.fakeQuantizeNode narrowing.id = .ok view) :
    2 ≤ view.levels := by
  obtain ⟨limits, low, high, share⟩ := shares.share narrowing member
  obtain ⟨id, paired⟩ := shares.serves.exists_entry share.listed
  obtain ⟨enough, _⟩ := TargetRange.exists_counts_of_resolve shares.serves.maps.resolved
  rw [← levels_of_quantizationLimits? isView share.found, (shares.serves.share _ _ paired).2.1]
  exact enough

theorem quantizesOnto {narrowing : Narrowing Rat} (member : narrowing ∈ narrowings) :
    final.graph.QuantizesOnto (moved narrowing.id) narrowing.min narrowing.max := by
  obtain ⟨earlier, view, _, isView, _, _, _, _, _, isLow, isHigh⟩ :=
    (shares.holdsNarrowed member).exists_view
  obtain ⟨_, _, inputs⟩ := fakeQuantizeNode_eq_ok isView
  have exact := shares.wellFormed.exact (moved narrowing.id)
  refine ⟨earlier.node.outputType, ?_, ?_⟩
  · rw [limit?_of_read exact (by rw [inputs]; rfl), isLow]
  · rw [limit?_of_read exact (by rw [inputs]; rfl), isHigh]

variable (increasing : SharedScale.AreIncreasing state.graph state.subgraph)

include increasing

theorem low_lt_high {narrowing : Narrowing Rat} {limits : QuantizationLimits Rat} {low high : Rat}
    (member : narrowing ∈ narrowings)
    (share : shared.IsShare state.graph policy narrowing limits low high) : low < high :=
  increasing narrowing.id (shares.mem_quantizers member) limits share.found low
    share.outputs.low_mem high share.outputs.high_mem

theorem union_wide : shared.unionLow < shared.unionHigh :=
  shares.serves.union_wide shares.nonempty increasing

/-- The shares lie in order between those of the ends of the union. -/
theorem share_inside {narrowing : Narrowing Rat} (member : narrowing ∈ narrowings) :
    shared.integerFor shared.unionLow ≤ narrowing.min ∧ narrowing.min ≤ narrowing.max ∧
      narrowing.max ≤ shared.integerFor shared.unionHigh := by
  obtain ⟨limits, low, high, share⟩ := shares.share narrowing member
  have wide := shares.union_wide increasing
  obtain ⟨below, above⟩ := SharedScale.union_covers share.listed share.outputs
  have less := shares.low_lt_high increasing member share
  rw [share.min_eq, share.max_eq]
  exact ⟨shares.serves.maps.integerFor_mono wide below,
    shares.serves.maps.integerFor_mono wide less.le,
    shares.serves.maps.integerFor_mono wide above⟩

/-- Every share lies within the range if and only if those of the ends of the union do. -/
theorem shares_inside_iff :
    (∀ narrowing ∈ narrowings,
        shared.target.min ≤ narrowing.min ∧ narrowing.max ≤ shared.target.max) ↔
      |shared.overhang| < 1 / 2 := by
  have ends := shares.serves.maps.integerFor_union_iff (shares.union_wide increasing) 0
  rw [Nat.cast_zero, sub_zero, add_zero, zero_add] at ends
  rw [← ends]
  constructor
  · intro inside
    obtain ⟨⟨first, isFirst, min_eq⟩, last, isLast, max_eq⟩ := shares.exists_union_attained
    exact ⟨min_eq ▸ (inside first isFirst).1, max_eq ▸ (inside last isLast).2⟩
  · rintro ⟨below, above⟩ narrowing member
    obtain ⟨low, _, high⟩ := shares.share_inside increasing member
    exact ⟨below.trans low, high.trans above⟩

/-- A share reaches over the range by a unit at most. -/
theorem share_near {narrowing : Narrowing Rat} (member : narrowing ∈ narrowings) :
    shared.target.min - 1 ≤ narrowing.min ∧ narrowing.max ≤ shared.target.max + 1 := by
  have maps := shares.serves.maps
  have wide := shares.union_wide increasing
  have near : |shared.overhang| < ((1 : Nat) : Rat) + 1 / 2 := by
    have less := maps.abs_overhang_lt_one wide
    push_cast
    linarith
  have ends := (maps.integerFor_union_iff wide 1).mpr near
  rw [Nat.cast_one] at ends
  obtain ⟨low, _, high⟩ := shares.share_inside increasing member
  exact ⟨ends.1.trans low, high.trans ends.2⟩

/-- Where all shares lie within the range, conversion to the precision leaves alone what a
narrowed fake quantization gives. -/
theorem convert_eq (declared : policy.updatePrecisions = true) (near : |shared.overhang| < 1 / 2)
    {narrowing : Narrowing Rat} (member : narrowing ∈ narrowings) {feeds : Assignment Rat}
    {value : NDArray Rat} (has : final.graph.HasValue feeds (moved narrowing.id) value)
    {index : Index} (holds : value.shape.Holds index) :
    shared.target.precision.convert (value.get index) = value.get index := by
  obtain ⟨limits, low, high, share⟩ := shares.share narrowing member
  obtain ⟨earlier, view, isEarlier, isView, levels_eq, type_eq, _, _, _, isLow, isHigh⟩ :=
    (shares.holdsNarrowed member).exists_view
  have enough : 2 ≤ view.levels := levels_eq ▸ shares.enough member isEarlier
  have integral : view.node.elementType.isIntegral = true := by
    rw [type_eq, share.precision_eq, if_pos declared]
    exact TargetRange.isIntegral_of_resolve shares.serves.maps.resolved
  obtain ⟨lowest, low_eq⟩ := Exact.exists_round_eq (shared.position low)
  obtain ⟨highest, high_eq⟩ := Exact.exists_round_eq (shared.position high)
  have min_eq : narrowing.min = lowest := share.min_eq.trans low_eq
  have max_eq : narrowing.max = highest := share.max_eq.trans high_eq
  obtain ⟨_, ordered, _⟩ := shares.share_inside increasing member
  obtain ⟨below, above⟩ := (shares.shares_inside_iff increasing).mpr near narrowing member
  rw [min_eq] at isLow ordered below
  rw [max_eq] at isHigh ordered above
  obtain ⟨number, equal, from_low, to_high⟩ := has.exists_integer isView enough integral isLow isHigh
    (by exact_mod_cast ordered) holds
  obtain ⟨_, _, _, minimum, counts⟩ :=
    TargetRange.exists_counts_of_resolve shares.serves.maps.resolved
  rw [counts.min_eq] at below
  rw [counts.max_eq, counts.min_eq] at above
  rw [equal]
  refine ElementType.convert_intCast fun least largest found => ?_
  obtain ⟨inside_low, inside_high⟩ := counts.inside least largest found
  have below : minimum ≤ lowest := by exact_mod_cast below
  have above : highest ≤ minimum + (levels - 1 : Nat) := by exact_mod_cast above
  change minimum + (levels - 1 : Nat) ≤ largest at inside_high
  constructor <;> omega

end SharesScale

/-- Where one scale is found for a subgraph, the new output limits of each fake quantization are
in order and reach over the range of the precision by a unit at most. All of them lie within the
range, and conversion to the precision leaves alone what is quantized, if and only if the union
of the output intervals lies beside the range by less than half a unit; it does not lie beside the
range at all where there is a zero point or the range begins at zero. -/
theorem shares_inside_iff_of_runOn (wellFormed : state.graph.WellFormed)
    (constants : state.graph.ConstantsReadNothing)
    (kind : state.graph.kind? concat = some .concat)
    (around : Subgraph.around? registry state.graph concat = some state.subgraph)
    (increasing : SharedScale.AreIncreasing state.graph state.subgraph)
    (ran : (JointRevision.quantizeWithSharedScale policy).runOn state = (.ok true, final)) :
    ∃ shared, SharedScale.forSubgraph state.graph state.subgraph policy = .ok (some shared) ∧
      (∀ quantizer ∈ final.subgraph.quantizers, ∃ low high,
        final.graph.QuantizesOnto quantizer low high ∧ low ≤ high ∧
          shared.target.min - 1 ≤ low ∧ high ≤ shared.target.max + 1) ∧
      ((∀ quantizer ∈ final.subgraph.quantizers, ∀ low high,
          final.graph.QuantizesOnto quantizer low high →
            shared.target.min ≤ low ∧ high ≤ shared.target.max) ↔
        |shared.overhang| < 1 / 2) ∧
      (shared.target.hasZeroPoint = true ∨ shared.target.min = 0 → shared.overhang = 0) ∧
      (policy.updatePrecisions = true → |shared.overhang| < 1 / 2 →
        ∀ quantizer ∈ final.subgraph.quantizers, ∀ feeds value,
          final.graph.HasValue feeds quantizer value → ∀ index, value.shape.Holds index →
            shared.target.precision.convert (value.get index) = value.get index) := by
  obtain ⟨shared, levels, narrowings, moved, chains, resolves, shares⟩ :=
    exists_sharesScale wellFormed constants kind around ran
  refine ⟨shared, resolves, fun quantizer listed => ?_, ?_, ?_, ?_⟩
  · obtain ⟨narrowing, member, rfl⟩ := shares.exists_narrowing_moved listed
    exact ⟨narrowing.min, narrowing.max, shares.quantizesOnto member,
      (shares.share_inside increasing member).2.1, shares.share_near increasing member⟩
  · rw [← shares.shares_inside_iff increasing]
    constructor
    · intro inside narrowing member
      refine inside (moved narrowing.id) ?_ _ _ (shares.quantizesOnto member)
      rw [shares.subgraph_eq]
      exact List.mem_map_of_mem (shares.mem_quantizers member)
    · intro inside quantizer listed low high onto
      obtain ⟨narrowing, member, rfl⟩ := shares.exists_narrowing_moved listed
      obtain ⟨rfl, rfl⟩ := onto.unique (shares.quantizesOnto member)
      exact inside narrowing member
  · exact shares.serves.maps.overhang_eq_zero (shares.union_wide increasing)
  · intro declared near quantizer listed feeds value has index holds
    obtain ⟨narrowing, member, rfl⟩ := shares.exists_narrowing_moved listed
    exact shares.convert_eq increasing declared near member has holds

/-- Two fake quantizations of a pixel, one of them onto the part above zero alone, and a Concat
of both. -/
def partsOfInterval (low high : Rat) : List (Draft Rat) :=
  let pixel := (NodeId.mk 0).output
  let lowest := (NodeId.mk 1).output
  let zero := (NodeId.mk 2).output
  let highest := (NodeId.mk 3).output
  [{ op := .parameter, name := "pixel"
     declared := some { elementType := .f32, shape := [1, 1, 1, 1] } },
    (Op.constant (.scalar .f32 low)).draft "low",
    (Op.constant (.scalar .f32 0)).draft "zero",
    (Op.constant (.scalar .f32 high)).draft "high",
    ((Op.fakeQuantize 256).draft "whole").readOutputs [pixel, lowest, highest, lowest, highest],
    ((Op.fakeQuantize 256).draft "upper").readOutputs [pixel, zero, highest, zero, highest],
    ((Op.concat 1).draft "joined").readAll [NodeId.mk 4, NodeId.mk 5],
    (Op.result.draft "output").readAll [NodeId.mk 6]]

/-- The subgraph around the Concat of two parts of an interval. -/
def partsSubgraph : Subgraph :=
  { quantizers := [NodeId.mk 4, NodeId.mk 5], concats := [NodeId.mk 6]
    layers := [NodeId.mk 6, NodeId.mk 4, NodeId.mk 5] }

theorem shares_inside_iff_partsOfInterval :
    ∃ (graph : Graph Rat) (state final : JointState Rat),
      Graph.empty.addAll (partsOfInterval (-255) 254) = .ok graph ∧
      state = { toRunState := .ofGraph graph, subgraph := partsSubgraph } ∧
      state.graph.WellFormed ∧ state.graph.ConstantsReadNothing ∧
      state.graph.kind? (NodeId.mk 6) = some .concat ∧
      Subgraph.around? (.all {}) state.graph (NodeId.mk 6) = some state.subgraph ∧
      SharedScale.AreIncreasing state.graph state.subgraph ∧
      (JointRevision.quantizeWithSharedScale {}).runOn state = (.ok true, final) ∧
      ∃ shared, SharedScale.forSubgraph state.graph state.subgraph {} = .ok (some shared) ∧
        (∀ quantizer ∈ final.subgraph.quantizers, ∃ low high,
          final.graph.QuantizesOnto quantizer low high ∧ low ≤ high ∧
            shared.target.min - 1 ≤ low ∧ high ≤ shared.target.max + 1) ∧
        ((∀ quantizer ∈ final.subgraph.quantizers, ∀ low high,
            final.graph.QuantizesOnto quantizer low high →
              shared.target.min ≤ low ∧ high ≤ shared.target.max) ↔
          |shared.overhang| < 1 / 2) ∧
        (shared.target.hasZeroPoint = true ∨ shared.target.min = 0 → shared.overhang = 0) ∧
        (({} : Policy).updatePrecisions = true → |shared.overhang| < 1 / 2 →
          ∀ quantizer ∈ final.subgraph.quantizers, ∀ feeds value,
            final.graph.HasValue feeds quantizer value → ∀ index, value.shape.Holds index →
              shared.target.precision.convert (value.get index) = value.get index) := by
  have ordered : ∀ draft ∈ partsOfInterval (-255) 254, draft.IsInOrder := by decide
  have made : (Graph.empty.addAll (partsOfInterval (-255) 254)).map (fun graph =>
      let state : JointState Rat := { toRunState := .ofGraph graph, subgraph := partsSubgraph }
      (graph.kind? (NodeId.mk 6),
        graph.nodeIds.all fun id => (graph.constant? id).isNone || (graph.inputs id).isEmpty,
        Subgraph.around? (.all {}) graph (NodeId.mk 6),
        decide (SharedScale.AreIncreasing graph partsSubgraph),
        ((JointRevision.quantizeWithSharedScale {}).runOn state).1)) =
      .ok (some .concat, true, some partsSubgraph, true, .ok true) := by decide +kernel
  obtain ⟨graph, added, facts⟩ := Outcome.map_eq_ok.mp made
  simp only [Prod.mk.injEq] at facts
  obtain ⟨kind, constants, around, increasing, changed⟩ := facts
  let state : JointState Rat := { toRunState := .ofGraph graph, subgraph := partsSubgraph }
  have wellFormed : state.graph.WellFormed := Graph.wellFormed_empty.addAll ordered added
  have constants : state.graph.ConstantsReadNothing := constantsReadNothing_of_all constants
  have increasing : SharedScale.AreIncreasing state.graph state.subgraph :=
    of_decide_eq_true increasing
  have ran : (JointRevision.quantizeWithSharedScale {}).runOn state = (.ok true, _) :=
    Prod.ext changed rfl
  exact ⟨graph, state, _, added, rfl, wellFormed, constants, kind, around, increasing, ran,
    shares_inside_iff_of_runOn wellFormed constants kind around increasing ran⟩

set_option synthInstance.maxSize 1024 in
/-- An interval may lie about zero as the range does, within the threshold, and yet be mapped to
limits outside of the precision, where what is quantized cannot be told apart. -/
theorem exists_share_outside :
    ∃ (graph : Graph Rat) (state final : JointState Rat) (feeds : Assignment Rat)
        (value : NDArray Rat),
      Graph.empty.addAll (partsOfInterval (-127) 125) = .ok graph ∧
      state = { toRunState := .ofGraph graph, subgraph := partsSubgraph } ∧
      Subgraph.around? (.all {}) state.graph (NodeId.mk 6) = some state.subgraph ∧
      SharedScale.AreIncreasing state.graph state.subgraph ∧
      (JointRevision.quantizeWithSharedScale {}).runOn state = (.ok true, final) ∧
      (∃ shared, SharedScale.forSubgraph state.graph state.subgraph {} = .ok (some shared) ∧
        shared.target.precision = .i8 ∧ shared.target.min = -128 ∧ shared.target.max = 127) ∧
      NodeId.mk 10 ∈ final.subgraph.quantizers ∧
      final.graph.QuantizesOnto (NodeId.mk 10) (-129) 126 ∧
      final.graph.elementType? (NodeId.mk 10) = some .i8 ∧
      final.graph.HasValue feeds (NodeId.mk 10) value ∧ value.toList = [-129] ∧
      ElementType.i8.convert (-129 : Rat) = -128 := by
  let feeds : Assignment Rat :=
    Assignment.none.set (NodeId.mk 0) (.replicate [1, 1, 1, 1] (-127))
  have made : (Graph.empty.addAll (partsOfInterval (-127) 125)).map (fun graph =>
      let state : JointState Rat := { toRunState := .ofGraph graph, subgraph := partsSubgraph }
      let ran := (JointRevision.quantizeWithSharedScale {}).runOn state
      (Subgraph.around? (.all {}) graph (NodeId.mk 6),
        decide (SharedScale.AreIncreasing graph partsSubgraph),
        ran.1, ran.2.subgraph.quantizers.contains (NodeId.mk 10),
        ran.2.graph.limit? (NodeId.mk 10) .outputLow, ran.2.graph.limit? (NodeId.mk 10) .outputHigh,
        ran.2.graph.elementType? (NodeId.mk 10))) =
      .ok (some partsSubgraph, true, .ok true, true, some (.scalar .f32 (-129)),
        some (.scalar .f32 126), some .i8) := by decide +kernel
  have served : (Graph.empty.addAll (partsOfInterval (-127) 125)).map (fun graph =>
      let state : JointState Rat := { toRunState := .ofGraph graph, subgraph := partsSubgraph }
      let ran := (JointRevision.quantizeWithSharedScale {}).runOn state
      ((SharedScale.forSubgraph graph partsSubgraph {}).map (Option.map SharedScale.target),
        (ran.2.graph.evaluate feeds).map fun values =>
          (values (NodeId.mk 10)).map NDArray.toList)) =
      .ok (.ok (some { precision := .i8, min := -128, max := 127, hasZeroPoint := false }),
        .ok (some [-129])) := by decide +kernel
  obtain ⟨graph, added, facts⟩ := Outcome.map_eq_ok.mp made
  simp only [Prod.mk.injEq] at facts
  obtain ⟨around, increasing, changed, listed, isLow, isHigh, isType⟩ := facts
  rw [added] at served
  obtain ⟨mapped, valued⟩ := Prod.mk.inj (Except.ok.inj served)
  obtain ⟨found, resolves, isTarget⟩ := Outcome.map_eq_ok.mp mapped
  obtain ⟨shared, rfl, target_eq⟩ := Option.map_eq_some_iff.mp isTarget
  obtain ⟨values, evaluated, given⟩ := Outcome.map_eq_ok.mp valued
  obtain ⟨value, isValue, isList⟩ := Option.map_eq_some_iff.mp given
  refine ⟨graph, { toRunState := .ofGraph graph, subgraph := partsSubgraph }, _, feeds, value, added,
    rfl, around, of_decide_eq_true increasing, Prod.ext changed rfl,
    ⟨shared, resolves, ?_⟩, List.contains_iff_mem.mp listed, ⟨.f32, isLow, isHigh⟩, isType,
    hasValue_of_evaluate evaluated isValue, isList, by decide +kernel⟩
  rw [target_eq]
  exact ⟨rfl, rfl, rfl⟩

end JointState

end QuantGraph
