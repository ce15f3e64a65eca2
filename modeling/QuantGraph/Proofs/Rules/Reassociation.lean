import QuantGraph.Proofs.Dequantization.Simplify
import QuantGraph.Rules.Reassociation

/-! The rules that regroup additions and multiplications, as relations between the
graph before and the graph after. -/

namespace QuantGraph

namespace Graph

section Patterns

variable {graph : Graph α} {id : NodeId}

theorem convertedProduct?_eq_some {found : ConvertedProduct}
    (present : graph.convertedProduct? id = some found) :
    ∃ operand, graph.constantOperand? id = some operand ∧
      graph.kind? operand.data.node = some .convert ∧
      graph.consumerCount operand.data.node = 1 ∧
      graph.elementType? operand.data.node = some found.destination ∧
      found.destination.isReal = true ∧ graph.input? operand.data.node 0 = some found.data ∧
      found.name = graph.name id ∧ found.constant = operand.constant := by
  unfold convertedProduct? at present
  simp only [Option.bind_eq_bind, Option.bind_eq_some_iff, Option.guard_eq_some',
    Bool.and_eq_true, beq_iff_eq, isKind_iff] at present
  obtain ⟨operand, isOperand, _, ⟨kind, count⟩, destination, typed, _, real, data, read, equal⟩ :=
    present
  cases equal
  exact ⟨operand, isOperand, kind, count, typed, real, read, rfl, rfl⟩

theorem shiftedProduct?_eq_some {found : ShiftedProduct α}
    (present : graph.shiftedProduct? id = some found) :
    ∃ operand difference, graph.constantOperand? id = some operand ∧
      graph.kind? operand.data.node = some .subtract ∧
      graph.consumerCount operand.data.node = 1 ∧
      graph.constantOperand? operand.data.node = some difference ∧ difference.slot = 0 ∧
      graph.elementType? id = some found.precision ∧ found.name = graph.name id ∧
      found.data = difference.data ∧ found.scale = operand.constant ∧
      found.scaleTensor = operand.tensor ∧ found.shift = difference.tensor := by
  unfold shiftedProduct? at present
  simp only [Option.bind_eq_bind, Option.bind_eq_some_iff, Option.guard_eq_some',
    Bool.and_eq_true, beq_iff_eq, isKind_iff] at present
  obtain ⟨operand, isOperand, _, ⟨kind, count⟩, difference, isDifference, _, slot, precision,
    typed, equal⟩ := present
  cases equal
  exact ⟨operand, difference, isOperand, kind, count, isDifference, slot, typed, rfl, rfl, rfl,
    rfl, rfl⟩

theorem scaledOperand?_eq_some {multiply : NodeId}
    (present : graph.scaledOperand? id = some multiply) :
    ∃ operand, graph.constantOperand? id = some operand ∧
      (graph.dequantization id operand.slot).multiply = some multiply := by
  simpa [scaledOperand?, Option.bind_eq_some_iff] using present

theorem invertibleBranch?_eq_some [Scalar α] {branch : Nat}
    (present : graph.invertibleBranch? id = some branch) :
    ∃ operand multiply scale, graph.constantOperand? id = some operand ∧
      (graph.dequantization id operand.slot).multiply = some multiply ∧
      graph.consumerCount multiply = 1 ∧
      (graph.dequantization id operand.slot).scale? graph = some scale ∧
      (∀ value ∈ scale.toList, Scalar.differs value 0 = true) ∧ branch = operand.slot := by
  unfold invertibleBranch? at present
  simp only [Option.bind_eq_bind, Option.bind_eq_some_iff, Option.guard_eq_some',
    List.all_eq_true] at present
  obtain ⟨operand, isOperand, multiply, isMultiply, _, count, scale, isScale, _, differs, equal⟩ :=
    present
  cases equal
  exact ⟨operand, multiply, scale, isOperand, isMultiply, count, isScale, differs, rfl⟩

end Patterns

/-! ## Relations -/

/-- A Multiply has taken the place of another one and of the Convert before it. -/
def FusesConvert (before : Graph α) (id : NodeId) (after : Graph α) : Prop :=
  ∃ found fused middle, before.convertedProduct? id = some found ∧
    before.Adds (((Op.multiply.draft found.name).input found.data 0).input found.constant.output 1
      |>.withPrecision found.destination) [found.data, found.constant.output] fused middle ∧
    middle.Replaces id fused after

/-- A Multiply of a difference has become a sum with a product. -/
def DistributesScale [Scalar α] (before : Graph α) (id : NodeId) (after : Graph α) : Prop :=
  ∃ found bias product constant sum first second third, before.shiftedProduct? id = some found ∧
    (found.shift.map (- ·)).multiply found.scaleTensor = .ok bias ∧
    before.Adds (((Op.multiply.draft (found.name ++ "_Multiply")).input found.data 0).input
      found.scale.output 1 |>.withPrecision found.precision)
      [found.data, found.scale.output] product first ∧
    first.Adds ((Op.constant bias).draft "") [] constant second ∧
    second.Adds ((Op.add.draft found.name).readAll [product, constant]
      |>.withPrecision found.precision) [product.output, constant.output] sum third ∧
    third.Replaces id sum after

end Graph

/-! ## Rules -/

namespace GraphRevision

open QuantGraph.Graph Revision

variable {start graph : Graph α} {id : NodeId}

theorem ensures_fuseConvert (wellFormed : graph.WellFormed) (evolves : start.Evolves graph) :
    (fuseConvert id).Ensures graph start.Evolves fun changed after => start.Evolves after ∧
      if changed then graph.FusesConvert id after else after = graph := by
  unfold fuseConvert
  rw [ensures_bind, ensures_get]
  split
  case h_1 => exact ⟨evolves, rfl⟩
  case h_2 found present =>
    obtain ⟨operand, isOperand, _, _, _, _, read, _, constant_eq⟩ :=
      convertedProduct?_eq_some present
    have reads_data := reads_data_of_constantOperand? isOperand
    have data := (independent_of_reads wellFormed reads_data).of_reads
      (reads_of_input? read)
    have constant : graph.Independent id found.constant := constant_eq ▸
      independent_of_reads wellFormed (reads_constant_of_constantOperand? isOperand)
    have supports : graph.Supports id [found.data.node, found.constant] :=
      ⟨wellFormed, live_of_reads wellFormed reads_data, by simp [data, constant]⟩
    rw [ensures_bind]
    refine ensures_addOn [found.data, found.constant.output] supports evolves
      ⟨rfl, by simp⟩ rfl (by simp [NodeId.output]) fun fused middle adds supports evolves => ?_
    rw [ensures_bind]
    refine ensures_replaceOn supports evolves fun after replaces evolves => ?_
    exact ⟨evolves, found, fused, middle, present, adds, replaces⟩

variable [Scalar α]

theorem ensures_distributeScale (wellFormed : graph.WellFormed) (evolves : start.Evolves graph) :
    (distributeScale id).Ensures graph start.Evolves fun changed after => start.Evolves after ∧
      if changed then graph.DistributesScale id after else after = graph := by
  unfold distributeScale
  rw [ensures_bind, ensures_get]
  split
  case h_1 => exact ⟨evolves, rfl⟩
  case h_2 found present =>
    obtain ⟨operand, difference, isOperand, _, _, isDifference, _, _, _, data_eq, scale_eq, _⟩ :=
      shiftedProduct?_eq_some present
    have reads_data := reads_data_of_constantOperand? isOperand
    have data : graph.Independent id found.data.node :=
      data_eq ▸ (independent_of_reads wellFormed reads_data).of_reads
        (reads_data_of_constantOperand? isDifference)
    have scale : graph.Independent id found.scale :=
      scale_eq ▸ independent_of_reads wellFormed (reads_constant_of_constantOperand? isOperand)
    have supports : graph.Supports id [found.data.node, found.scale] :=
      ⟨wellFormed, live_of_reads wellFormed reads_data, by simp [data, scale]⟩
    rw [ensures_bind]
    refine ensures_folded evolves fun bias folded => ?_
    rw [ensures_bind]
    refine ensures_addOn [found.data, found.scale.output] supports evolves
      ⟨rfl, by simp⟩ rfl (by simp [NodeId.output])
      fun product first addsProduct supports evolves => ?_
    rw [ensures_bind]
    refine ensures_addConstantOn supports evolves fun constant second addsConstant supports
      evolves => ?_
    rw [ensures_bind]
    refine ensures_addOn [product.output, constant.output] supports evolves
      ⟨rfl, by simp⟩ rfl (by simp [NodeId.output]) fun sum third addsSum supports evolves => ?_
    rw [ensures_bind]
    refine ensures_replaceOn supports evolves fun after replaces evolves => ?_
    exact ⟨evolves, found, bias, product, constant, sum, first, second, third, present, folded,
      addsProduct, addsConstant, addsSum, replaces⟩

theorem ensures_factorOutScale (wellFormed : graph.WellFormed) (evolves : start.Evolves graph) :
    (factorOutScale id).Ensures graph start.Evolves fun changed after => start.Evolves after ∧
      if changed then ∃ branch product, graph.invertibleBranch? id = some branch ∧
        graph.SwapsMultiplyAndAdd id branch product after
      else after = graph := by
  unfold factorOutScale
  rw [ensures_bind, ensures_get]
  split
  case h_1 => exact ⟨evolves, rfl⟩
  case h_2 branch present =>
    rw [ensures_bind]
    refine (ensures_swapMultiplyAndAdd wellFormed evolves).mono (fun _ bad => bad) ?_
    intro product after swapped
    exact ⟨swapped.1, branch, product, present, swapped.2⟩

theorem ensures_mergeIntoMultiply (wellFormed : graph.WellFormed)
    (evolves : start.Evolves graph) :
    (mergeIntoMultiply id).Ensures graph start.Evolves fun changed after => start.Evolves after ∧
      if changed then ∃ multiply merged, graph.scaledOperand? id = some multiply ∧
        graph.MergesMultiplies multiply merged after
      else after = graph := by
  unfold mergeIntoMultiply
  rw [ensures_bind, ensures_get]
  split
  case h_1 => exact ⟨evolves, rfl⟩
  case h_2 multiply present =>
    rw [ensures_bind]
    refine (ensures_mergeMultiplies wellFormed evolves).mono (fun _ bad => bad) ?_
    intro outcome after merges
    refine ⟨merges.1, ?_⟩
    cases outcome with
    | none => exact merges.2
    | some merged => exact ⟨multiply, merged, present, merges.2⟩

end GraphRevision

end QuantGraph
