import QuantGraph.Dequantization.Simplify
import QuantGraph.Proofs.Dequantization.Patterns
import QuantGraph.Proofs.Revision.Primitives

/-! The simplifications of dequantization chains, as relations between the graph
before and the graph after. -/

namespace QuantGraph

namespace Graph

section Patterns

variable {graph : Graph α} {id : NodeId}

theorem multiplyPair?_eq_some {found : MultiplyPair α}
    (present : graph.multiplyPair? id = some found) :
    ∃ first second, graph.kind? id = some .multiply ∧ graph.consumerCount id = 1 ∧
      graph.constantOperand? id = some first ∧ graph.consumerCount first.constant = 1 ∧
      graph.Reads id found.next ∧ graph.kind? found.next = some .multiply ∧
      graph.constantOperand? found.next = some second ∧
      graph.consumerCount second.constant = 1 ∧
      found.name = graph.name found.next ∧ found.data = first.data ∧
      found.left = first.tensor ∧ found.right = second.tensor ∧
      found.precision =
        if graph.isRelaxed found.next then (graph.node? found.next).bind Node.precision
        else none := by
  unfold multiplyPair? at present
  simp only [Option.bind_eq_bind, Option.bind_eq_some_iff, Option.guard_eq_some',
    Bool.and_eq_true, beq_iff_eq, isKind_iff] at present
  obtain ⟨_, ⟨kind, count⟩, first, isFirst, _, firstCount, next, isNext, _, nextKind, second,
    isSecond, _, secondCount, equal⟩ := present
  cases equal
  have reads := mem_consumerNodes.mp (List.mem_of_mem_head? isNext)
  exact ⟨first, second, kind, count, isFirst, firstCount, reads, nextKind, isSecond,
    secondCount, rfl, rfl, rfl, rfl, rfl⟩

theorem scaledSum_eq_ok {branch : Nat} {found : ScaledSum α}
    (present : graph.scaledSum id branch = .ok found) :
    ∃ multiply operand addend, graph.inputNode? id branch = some multiply ∧
      graph.kind? multiply = some .multiply ∧
      graph.constantOperand? multiply = some operand ∧
      graph.inputNode? id (1 - min branch 1) = some addend ∧
      graph.constant? addend = some found.bias ∧ found.data = operand.data ∧
      found.scale = operand.constant ∧ found.scaleTensor = operand.tensor := by
  unfold scaledSum at present
  dsimp only at present
  split at present
  case h_1 => cases present
  case h_2 multiply filtered =>
    obtain ⟨read, kind⟩ := Option.filter_eq_some_iff.mp filtered
    split at present
    case h_1 => cases present
    case h_2 operand isOperand =>
      split at present
      case h_1 => cases present
      case h_2 bias isBias =>
        obtain ⟨addend, readAddend, isConstant⟩ := Option.bind_eq_some_iff.mp isBias
        cases Except.ok.inj present
        exact ⟨multiply, operand, addend, read, isKind_iff.mp kind, isOperand, readAddend,
          isConstant, rfl, rfl, rfl⟩

/-- A node takes a constant away from what a Convert to real numbers gives. The constant can be
rounded into the type that the Convert reads. -/
structure SubtractsConverted [Scalar α] (graph : Graph α) (id convert constant : NodeId)
    (tensor : Tensor α) (found : SubtractAfterConvert α) : Prop where
  isSubtract : graph.kind? id = some .subtract
  readsConvert : graph.inputNode? id 0 = some convert
  isConvert : graph.kind? convert = some .convert
  restores : graph.elementType? convert = some found.restoredType
  isReal : found.restoredType.isReal = true
  readsData : graph.input? convert 0 = some found.data
  typed : graph.elementType? found.data.node = some found.shift.elementType
  readsConstant : graph.inputNode? id 1 = some constant
  isConstant : graph.constant? constant = some tensor
  shift_eq : found.shift = tensor.roundWithTolerance found.shift.elementType roundingTolerance
  name_eq : found.name = graph.name id

theorem subtractAfterConvert?_eq_some_iff [Scalar α] {found : SubtractAfterConvert α} :
    graph.subtractAfterConvert? id = some found ↔
      ∃ convert constant tensor, graph.SubtractsConverted id convert constant tensor found := by
  unfold subtractAfterConvert?
  simp only [Option.bind_eq_bind, Option.bind_eq_some_iff, Option.guard_eq_some', isKind_iff]
  constructor
  · rintro ⟨_, isSubtract, convert, readsConvert, _, isConvert, restored, restores, _, isReal, data,
      readsData, type, typed, constant, readsConstant, tensor, isConstant, _, fits, equal⟩
    cases equal
    exact ⟨convert, constant, tensor, isSubtract, readsConvert, isConvert, restores, isReal,
      readsData, typed.trans (congrArg some fits.symm), readsConstant, isConstant,
      by dsimp only; rw [fits], rfl⟩
  · rintro ⟨convert, constant, tensor, found⟩
    refine ⟨(), found.isSubtract, convert, found.readsConvert, (), found.isConvert, _,
      found.restores, (), found.isReal, _, found.readsData, _, found.typed, constant,
      found.readsConstant, tensor, found.isConstant, (), ?_, ?_⟩
    · rw [← found.shift_eq]
    · rw [← found.shift_eq, ← found.name_eq]
      rfl

end Patterns

variable [Scalar α]

/-! ## Relations -/

/-- One Multiply has taken the place of two. -/
def MergesMultiplies (before : Graph α) (id merged : NodeId) (after : Graph α) : Prop :=
  ∃ found product constant first second, before.multiplyPair? id = some found ∧
    found.left.multiply found.right = .ok product ∧
    before.Adds ((Op.constant product).draft "") [] constant first ∧
    first.Adds (((Op.multiply.draft found.name).input found.data 0).input constant.output 1
      |>.withPrecision? found.precision) [found.data, constant.output] merged second ∧
    second.Replaces found.next merged after

/-- A sum and the Multiply on one of its branches have changed places. -/
def SwapsMultiplyAndAdd (before : Graph α) (id : NodeId) (branch : Nat) (product : NodeId)
    (after : Graph α) : Prop :=
  ∃ found bias precision constant sum first second third, before.scaledSum id branch = .ok found ∧
    found.bias.divide found.scaleTensor = .ok bias ∧ before.elementType? id = some precision ∧
    before.Adds ((Op.constant bias).draft "") [] constant first ∧
    first.Adds (((Op.add.draft (before.name id)).input found.data 0).input constant.output 1
      |>.withPrecision precision) [found.data, constant.output] sum second ∧
    second.Adds ((Op.multiply.draft (before.name id ++ "_Multiply")).readAll [sum, found.scale])
      [sum.output, found.scale.output] product third ∧
    third.Replaces id product after

/-- A Subtract before a Convert has taken the place of one after it. -/
def SubtractsBeforeConvert (before : Graph α) (id replacement : NodeId) (after : Graph α) : Prop :=
  ∃ found constant first second, before.subtractAfterConvert? id = some found ∧
    before.Adds ((Op.constant found.shift).draft "") [] constant first ∧
    first.Adds (((Op.subtract.draft found.name).input found.data 0).input constant.output 1
      |>.withPrecision found.restoredType) [found.data, constant.output] replacement second ∧
    second.Replaces id replacement after

end Graph

namespace GraphRevision

open QuantGraph.Graph Revision

variable [Scalar α] {start graph : Graph α} {id : NodeId}

/-! ## Revisions -/

theorem ensures_subtractBeforeConvert (wellFormed : graph.WellFormed)
    (evolves : start.Evolves graph) :
    (subtractBeforeConvert id).Ensures graph start.Evolves fun outcome after =>
      start.Evolves after ∧
        match outcome with
        | none => after = graph
        | some replacement => graph.SubtractsBeforeConvert id replacement after := by
  unfold subtractBeforeConvert
  rw [ensures_bind, ensures_get]
  split
  case h_1 => exact ⟨evolves, rfl⟩
  case h_2 found present =>
    obtain ⟨convert, _, _, pattern⟩ := subtractAfterConvert?_eq_some_iff.mp present
    have reads_convert := reads_of_inputNode? pattern.readsConvert
    have data := (independent_of_reads wellFormed reads_convert).of_reads
      (reads_of_input? pattern.readsData)
    have supports : graph.Supports id [found.data.node] :=
      ⟨wellFormed, live_of_reads wellFormed reads_convert, by simp [data]⟩
    rw [ensures_bind]
    refine ensures_addConstantOn supports evolves fun constant first addsConstant supports
      evolves => ?_
    rw [ensures_bind]
    refine ensures_addOn [found.data, constant.output] supports evolves
      ⟨rfl, by simp⟩ rfl (by simp [NodeId.output])
      fun replacement second adds supports evolves => ?_
    rw [ensures_bind]
    refine ensures_replaceOn supports evolves fun after replaces evolves => ?_
    exact ⟨evolves, found, constant, first, second, present, addsConstant, adds, replaces⟩

theorem ensures_mergeMultiplies (wellFormed : graph.WellFormed) (evolves : start.Evolves graph) :
    (mergeMultiplies id).Ensures graph start.Evolves fun outcome after =>
      start.Evolves after ∧
        match outcome with
        | none => after = graph
        | some merged => graph.MergesMultiplies id merged after := by
  unfold mergeMultiplies
  rw [ensures_bind, ensures_get]
  split
  case h_1 => exact ⟨evolves, rfl⟩
  case h_2 found present =>
    obtain ⟨first, second, _, _, isFirst, _, reads, _, _, _, _, data_eq, _⟩ :=
      multiplyPair?_eq_some present
    have data : graph.Independent found.next found.data.node :=
      data_eq ▸ (independent_of_reads wellFormed reads).of_reads
        (reads_data_of_constantOperand? isFirst)
    have supports : graph.Supports found.next [found.data.node] :=
      ⟨wellFormed, live_of_reads wellFormed reads, by simp [data]⟩
    rw [ensures_bind]
    refine ensures_folded evolves fun product folded => ?_
    rw [ensures_bind]
    refine ensures_addConstantOn supports evolves fun constant middle addsConstant supports
      evolves => ?_
    have reads_pair : (((Op.multiply.draft found.name : Draft α).input found.data 0).input
        constant.output 1 |>.withPrecision? found.precision).ReadsInOrder
          [found.data, constant.output] := by
      refine ⟨?_, by simp⟩
      cases found.precision <;> rfl
    rw [ensures_bind]
    refine ensures_addOn _ supports evolves reads_pair (by cases found.precision <;> rfl)
      (by simp [NodeId.output]) fun merged last adds supports evolves => ?_
    rw [ensures_bind]
    refine ensures_replaceOn supports evolves fun after replaces evolves => ?_
    exact ⟨evolves, found, product, constant, middle, last, present, folded, addsConstant, adds,
      replaces⟩

theorem ensures_swapMultiplyAndAdd (wellFormed : graph.WellFormed)
    (evolves : start.Evolves graph) {branch : Nat} :
    (swapMultiplyAndAdd id branch).Ensures graph start.Evolves fun product after =>
      start.Evolves after ∧ graph.SwapsMultiplyAndAdd id branch product after := by
  unfold swapMultiplyAndAdd
  rw [ensures_bind, ensures_get]
  dsimp only
  rw [ensures_bind]
  refine ensures_ofExcept evolves fun found present => ?_
  rw [ensures_bind]
  refine ensures_folded evolves fun bias folded => ?_
  obtain ⟨multiply, operand, addend, read, _, isOperand, _, _, data_eq, scale_eq, _⟩ :=
    scaledSum_eq_ok present
  have reads_multiply := reads_of_inputNode? read
  have multiply_independent := independent_of_reads wellFormed reads_multiply
  have data : graph.Independent id found.data.node :=
    data_eq ▸ multiply_independent.of_reads (reads_data_of_constantOperand? isOperand)
  have scale : graph.Independent id found.scale :=
    scale_eq ▸ multiply_independent.of_reads
      (reads_constant_of_constantOperand? isOperand)
  have supports : graph.Supports id [found.data.node, found.scale] :=
    ⟨wellFormed, live_of_reads wellFormed reads_multiply, by simp [data, scale]⟩
  split
  case h_1 => exact evolves
  case h_2 precision typed =>
    rw [ensures_bind]
    refine ensures_addConstantOn supports evolves fun constant first addsConstant supports
      evolves => ?_
    rw [ensures_bind]
    refine ensures_addOn [found.data, constant.output] supports evolves
      ⟨rfl, by simp⟩ rfl (by simp [NodeId.output]) fun sum second addsSum supports evolves => ?_
    rw [ensures_bind]
    refine ensures_addOn [sum.output, found.scale.output] supports evolves
      ⟨rfl, by simp⟩ rfl (by simp [NodeId.output])
      fun product third addsProduct supports evolves => ?_
    rw [ensures_bind]
    refine ensures_replaceOn supports evolves fun after replaces evolves => ?_
    exact ⟨evolves, found, bias, precision, constant, sum, first, second, third, present, folded,
      typed, addsConstant, addsSum, addsProduct, replaces⟩

end GraphRevision

end QuantGraph
