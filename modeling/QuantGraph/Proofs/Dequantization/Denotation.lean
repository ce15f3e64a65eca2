import Mathlib
import QuantGraph.Proofs.Dequantization.Patterns
import QuantGraph.Proofs.Evaluation.Derivation
import QuantGraph.Proofs.Evaluation.Operation
import QuantGraph.Proofs.Graph.Construction
import QuantGraph.Scalar.Exact

/-! What a chain stands for: the value that its reader reads is what the stages of the chain make
of the value of its data. The constants are found by another lookup than the one by which the
stages were recognised, and the two agree. -/

namespace QuantGraph

/-! ## What a chain computes -/

/-- An operation on a value and a constant, in the order of the operands. -/
def ConstantOperand.combine [Scalar α] (operand : ConstantOperand α) (op : BinaryOp)
    (data : NDArray α) : Except BroadcastError (NDArray α) :=
  if operand.slot = 0 then NDArray.combine op data operand.tensor.values
  else NDArray.combine op operand.tensor.values data

namespace DequantizationChain

variable [Scalar α]

/-- Convert a value as the Convert of a chain does. -/
def convertValue (chain : DequantizationChain) (graph : Graph α) (data : NDArray α) : NDArray α :=
  match chain.convert.bind graph.op? with
  | some (.convert destination) => data.map destination.convert
  | _ => data

/-- Subtract the shift of a chain. -/
def shiftValue (chain : DequantizationChain) (graph : Graph α) (data : NDArray α) :
    Except BroadcastError (NDArray α) :=
  match chain.shift? graph with
  | some shift => NDArray.combine .subtract data shift.values
  | none => .ok data

/-- Multiply by the scale of a chain, which is the left operand if the Multiply reads it first. -/
def scaleValue (chain : DequantizationChain) (graph : Graph α) (data : NDArray α) :
    Except BroadcastError (NDArray α) :=
  match chain.scale? graph with
  | some scale =>
      if (chain.multiply.bind fun multiply => graph.inputNode? multiply 0) =
          chain.multiplyConstant? graph then
        NDArray.combine .multiply scale.values data
      else NDArray.combine .multiply data scale.values
  | none => .ok data

/-- What a chain makes of the value of its data. -/
def denote (chain : DequantizationChain) (graph : Graph α) (data : NDArray α) :
    Except BroadcastError (NDArray α) := do
  let shifted ← chain.shiftValue graph (chain.convertValue graph data)
  chain.scaleValue graph shifted

end DequantizationChain

namespace Graph

variable [Scalar α] {graph : Graph α} {feeds values : Assignment α} {id : NodeId}
  {output scaled shifted data : Output} {chain : DequantizationChain}

/-! ## The value of a stage -/

/-- What an operation with a constant gives is computed from the value of the other operand. -/
theorem ReadsOperands.exists_combine {operand : ConstantOperand α} {op : BinaryOp}
    {result : NDArray α} (reads : graph.ReadsOperands id operand)
    (isOp : graph.op? id = some (Op.elementwise op)) (has : graph.HasValue feeds id result) :
    ∃ given, graph.HasValue feeds operand.data.node given ∧
      operand.combine op given = .ok result := by
  obtain ⟨node, inputs, found, derives, computed⟩ := hasValue_iff.mp has
  rw [op?, found, Option.map_some, Option.some.injEq] at isOp
  rw [isOp] at computed
  unfold Derives at derives
  cases reads with
  | constantLast listed _ isConstant =>
      rw [listed] at derives
      obtain _ | ⟨hasData, _ | ⟨hasConstant, _⟩⟩ := derives
      rw [Op.evaluate_elementwise op rfl rfl, hasConstant.eq_of_constant isConstant] at computed
      exact ⟨_, hasData, Outcome.mapError_eq_ok.mp computed⟩
  | constantFirst listed _ isConstant =>
      rw [listed] at derives
      obtain _ | ⟨hasConstant, _ | ⟨hasData, _⟩⟩ := derives
      rw [Op.evaluate_elementwise op rfl rfl, hasConstant.eq_of_constant isConstant] at computed
      exact ⟨_, hasData, Outcome.mapError_eq_ok.mp computed⟩

/-- What a Convert gives is the conversion of what it reads first. -/
theorem HasValue.exists_convert {destination : ElementType} {result : NDArray α}
    (isOp : graph.op? id = some (.convert destination)) (read : graph.input? id 0 = some data)
    (has : graph.HasValue feeds id result) :
    ∃ given, graph.HasValue feeds data.node given ∧ result = given.map destination.convert := by
  obtain ⟨node, inputs, found, derives, computed⟩ := hasValue_iff.mp has
  rw [op?, found, Option.map_some, Option.some.injEq] at isOp
  obtain ⟨rest, listed⟩ := inputs_eq_cons read
  unfold Derives at derives
  rw [listed] at derives
  obtain _ | ⟨hasData, _⟩ := derives
  rw [isOp, Op.evaluate_convert destination rfl] at computed
  exact ⟨_, hasData, (Except.ok.inj computed).symm⟩

omit [Scalar α] in
theorem exists_convert_of_kind? (isKind : graph.kind? id = some .convert) :
    ∃ destination, graph.op? id = some (.convert destination) := by
  rw [kind?_eq_map_op?] at isKind
  obtain ⟨op, isOp, isConvert⟩ := Option.map_eq_some_iff.mp isKind
  obtain ⟨destination, rfl⟩ := Op.exists_eq_convert isConvert
  exact ⟨destination, isOp⟩

omit [Scalar α] in
/-- The Convert of a chain is one. -/
theorem IsChain.exists_op?_convert (isChain : graph.IsChain output scaled shifted chain)
    {convert : NodeId} (present : chain.convert = some convert) :
    convert = shifted.node ∧ graph.input? convert 0 = some chain.data ∧
      ∃ destination, graph.op? convert = some (.convert destination) := by
  obtain ⟨rfl, found⟩ := isChain.convert.stage_eq present
  obtain ⟨isKind, read⟩ := underConvert?_eq_some.mp found
  exact ⟨rfl, read, exists_convert_of_kind? isKind⟩

omit [Scalar α] in
theorem op?_of_kind?_elementwise (op : BinaryOp)
    (isKind : graph.kind? id = some (Op.elementwise op : Op α).kind) :
    graph.op? id = some (Op.elementwise op) := by
  rw [kind?_eq_map_op?] at isKind
  obtain ⟨other, isOp, same⟩ := Option.map_eq_some_iff.mp isKind
  rw [isOp, Op.eq_elementwise op same]

omit [Scalar α] in
/-- The scale is read first exactly when it is the left operand. -/
theorem inputNode?_zero_eq_iff {operand : ConstantOperand α}
    (found : graph.constantOperand? id = some operand) :
    graph.inputNode? id 0 = some operand.constant ↔ operand.slot ≠ 0 := by
  obtain ⟨_, bound, readData, ⟨slot, readConstant⟩, isConstant, varies⟩ :=
    constantOperand?_eq_some found
  constructor
  · intro first isZero
    rw [isZero] at readData
    rw [inputNode?, readData, Option.map_some, Option.some.injEq] at first
    rw [first, isConstant] at varies
    cases varies
  · intro nonzero
    have isOne : operand.slot = 1 := by omega
    rw [isOne] at readConstant
    rw [inputNode?, readConstant, Option.map_some]

namespace IsChain

variable (isChain : graph.IsChain output scaled shifted chain) {result : NDArray α}

include isChain

theorem exists_scaleValue
    (once : ∀ multiply, chain.multiply = some multiply → graph.ReadsOnce multiply 0)
    (has : graph.HasValue feeds output.node result) :
    ∃ given, graph.HasValue feeds scaled.node given ∧
      chain.scaleValue graph given = .ok result := by
  cases present : chain.multiply with
  | none =>
      have peels := isChain.multiply
      rw [present] at peels
      cases peels
      refine ⟨result, has, ?_⟩
      simp [DequantizationChain.scaleValue, DequantizationChain.scale?,
        DequantizationChain.multiplyConstant?, present]
  | some multiply =>
      obtain ⟨rfl, isKind, operand, isOperand, rfl, isConstant, isScale⟩ :=
        isChain.exists_scale present (once multiply present)
      have reads := readsOperands_of_constantOperand? (once _ present) isOperand
      obtain ⟨given, hasGiven, combined⟩ :=
        reads.exists_combine (op?_of_kind?_elementwise .multiply isKind) has
      refine ⟨given, hasGiven, ?_⟩
      have first := inputNode?_zero_eq_iff isOperand
      unfold ConstantOperand.combine at combined
      simp only [DequantizationChain.scaleValue, isScale, present, Option.bind_some, isConstant,
        first, ite_not]
      exact combined

theorem exists_shiftValue
    (once : ∀ subtract, chain.subtract = some subtract → graph.ReadsOnce subtract 0)
    (has : graph.HasValue feeds scaled.node result) :
    ∃ given, graph.HasValue feeds shifted.node given ∧
      chain.shiftValue graph given = .ok result := by
  cases present : chain.subtract with
  | none =>
      have peels := isChain.subtract
      rw [present] at peels
      cases peels
      refine ⟨result, has, ?_⟩
      simp [DequantizationChain.shiftValue, DequantizationChain.shift?,
        DequantizationChain.subtractConstant?, present]
  | some subtract =>
      obtain ⟨rfl, isKind, operand, isOperand, first, rfl, _, isShift⟩ :=
        isChain.exists_shift present
      have reads := readsOperands_of_constantOperand? (once _ present) isOperand
      obtain ⟨given, hasGiven, combined⟩ :=
        reads.exists_combine (op?_of_kind?_elementwise .subtract isKind) has
      rw [ConstantOperand.combine, if_pos first] at combined
      exact ⟨given, hasGiven, by rw [DequantizationChain.shiftValue, isShift]; exact combined⟩

theorem exists_convertValue (has : graph.HasValue feeds shifted.node result) :
    ∃ given, graph.HasValue feeds chain.data.node given ∧
      chain.convertValue graph given = result := by
  cases present : chain.convert with
  | none =>
      have peels := isChain.convert
      rw [present] at peels
      cases peels
      exact ⟨result, has, by simp [DequantizationChain.convertValue, present]⟩
  | some convert =>
      obtain ⟨rfl, read, destination, isOp⟩ := isChain.exists_op?_convert present
      obtain ⟨given, hasGiven, rfl⟩ := has.exists_convert isOp read
      exact ⟨given, hasGiven, by simp [DequantizationChain.convertValue, present, isOp]⟩

end IsChain

/-! ## The value of a chain -/

/-- A chain stands for the value that is read at its end: each of its stages is an operation of
its kind, on a constant that is found where there is one, and together they make that value of
the value of the data. -/
structure Denotes (graph : Graph α) (values : Assignment α) (chain : DequantizationChain)
    (output : Output) : Prop where
  value : ∃ data value, values chain.data.node = some data ∧ values output.node = some value ∧
    chain.denote graph data = .ok value
  convert : ∀ convert, chain.convert = some convert →
    ∃ destination, graph.op? convert = some (.convert destination)
  subtract : ∀ subtract, chain.subtract = some subtract → ∃ constant shift,
    chain.subtractConstant? graph = some constant ∧ chain.shift? graph = some shift ∧
      graph.constant? constant = some shift
  minuend : ∀ subtract, chain.subtract = some subtract → ∃ minuend,
    graph.inputNode? subtract 0 = some minuend ∧ graph.isConstant minuend = false
  multiply : ∀ multiply, chain.multiply = some multiply → ∃ constant scale,
    chain.multiplyConstant? graph = some constant ∧ chain.scale? graph = some scale ∧
      graph.constant? constant = some scale

/-- What a node reads on a slot is what the chain found there makes of the value of its data, where
the Subtract and the Multiply of the chain each read one output on their first slot. -/
theorem denotes_dequantization (consistent : graph.IsConsistent)
    (evaluated : graph.evaluate feeds = .ok values) {slot : Nat}
    (read : graph.input? id slot = some output)
    (once : ∀ stage, (graph.dequantization id slot).subtract = some stage ∨
      (graph.dequantization id slot).multiply = some stage → graph.ReadsOnce stage 0) :
    graph.Denotes values (graph.dequantization id slot) output := by
  obtain ⟨scaled, shifted, isChain⟩ := isChain_dequantization read
  have onceSubtract := fun stage present => once stage (Or.inl present)
  have onceMultiply := fun stage present => once stage (Or.inr present)
  constructor
  case value =>
    have live := (consistent.reads_live (reads_of_input? read)).1
    obtain ⟨value, isValue, _⟩ := evaluateNode_of_evaluate evaluated live
    obtain ⟨lowered, hasLowered, isScaled⟩ :=
      isChain.exists_scaleValue onceMultiply (hasValue_of_evaluate evaluated isValue)
    obtain ⟨real, hasReal, isShifted⟩ := isChain.exists_shiftValue onceSubtract hasLowered
    obtain ⟨data, hasData, isConverted⟩ := isChain.exists_convertValue hasReal
    refine ⟨data, value, hasData.value_eq evaluated, isValue, ?_⟩
    rw [DequantizationChain.denote, isConverted, isShifted]
    exact isScaled
  case convert =>
    intro convert present
    exact (isChain.exists_op?_convert present).2.2
  case subtract =>
    intro subtract present
    obtain ⟨_, _, operand, isOperand, _, _, isConstant, isShift⟩ := isChain.exists_shift present
    exact ⟨_, _, isConstant, isShift, (constantOperand?_eq_some isOperand).2.2.2.2.1⟩
  case minuend =>
    intro subtract present
    obtain ⟨_, _, operand, isOperand, first, _⟩ := isChain.exists_shift present
    obtain ⟨_, _, read, _, _, varies⟩ := constantOperand?_eq_some isOperand
    rw [first] at read
    exact ⟨_, by rw [inputNode?, read, Option.map_some], by simp [Graph.isConstant, varies]⟩
  case multiply =>
    intro multiply present
    obtain ⟨_, _, operand, isOperand, _, isConstant, isScale⟩ :=
      isChain.exists_scale present (onceMultiply multiply present)
    exact ⟨_, _, isConstant, isScale, (constantOperand?_eq_some isOperand).2.2.2.2.1⟩

/-- Raw values are converted, shifted by a column and scaled by a constant that stands on the
left. -/
def restoredRow : List (Draft Rat) :=
  let column : NDArray Rat := { shape := [2, 1], data := #[1, 2], size_data := rfl }
  [{ op := .parameter, name := "x", declared := some { elementType := .u8, shape := [1, 2] } },
    ((Op.convert .f32).draft "converted").readAll [NodeId.mk 0],
    (Op.constant ⟨.f32, column⟩).draft "shift",
    (Op.subtract.draft "shifted").readAll [NodeId.mk 1, NodeId.mk 2],
    (Op.constant (.scalar .f32 3)).draft "scale",
    (Op.multiply.draft "restored").readAll [NodeId.mk 4, NodeId.mk 3],
    (Op.result.draft "output").readAll [NodeId.mk 5]]

theorem denotes_restoredRow :
    ∃ (graph : Graph Rat) (feeds values : Assignment Rat),
      Graph.empty.addAll restoredRow = .ok graph ∧ graph.IsConsistent ∧
      graph.evaluate feeds = .ok values ∧
      graph.input? (NodeId.mk 6) 0 = some (NodeId.mk 5).output ∧
      (∀ stage, (graph.dequantization (NodeId.mk 6) 0).subtract = some stage ∨
        (graph.dequantization (NodeId.mk 6) 0).multiply = some stage → graph.ReadsOnce stage 0) ∧
      graph.Denotes values (graph.dequantization (NodeId.mk 6) 0) (NodeId.mk 5).output := by
  let feeds : Assignment Rat := Assignment.none.set (NodeId.mk 0)
    { shape := [1, 2], data := #[4, 7], size_data := rfl }
  have made : (Graph.empty.addAll restoredRow).map (fun graph =>
      ((graph.dequantization (NodeId.mk 6) 0).subtract,
        (graph.dequantization (NodeId.mk 6) 0).multiply, graph.input? (NodeId.mk 6) 0,
        decide (graph.ReadsOnce (NodeId.mk 3) 0 ∧ graph.ReadsOnce (NodeId.mk 5) 0),
        (graph.evaluate feeds).map fun _ => ())) =
      .ok (some (NodeId.mk 3), some (NodeId.mk 5), some (NodeId.mk 5).output, true, .ok ()) := by
    cbv
  obtain ⟨graph, added, facts⟩ := Outcome.map_eq_ok.mp made
  simp only [Prod.mk.injEq] at facts
  obtain ⟨isSubtract, isMultiply, read, once, evaluated⟩ := facts
  obtain ⟨values, evaluated, _⟩ := Outcome.map_eq_ok.mp evaluated
  have consistent := (Graph.wellFormed_empty.consistent.addAll added).1
  have once := of_decide_eq_true once
  have once : ∀ stage, (graph.dequantization (NodeId.mk 6) 0).subtract = some stage ∨
      (graph.dequantization (NodeId.mk 6) 0).multiply = some stage → graph.ReadsOnce stage 0 := by
    rintro stage (present | present)
    · cases isSubtract.symm.trans present
      exact once.1
    · cases isMultiply.symm.trans present
      exact once.2
  exact ⟨graph, feeds, values, added, consistent, evaluated, read, once,
    denotes_dequantization consistent evaluated read once⟩

/-- Two parameters on one slot of a Multiply, and a constant on the next. -/
def crowdedFactors : List (Draft Rat) :=
  let real (name : String) : Draft Rat :=
    { op := .parameter, name := name, declared := some { elementType := .f32, shape := [1] } }
  [real "x", real "y", (Op.constant (.scalar .f32 2)).draft "two",
    (((Op.multiply.draft "product").input (NodeId.mk 1).output 0).input (NodeId.mk 0).output 0).input
      (NodeId.mk 2).output 1,
    (Op.result.draft "output").readAll [NodeId.mk 3]]

set_option synthInstance.maxSize 512 in
/-- The two parameters are multiplied with each other, but the chain says that one of them is
multiplied by the constant. -/
theorem not_denotes_crowdedFactors :
    ∃ (graph : Graph Rat) (feeds values : Assignment Rat),
      Graph.empty.addAll crowdedFactors = .ok graph ∧ graph.IsConsistent ∧
      graph.evaluate feeds = .ok values ∧
      graph.input? (NodeId.mk 4) 0 = some (NodeId.mk 3).output ∧
      ¬ graph.Denotes values (graph.dequantization (NodeId.mk 4) 0) (NodeId.mk 3).output := by
  let feeds : Assignment Rat := (Assignment.none.set (NodeId.mk 0) (.replicate [1] 5)).set
    (NodeId.mk 1) (.replicate [1] 7)
  have made : (Graph.empty.addAll crowdedFactors).map (fun graph =>
      (graph.input? (NodeId.mk 4) 0,
        (graph.evaluate feeds).map fun values =>
          ((values (NodeId.mk 3)).map NDArray.toList,
            (values (graph.dequantization (NodeId.mk 4) 0).data.node).map fun data =>
              ((graph.dequantization (NodeId.mk 4) 0).denote graph data).map NDArray.toList))) =
      .ok (some (NodeId.mk 3).output, .ok (some [35], some (.ok [10]))) := by decide +kernel
  obtain ⟨graph, added, facts⟩ := Outcome.map_eq_ok.mp made
  obtain ⟨read, evaluated⟩ := Prod.mk.inj facts
  obtain ⟨values, evaluated, facts⟩ := Outcome.map_eq_ok.mp evaluated
  obtain ⟨product, denoted⟩ := Prod.mk.inj facts
  refine ⟨graph, feeds, values, added, (Graph.wellFormed_empty.consistent.addAll added).1, evaluated,
    read, fun denotes => ?_⟩
  obtain ⟨data, value, isData, isValue, equal⟩ := denotes.value
  have isValue : values (NodeId.mk 3) = some value := isValue
  rw [isValue, Option.map_some, Option.some.injEq] at product
  rw [isData, Option.map_some, equal, Option.some.injEq] at denoted
  have same : [35] = ([10] : List Rat) := product.symm.trans (Except.ok.inj denoted)
  exact absurd same (by decide)

end Graph

end QuantGraph
