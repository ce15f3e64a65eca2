import Mathlib.Data.Option.Basic
import QuantGraph.Dequantization.Chain
import QuantGraph.Proofs.Graph.Evolution

/-! What the patterns that revisions look for say about a graph: which nodes read
which, from the node at which a pattern is found down to what it starts from. -/

namespace QuantGraph

/-- The slot on which the operand of a constant is read, and what is read there. -/
def ConstantOperand.place (operand : ConstantOperand α) : Nat × Output :=
  (operand.slot, operand.data)

namespace Graph

variable {graph : Graph α} {id op : NodeId} {output data : Output}

theorem reads_of_input? {slot : Nat} (found : graph.input? id slot = some output) :
    graph.Reads output.node id := by
  obtain ⟨edge, entering, rfl⟩ := Option.map_eq_some_iff.mp found
  have member := mem_incoming.mp (List.mem_of_find?_eq_some entering)
  exact ⟨edge, member.1, rfl, member.2⟩

theorem reads_of_inputNode? {slot : Nat} {source : NodeId}
    (found : graph.inputNode? id slot = some source) : graph.Reads source id := by
  obtain ⟨output, read, rfl⟩ := Option.map_eq_some_iff.mp found
  exact reads_of_input? read

theorem mem_consumerNodes {reader : NodeId} :
    reader ∈ graph.consumerNodes id ↔ graph.Reads id reader := by
  simp only [consumerNodes, StableSort.mem_dropRepeats, List.mem_map, Prod.exists, mem_consumers,
    exists_and_right, exists_eq_right, Reads]
  constructor
  · rintro ⟨slot, edge, member, source, target, _⟩
    exact ⟨edge, member, source, target⟩
  · rintro ⟨edge, member, source, target⟩
    exact ⟨edge.inputSlot, edge, member, source, target, rfl⟩

theorem isKind_iff {kind : OpKind} : graph.isKind id kind = true ↔ graph.kind? id = some kind := by
  rw [isKind, beq_iff_eq]

theorem isConstant_iff : graph.isConstant id = true ↔ ∃ tensor, graph.constant? id = some tensor := by
  rw [isConstant, Option.isSome_iff_exists]

theorem live_of_reads (wellFormed : graph.WellFormed) {source : NodeId}
    (reads : graph.Reads source id) : graph.contains id = true :=
  (wellFormed.consistent.reads_live reads).2

/-! ## An operation on a constant -/

theorem constantOperand?_eq_some {operand : ConstantOperand α}
    (found : graph.constantOperand? id = some operand) :
    2 ≤ graph.inputCount id ∧ operand.slot ≤ 1 ∧
      graph.input? id operand.slot = some operand.data ∧
      (∃ slot, graph.input? id (1 - operand.slot) = some ⟨operand.constant, slot⟩) ∧
      graph.constant? operand.constant = some operand.tensor ∧
      graph.constant? operand.data.node = none := by
  unfold constantOperand? at found
  simp only [Option.bind_eq_bind, Option.bind_eq_some_iff, Option.guard_eq_some'] at found
  obtain ⟨_, count, left, foundLeft, right, foundRight, found⟩ := found
  split at found
  case h_1 leftValue rightValue =>
    cases found
    exact ⟨count, Nat.zero_le 1, foundLeft, ⟨right.slot, foundRight⟩, rightValue, leftValue⟩
  case h_2 leftValue rightValue =>
    cases found
    exact ⟨count, Nat.le_refl 1, foundRight, ⟨left.slot, foundLeft⟩, leftValue, rightValue⟩
  case h_3 => cases found

theorem reads_data_of_constantOperand? {operand : ConstantOperand α}
    (found : graph.constantOperand? id = some operand) : graph.Reads operand.data.node id :=
  reads_of_input? (constantOperand?_eq_some found).2.2.1

theorem reads_constant_of_constantOperand? {operand : ConstantOperand α}
    (found : graph.constantOperand? id = some operand) : graph.Reads operand.constant id := by
  obtain ⟨_, _, _, ⟨slot, read⟩, _⟩ := constantOperand?_eq_some found
  exact reads_of_input? read

theorem reads_of_constantInput? {constant : NodeId}
    (found : graph.constantInput? id = some constant) : graph.Reads constant id := by
  obtain ⟨output, member, rfl⟩ := List.mem_map.mp (List.mem_of_find?_eq_some found)
  exact reads_of_mem_inputs member

/-- The first two inputs of a node are a constant and the other operand. -/
inductive ReadsOperands (graph : Graph α) (id : NodeId) : ConstantOperand α → Prop where
  | constantLast {data : Output} {constant : NodeId} {slot : UInt8} {rest : List Output}
      {tensor : Tensor α}
      (inputs : graph.inputs id = data :: ⟨constant, slot⟩ :: rest)
      (varies : graph.constant? data.node = none)
      (isConstant : graph.constant? constant = some tensor) :
      ReadsOperands graph id { slot := 0, data := data, constant := constant, tensor := tensor }
  | constantFirst {data : Output} {constant : NodeId} {slot : UInt8} {rest : List Output}
      {tensor : Tensor α}
      (inputs : graph.inputs id = ⟨constant, slot⟩ :: data :: rest)
      (varies : graph.constant? data.node = none)
      (isConstant : graph.constant? constant = some tensor) :
      ReadsOperands graph id { slot := 1, data := data, constant := constant, tensor := tensor }

/-- What the pattern finds on the first two slots are the first two inputs, where one output at
most is read on the first slot. -/
theorem readsOperands_of_constantOperand? (once : graph.ReadsOnce id 0)
    {operand : ConstantOperand α} (found : graph.constantOperand? id = some operand) :
    graph.ReadsOperands id operand := by
  unfold constantOperand? at found
  simp only [Option.bind_eq_bind, Option.bind_eq_some_iff, Option.guard_eq_some'] at found
  obtain ⟨_, _, left, foundLeft, right, foundRight, found⟩ := found
  obtain ⟨rest, inputs⟩ := once.inputs_eq_cons foundLeft foundRight
  split at found
  case h_1 leftValue rightValue =>
    cases found
    exact .constantLast inputs leftValue rightValue
  case h_2 leftValue rightValue =>
    cases found
    exact .constantFirst inputs rightValue leftValue
  case h_3 => cases found

theorem constantOperand?_eq_some_iff (exact : graph.HasExactSlots id)
    {operand : ConstantOperand α} :
    graph.constantOperand? id = some operand ↔ graph.ReadsOperands id operand := by
  constructor
  · exact readsOperands_of_constantOperand? (exact.hasDistinctSlots.readsOnce 0)
  · intro reads
    have count {left right : Output} {rest : List Output}
        (inputs : graph.inputs id = left :: right :: rest) : 2 ≤ graph.inputCount id := by
      rw [← length_inputs, inputs]
      exact Nat.le_add_left 2 rest.length
    cases reads with
    | constantLast inputs varies isConstant | constantFirst inputs varies isConstant =>
        simp [constantOperand?, exact.input?_eq, inputs, varies, isConstant, count inputs]

namespace ReadsOperands

variable {operand : ConstantOperand α} (reads : graph.ReadsOperands id operand)

include reads

theorem constant?_eq : graph.constant? operand.constant = some operand.tensor := by
  cases reads <;> assumption

theorem constant?_data : graph.constant? operand.data.node = none := by
  cases reads <;> assumption

theorem reads_data : graph.Reads operand.data.node id := by
  refine reads_iff_mem_inputs.mpr ?_
  cases reads with
  | constantLast inputs | constantFirst inputs => simp [inputs]

/-- The operands stay when the inputs do, as constants and as what they are otherwise. -/
theorem congr {after : Graph α} (inputs : after.inputs id = graph.inputs id)
    (constants : ∀ output ∈ graph.inputs id,
      after.constant? output.node = graph.constant? output.node) :
    after.ReadsOperands id operand := by
  cases reads with
  | @constantLast data constant slot _ _ listed varies isConstant =>
      rw [listed] at inputs constants
      exact .constantLast inputs ((constants data (by simp)).trans varies)
        ((constants ⟨constant, slot⟩ (by simp)).trans isConstant)
  | @constantFirst data constant slot _ _ listed varies isConstant =>
      rw [listed] at inputs constants
      exact .constantFirst inputs ((constants data (by simp)).trans varies)
        ((constants ⟨constant, slot⟩ (by simp)).trans isConstant)

theorem unique {other : ConstantOperand α} (reads' : graph.ReadsOperands id other) :
    operand = other := by
  cases reads with
  | constantLast inputs varies isConstant | constantFirst inputs varies isConstant =>
      cases reads' <;> simp_all

/-- The constant is the first that is read. -/
theorem constantInput?_eq : graph.constantInput? id = some operand.constant := by
  cases reads with
  | constantLast inputs varies isConstant | constantFirst inputs varies isConstant =>
      simp [constantInput?, inputs, Graph.isConstant, varies, isConstant]

/-- Behind the other operand, the constant is read on the second slot. -/
theorem inputNode?_eq (exact : graph.HasExactSlots id) (first : operand.slot = 0) :
    graph.inputNode? id 1 = some operand.constant := by
  cases reads with
  | constantLast inputs => rw [inputNode?, exact.input?_eq, inputs]; rfl
  | constantFirst => cases first

end ReadsOperands

/-! ## Chains -/

theorem underMultiply?_eq_some : graph.underMultiply? output = some data ↔
    graph.kind? output.node = some .multiply ∧
      ∃ operand, graph.constantOperand? output.node = some operand ∧ operand.data = data := by
  simp [underMultiply?, isKind_iff, Option.bind_eq_some_iff, Option.guard_eq_some']

theorem underSubtract?_eq_some : graph.underSubtract? output = some data ↔
    graph.kind? output.node = some .subtract ∧
      ∃ operand, graph.constantOperand? output.node = some operand ∧ operand.slot = 0 ∧
        operand.data = data := by
  simp [underSubtract?, isKind_iff, Option.bind_eq_some_iff, Option.guard_eq_some']

theorem underConvert?_eq_some : graph.underConvert? output = some data ↔
    graph.kind? output.node = some .convert ∧ graph.input? output.node 0 = some data := by
  simp [underConvert?, isKind_iff, Option.bind_eq_some_iff, Option.guard_eq_some']

section Congruence

variable {before after : Graph α} (kind : after.kind? output.node = before.kind? output.node)

include kind

theorem underMultiply?_congr
    (places : (after.constantOperand? output.node).map ConstantOperand.place =
      (before.constantOperand? output.node).map ConstantOperand.place) :
    after.underMultiply? output = before.underMultiply? output := by
  unfold underMultiply? isKind
  rw [kind]
  revert places
  cases after.constantOperand? output.node <;> cases before.constantOperand? output.node <;>
    simp +contextual [ConstantOperand.place]

theorem underSubtract?_congr
    (places : (after.constantOperand? output.node).map ConstantOperand.place =
      (before.constantOperand? output.node).map ConstantOperand.place) :
    after.underSubtract? output = before.underSubtract? output := by
  unfold underSubtract? isKind
  rw [kind]
  revert places
  cases after.constantOperand? output.node <;> cases before.constantOperand? output.node <;>
    simp +contextual [ConstantOperand.place]

theorem underConvert?_congr
    (read : before.kind? output.node = some .convert →
      after.input? output.node 0 = before.input? output.node 0) :
    after.underConvert? output = before.underConvert? output := by
  refine Option.ext fun data => ?_
  rw [underConvert?_eq_some, underConvert?_eq_some, kind]
  exact and_congr_right fun isConvert => by rw [read isConvert]

end Congruence

/-- A stage of a chain is there with what it is applied to, or it is missing. -/
inductive Peels (under : Output → Option Output) (output : Output) :
    Option NodeId → Output → Prop where
  | stage {data : Output} (found : under output = some data) :
      Peels under output (some output.node) data
  | skipped (missing : under output = none) : Peels under output none output

theorem peels_peel (under : Output → Option Output) (output : Output) :
    Peels under output (peel under output).1 (peel under output).2 := by
  unfold peel
  split
  case h_1 data found => exact .stage found
  case h_2 missing => exact .skipped missing

/-- The stages of a chain, from the output that is read down to its data. -/
structure IsChain (graph : Graph α) (output scaled shifted : Output)
    (chain : DequantizationChain) : Prop where
  multiply : Peels graph.underMultiply? output chain.multiply scaled
  subtract : Peels graph.underSubtract? scaled chain.subtract shifted
  convert : Peels graph.underConvert? shifted chain.convert chain.data

theorem isChain_dequantization {slot : Nat} (found : graph.input? id slot = some output) :
    ∃ scaled shifted, graph.IsChain output scaled shifted (graph.dequantization id slot) := by
  unfold dequantization
  rw [found]
  exact ⟨_, _, peels_peel _ _, peels_peel _ _, peels_peel _ _⟩

/-- Without an input on the slot, there is no stage. -/
theorem dequantization_of_none {slot : Nat} (missing : graph.input? id slot = none) :
    graph.dequantization id slot = .empty id.output := by
  unfold dequantization
  rw [missing]

namespace Peels

variable {under : Output → Option Output} {stage : Option NodeId}

theorem stage_eq (peels : Peels under output stage data) {node : NodeId}
    (found : stage = some node) : node = output.node ∧ under output = some data := by
  cases peels with
  | stage present => exact ⟨(Option.some.inj found).symm, present⟩
  | skipped => cases found

theorem congr {under' : Output → Option Output} (peels : Peels under output stage data)
    (same : under' output = under output) : Peels under' output stage data := by
  cases peels with
  | stage found => exact .stage (same.trans found)
  | skipped missing => exact .skipped (same.trans missing)

theorem live (peels : Peels under output stage data) (wellFormed : graph.WellFormed)
    (live : graph.contains output.node = true)
    (reads : ∀ data, under output = some data → graph.Reads data.node output.node) :
    graph.contains data.node = true := by
  cases peels with
  | stage found => exact (wellFormed.consistent.reads_live (reads data found)).1
  | skipped => exact live

theorem independent (peels : Peels under output stage data)
    (reads : ∀ data, under output = some data → graph.Reads data.node output.node)
    (independent : graph.Independent op output.node) : graph.Independent op data.node := by
  cases peels with
  | stage found => exact independent.of_reads (reads data found)
  | skipped => exact independent

end Peels

theorem reads_of_underMultiply? (found : graph.underMultiply? output = some data) :
    graph.Reads data.node output.node := by
  obtain ⟨_, operand, present, rfl⟩ := underMultiply?_eq_some.mp found
  exact reads_data_of_constantOperand? present

theorem reads_of_underSubtract? (found : graph.underSubtract? output = some data) :
    graph.Reads data.node output.node := by
  obtain ⟨_, operand, present, _, rfl⟩ := underSubtract?_eq_some.mp found
  exact reads_data_of_constantOperand? present

theorem reads_of_underConvert? (found : graph.underConvert? output = some data) :
    graph.Reads data.node output.node :=
  reads_of_input? (underConvert?_eq_some.mp found).2

/-- The data and the stages of a chain do not depend on a node. -/
structure ChainIndependent (graph : Graph α) (op : NodeId) (chain : DequantizationChain) :
    Prop where
  data : graph.Independent op chain.data.node
  convert : ∀ node, chain.convert = some node → graph.Independent op node
  subtract : ∀ node, chain.subtract = some node → graph.Independent op node
  multiply : ∀ node, chain.multiply = some node → graph.Independent op node

theorem IsChain.independent {scaled shifted : Output} {chain : DequantizationChain}
    (isChain : graph.IsChain output scaled shifted chain)
    (independent : graph.Independent op output.node) : graph.ChainIndependent op chain := by
  have scaled_independent := isChain.multiply.independent
    (fun _ => reads_of_underMultiply?) independent
  have shifted_independent := isChain.subtract.independent
    (fun _ => reads_of_underSubtract?) scaled_independent
  refine ⟨isChain.convert.independent (fun _ => reads_of_underConvert?)
    shifted_independent, ?_, ?_, ?_⟩
  · intro node found
    exact (isChain.convert.stage_eq found).1 ▸ shifted_independent
  · intro node found
    exact (isChain.subtract.stage_eq found).1 ▸ scaled_independent
  · intro node found
    exact (isChain.multiply.stage_eq found).1 ▸ independent

/-- A chain with a stage is read by its reader, and does not depend on it. -/
theorem chainIndependent_dequantization (wellFormed : graph.WellFormed) {slot : Nat}
    (present : (graph.dequantization id slot).multiply ≠ none) :
    graph.contains id = true ∧ graph.ChainIndependent id (graph.dequantization id slot) := by
  obtain missing | ⟨output, found⟩ := Option.eq_none_or_eq_some (graph.input? id slot)
  · rw [dequantization_of_none missing] at present
    exact absurd rfl present
  · have reads := reads_of_input? found
    obtain ⟨scaled, shifted, isChain⟩ := isChain_dequantization found
    exact ⟨live_of_reads wellFormed reads,
      isChain.independent (independent_of_reads wellFormed reads)⟩

end Graph

namespace DequantizationChain

open QuantGraph.Graph

variable {graph : Graph α} {chain : DequantizationChain} {constant : NodeId}

theorem subtractConstant?_eq_some (found : chain.subtractConstant? graph = some constant) :
    ∃ subtract, chain.subtract = some subtract ∧ graph.inputNode? subtract 1 = some constant ∧
      graph.isConstant constant = true := by
  unfold subtractConstant? at found
  simp only [Option.bind_eq_bind, Option.bind_eq_some_iff, Option.guard_eq_some'] at found
  obtain ⟨subtract, present, constant', read, _, isConstant, equal⟩ := found
  cases equal
  exact ⟨subtract, present, read, isConstant⟩

theorem multiplyConstant?_eq_some (found : chain.multiplyConstant? graph = some constant) :
    ∃ multiply, chain.multiply = some multiply ∧ graph.constantInput? multiply = some constant :=
  Option.bind_eq_some_iff.mp found

theorem scale?_eq_some {tensor : Tensor α} (found : chain.scale? graph = some tensor) :
    ∃ constant, chain.multiplyConstant? graph = some constant ∧
      graph.constant? constant = some tensor :=
  Option.bind_eq_some_iff.mp found

end DequantizationChain

namespace Graph

namespace IsChain

variable {graph : Graph α} {output scaled shifted : Output} {chain : DequantizationChain}
  (isChain : graph.IsChain output scaled shifted chain)

include isChain

/-- The constant that is found for the Multiply of a chain is the one that the Multiply was
recognised by, where that reads one output at most on its first slot. -/
theorem exists_scale {multiply : NodeId} (present : chain.multiply = some multiply)
    (once : graph.ReadsOnce multiply 0) :
    multiply = output.node ∧ graph.kind? multiply = some .multiply ∧
      ∃ operand, graph.constantOperand? multiply = some operand ∧ operand.data = scaled ∧
        chain.multiplyConstant? graph = some operand.constant ∧
        chain.scale? graph = some operand.tensor := by
  obtain ⟨rfl, found⟩ := isChain.multiply.stage_eq present
  obtain ⟨isKind, operand, isOperand, isData⟩ := underMultiply?_eq_some.mp found
  have reads := readsOperands_of_constantOperand? once isOperand
  have isConstant : chain.multiplyConstant? graph = some operand.constant := by
    rw [DequantizationChain.multiplyConstant?, present, Option.bind_some, reads.constantInput?_eq]
  refine ⟨rfl, isKind, operand, isOperand, isData, isConstant, ?_⟩
  rw [DequantizationChain.scale?, isConstant, Option.bind_some, reads.constant?_eq]

/-- The constant that is found for the Subtract of a chain is the one that the Subtract was
recognised by, and it is what is taken away. -/
theorem exists_shift {subtract : NodeId} (present : chain.subtract = some subtract) :
    subtract = scaled.node ∧ graph.kind? subtract = some .subtract ∧
      ∃ operand, graph.constantOperand? subtract = some operand ∧ operand.slot = 0 ∧
        operand.data = shifted ∧ chain.subtractConstant? graph = some operand.constant ∧
        chain.shift? graph = some operand.tensor := by
  obtain ⟨rfl, found⟩ := isChain.subtract.stage_eq present
  obtain ⟨isKind, operand, isOperand, first, isData⟩ := underSubtract?_eq_some.mp found
  obtain ⟨_, _, _, ⟨slot, read⟩, isTensor, _⟩ := constantOperand?_eq_some isOperand
  rw [first] at read
  have isConstant : chain.subtractConstant? graph = some operand.constant := by
    simp [DequantizationChain.subtractConstant?, present, inputNode?, read, Graph.isConstant,
      isTensor]
  refine ⟨rfl, isKind, operand, isOperand, first, isData, isConstant, ?_⟩
  rw [DequantizationChain.shift?, isConstant, Option.bind_some, isTensor]

end IsChain

end Graph

end QuantGraph
