import QuantGraph.Proofs.Dequantization.Move
import QuantGraph.Rules.Propagation

/-! The rules that move a dequantization through one operation, as relations between
the graph before and the graph after. -/

namespace QuantGraph

namespace Graph

section Patterns

variable {graph : Graph α} {id : NodeId} {chain : DequantizationChain}

theorem chainBeforeAvgPool?_eq_some (found : graph.chainBeforeAvgPool? id = some chain) :
    chain = graph.dequantization id 0 ∧ chain.multiply ≠ none := by
  simp only [chainBeforeAvgPool?, Option.bind_eq_bind, Option.bind_eq_some_iff,
    Option.guard_eq_some', Option.isSome_iff_ne_none] at found
  obtain ⟨_, present, equal⟩ := found
  cases equal
  exact ⟨rfl, present⟩

theorem multiply_ne_none_of_scale? {scale : Tensor α} (found : chain.scale? graph = some scale) :
    chain.multiply ≠ none := by
  obtain ⟨constant, isConstant, _⟩ := DequantizationChain.scale?_eq_some found
  obtain ⟨multiply, present, _⟩ := DequantizationChain.multiplyConstant?_eq_some isConstant
  rw [present]
  exact Option.some_ne_none multiply

variable [Scalar α]

theorem chainBeforeRelu?_eq_some (found : graph.chainBeforeRelu? id = some chain) :
    chain = graph.dequantization id 0 ∧ chain.subtract = none ∧
      ∃ scale, chain.scale? graph = some scale ∧ isPositive scale = true := by
  simp only [chainBeforeRelu?, Option.bind_eq_bind, Option.bind_eq_some_iff,
    Option.guard_eq_some', Option.isNone_iff_eq_none] at found
  obtain ⟨_, no_subtract, scale, isScale, _, positive, equal⟩ := found
  cases equal
  exact ⟨rfl, no_subtract, scale, isScale, positive⟩

theorem chainBeforeMaxPool?_eq_some (found : graph.chainBeforeMaxPool? id = some chain) :
    chain = graph.dequantization id 0 ∧
      ∃ scale, chain.scale? graph = some scale ∧ isPositive scale = true := by
  simp only [chainBeforeMaxPool?, Option.bind_eq_bind, Option.bind_eq_some_iff,
    Option.guard_eq_some'] at found
  obtain ⟨scale, isScale, _, positive, equal⟩ := found
  cases equal
  exact ⟨rfl, scale, isScale, positive⟩

theorem chainBeforeMatMul?_eq_some {slot : Nat}
    (found : graph.chainBeforeMatMul? id slot = some chain) :
    chain = graph.dequantization id slot ∧ chain.subtract = none ∧
      ∃ scale, chain.scale? graph = some scale ∧ scale.isUniform = true := by
  simp only [chainBeforeMatMul?, Option.bind_eq_bind, Option.bind_eq_some_iff,
    Option.guard_eq_some', Option.isNone_iff_eq_none] at found
  obtain ⟨_, no_subtract, scale, isScale, _, uniform, equal⟩ := found
  cases equal
  exact ⟨rfl, no_subtract, scale, isScale, uniform⟩

/-- The chain that a matrix product lets pass comes before one of its operands. -/
theorem exists_slot_of_or
    (found : (graph.chainBeforeMatMul? id 0).or (graph.chainBeforeMatMul? id 1) = some chain) :
    ∃ slot ≤ 1, graph.chainBeforeMatMul? id slot = some chain := by
  rcases Option.or_eq_some_iff.mp found with left | ⟨_, right⟩
  · exact ⟨0, Nat.zero_le 1, left⟩
  · exact ⟨1, Nat.le_refl 1, right⟩

theorem chainBeforeLayout?_eq_some (found : graph.chainBeforeLayout? id = some chain) :
    chain = graph.dequantization id 0 ∧
      (∃ scale, chain.scale? graph = some scale ∧ scale.isUniform = true) ∧
      ∀ shift, chain.shift? graph = some shift → shift.isUniform = true := by
  simp only [chainBeforeLayout?, Option.bind_eq_bind, Option.bind_eq_some_iff,
    Option.guard_eq_some'] at found
  obtain ⟨scale, isScale, _, uniform, _, shift_uniform, equal⟩ := found
  cases equal
  refine ⟨rfl, ⟨scale, isScale, uniform⟩, fun shift isShift => ?_⟩
  rw [isShift] at shift_uniform
  exact shift_uniform

theorem collapsibleConstant?_eq_some {stage constant : NodeId} {position : Nat}
    {scalar : Tensor α}
    (found : graph.collapsibleConstant? stage = some (position, constant, scalar)) :
    ∃ output tensor, (graph.inputs stage)[position]? = some output ∧ output.node = constant ∧
      graph.constant? constant = some tensor ∧ tensor.toScalar? = some scalar := by
  simp only [collapsibleConstant?, Option.bind_eq_bind, Option.bind_eq_some_iff,
    Option.guard_eq_some', Prod.exists] at found
  obtain ⟨output, place, entry, tensor, isConstant, value, collapsed, _, _, equal⟩ := found
  cases equal
  have listed := List.mem_zipIdx_iff_getElem?.mp (List.mem_of_find?_eq_some entry)
  exact ⟨output, tensor, listed, rfl, isConstant, collapsed⟩

end Patterns

/-! ## Relations -/

variable [Scalar α]

/-- A stage reads its constant without axes, if there is one that loses some. -/
def CollapsesConstant (before : Graph α) (stage : NodeId) (after : Graph α) : Prop :=
  match before.collapsibleConstant? stage with
  | none => after = before
  | some (position, constant, scalar) => ∃ collapsed first second,
      before.Adds ((Op.constant scalar).draft "") [] collapsed first ∧
      first.Resources stage (UInt8.ofNat position) collapsed.output second ∧
      second.Sheds constant after ∧ after.WellFormed

/-- The same for an optional stage. -/
def CollapsesStage (before : Graph α) (stage : Option NodeId) (after : Graph α) : Prop :=
  match stage with
  | none => after = before
  | some stage => before.CollapsesConstant stage after

theorem CollapsesConstant.keeps {before after : Graph α} {op stage : NodeId}
    (collapses : before.CollapsesConstant stage after) (wellFormed : before.WellFormed)
    (live : before.contains op = true) (stage_independent : before.Independent op stage) :
    after.node? op = before.node? op ∧
      ∀ node, before.Independent op node → after.Independent op node := by
  unfold CollapsesConstant at collapses
  split at collapses
  case h_1 =>
    subst collapses
    exact ⟨rfl, fun _ independent => independent⟩
  case h_2 position constant scalar found =>
    obtain ⟨collapsed, first, second, adds, resources, sheds, _⟩ := collapses
    obtain ⟨output, _, listed, rfl, _⟩ := collapsibleConstant?_eq_some found
    have kept {node : NodeId} (reaches : first.Reaches op node) :
        before.Reaches op node ∧ node ≠ collapsed :=
      adds.reaches wellFormed.consistent live (by simp) reaches
    have independent (node : NodeId) (independent : before.Independent op node) :
        second.Independent op node :=
      Independent.of_resources (fun reaches => independent (kept reaches).1) resources
        fun reaches => (kept reaches).2 rfl
    have constant_independent : before.Independent op output.node :=
      stage_independent.of_reads (reads_of_mem_inputs (List.mem_of_getElem? listed))
    have second_live : second.contains op = true :=
      (resources.contains_eq op).trans (adds.grows.live live)
    have after_live := sheds.keeps second_live (independent _ constant_independent)
    refine ⟨?_, fun node before_independent => (independent node before_independent).of_sheds sheds⟩
    rw [sheds.node_eq op after_live, resources.node_eq, adds.grows.node_eq op live]

theorem CollapsesStage.keeps {before after : Graph α} {op : NodeId} {stage : Option NodeId}
    (collapses : before.CollapsesStage stage after) (wellFormed : before.WellFormed)
    (live : before.contains op = true)
    (stage_independent : ∀ node, stage = some node → before.Independent op node) :
    after.node? op = before.node? op ∧
      ∀ node, before.Independent op node → after.Independent op node := by
  cases stage with
  | none =>
      cases collapses
      exact ⟨rfl, fun _ independent => independent⟩
  | some stage =>
      exact CollapsesConstant.keeps collapses wellFormed live (stage_independent stage rfl)

/-- Only the stage reads another output than before. -/
theorem CollapsesConstant.inputs_eq {before after : Graph α} {op stage : NodeId}
    (collapses : before.CollapsesConstant stage after) (live : before.contains op = true)
    (stays : after.contains op = true) (different : op ≠ stage) :
    after.inputs op = before.inputs op := by
  unfold CollapsesConstant at collapses
  split at collapses
  case h_1 => rw [collapses]
  case h_2 =>
    obtain ⟨_, _, _, adds, resources, sheds, _⟩ := collapses
    rw [sheds.inputs_eq stays, resources.inputs_eq, if_neg different, adds.grows.inputs_eq live]

/-- What does not lead to the stage reads what it read. -/
theorem CollapsesStage.inputs_eq {before after : Graph α} {op : NodeId} {stage : Option NodeId}
    (collapses : before.CollapsesStage stage after) (wellFormed : before.WellFormed)
    (live : before.contains op = true)
    (stage_independent : ∀ node, stage = some node → before.Independent op node) :
    after.inputs op = before.inputs op := by
  cases stage with
  | none => rw [show after = before from collapses]
  | some stage =>
      have apart := stage_independent stage rfl
      refine CollapsesConstant.inputs_eq collapses live ?_ fun equal =>
        apart (equal ▸ Relation.ReflTransGen.refl)
      exact (contains_congr (CollapsesConstant.keeps collapses wellFormed live apart).1).trans live

/-- A chain has moved past an operation, and maybe its Subtract past its Convert. -/
def Propagates (before : Graph α) (id : NodeId) (chain : DequantizationChain)
    (updatePrecision moveSubtract : Bool) (after : Graph α) : Prop :=
  ∃ plan copy tail moved,
    before.MovesChain id chain updatePrecision moveSubtract plan copy tail moved ∧
    (after = moved ∨ moveSubtract = false ∧ ∃ subtract replacement,
      chain.subtract = some subtract ∧ chain.convert ≠ none ∧
      moved.SubtractsBeforeConvert subtract replacement after)

end Graph

/-! ## Rules -/

namespace GraphRevision

open QuantGraph.Graph Revision

variable [Scalar α] {start graph : Graph α} {id : NodeId} {chain : DequantizationChain}

theorem ensures_moveFound {found : Option DequantizationChain}
    {updatePrecision moveSubtract : Bool}
    (wellFormed : graph.WellFormed) (evolves : start.Evolves graph)
    (not_result : graph.kind? id ≠ some .result)
    (independent : ∀ chain, found = some chain →
      graph.contains id = true ∧ graph.ChainIndependent id chain) :
    (moveFound id found updatePrecision moveSubtract).Ensures graph start.Evolves
      fun changed after => start.Evolves after ∧
        if changed then ∃ chain, found = some chain ∧
          graph.Propagates id chain updatePrecision moveSubtract after
        else after = graph := by
  unfold moveFound
  cases found with
  | none => exact ⟨evolves, rfl⟩
  | some chain =>
      obtain ⟨live, apart⟩ := independent chain rfl
      refine ensures_bind.mpr ((ensures_moveChainAfter wellFormed evolves live not_result
        apart).mono (fun _ bad => bad) ?_)
      rintro ⟨copy, tail⟩ after ⟨evolves, plan, moved, moves, outcome⟩
      exact ⟨evolves, chain, rfl, plan, copy, tail, moved, moves, outcome⟩

theorem ensures_propagateThroughRelu (wellFormed : graph.WellFormed)
    (evolves : start.Evolves graph) (not_result : graph.kind? id ≠ some .result) :
    (propagateThroughRelu id).Ensures graph start.Evolves fun changed after =>
      start.Evolves after ∧
        if changed then ∃ chain, graph.chainBeforeRelu? id = some chain ∧
          graph.Propagates id chain false false after
        else after = graph := by
  refine ensures_bind.mpr (ensures_moveFound wellFormed evolves not_result ?_)
  intro chain found
  obtain ⟨rfl, _, scale, isScale, _⟩ := chainBeforeRelu?_eq_some found
  exact chainIndependent_dequantization wellFormed (multiply_ne_none_of_scale? isScale)

theorem ensures_propagateThroughMaxPool (wellFormed : graph.WellFormed)
    (evolves : start.Evolves graph) (not_result : graph.kind? id ≠ some .result) :
    (propagateThroughMaxPool id).Ensures graph start.Evolves fun changed after =>
      start.Evolves after ∧
        if changed then ∃ chain, graph.chainBeforeMaxPool? id = some chain ∧
          graph.Propagates id chain false true after
        else after = graph := by
  refine ensures_bind.mpr (ensures_moveFound wellFormed evolves not_result ?_)
  intro chain found
  obtain ⟨rfl, scale, isScale, _⟩ := chainBeforeMaxPool?_eq_some found
  exact chainIndependent_dequantization wellFormed (multiply_ne_none_of_scale? isScale)

theorem ensures_propagateThroughAvgPool {updatePrecision : Bool} (wellFormed : graph.WellFormed)
    (evolves : start.Evolves graph) (not_result : graph.kind? id ≠ some .result) :
    (propagateThroughAvgPool updatePrecision id).Ensures graph start.Evolves fun changed after =>
      start.Evolves after ∧
        if changed then ∃ chain, graph.chainBeforeAvgPool? id = some chain ∧
          graph.Propagates id chain updatePrecision true after
        else after = graph := by
  refine ensures_bind.mpr (ensures_moveFound wellFormed evolves not_result ?_)
  intro chain found
  obtain ⟨rfl, present⟩ := chainBeforeAvgPool?_eq_some found
  exact chainIndependent_dequantization wellFormed present

theorem ensures_propagateThroughMatMul (wellFormed : graph.WellFormed)
    (evolves : start.Evolves graph) (not_result : graph.kind? id ≠ some .result) :
    (propagateThroughMatMul id).Ensures graph start.Evolves fun changed after =>
      start.Evolves after ∧
        if changed then ∃ chain,
          (graph.chainBeforeMatMul? id 0).or (graph.chainBeforeMatMul? id 1) = some chain ∧
          graph.Propagates id chain false false after
        else after = graph := by
  refine ensures_bind.mpr (ensures_moveFound wellFormed evolves not_result ?_)
  intro chain found
  obtain ⟨slot, _, found⟩ := exists_slot_of_or found
  obtain ⟨rfl, _, scale, isScale, _⟩ := chainBeforeMatMul?_eq_some found
  exact chainIndependent_dequantization wellFormed (multiply_ne_none_of_scale? isScale)

theorem ensures_collapseConstant {stage : NodeId} (wellFormed : graph.WellFormed)
    (evolves : start.Evolves graph) :
    (collapseConstant stage).Ensures graph start.Evolves fun _ after =>
      graph.CollapsesConstant stage after ∧ after.WellFormed ∧ start.Evolves after := by
  unfold collapseConstant CollapsesConstant
  rw [ensures_bind, ensures_get]
  obtain missing | ⟨⟨position, constant, scalar⟩, found⟩ :=
    Option.eq_none_or_eq_some (graph.collapsibleConstant? stage)
  · rw [missing]
    exact ⟨rfl, wellFormed, evolves⟩
  · rw [found]
    obtain ⟨output, _, listed, _⟩ := collapsibleConstant?_eq_some found
    have live := live_of_reads wellFormed (reads_of_mem_inputs (List.mem_of_getElem? listed))
    have supports : graph.Supports stage [] := ⟨wellFormed, live, by simp⟩
    rw [ensures_bind]
    refine ensures_addConstantOn supports evolves fun collapsed first adds supports evolves => ?_
    rw [ensures_bind]
    refine ensures_setInput supports.wellFormed evolves
      (supports.independent collapsed List.mem_cons_self) fun second resources evolves => ?_
    refine ensures_prune resources.wellFormed evolves fun after sheds wellFormed evolves => ?_
    exact ⟨⟨collapsed, first, second, adds, resources, sheds, wellFormed⟩, wellFormed, evolves⟩

theorem ensures_collapseStage {stage : Option NodeId} (wellFormed : graph.WellFormed)
    (evolves : start.Evolves graph) :
    (collapseStage stage).Ensures graph start.Evolves fun _ after =>
      graph.CollapsesStage stage after ∧ after.WellFormed ∧ start.Evolves after := by
  cases stage with
  | none => exact ⟨rfl, wellFormed, evolves⟩
  | some stage => exact ensures_collapseConstant wellFormed evolves

theorem ensures_collapseConstants (wellFormed : graph.WellFormed) (evolves : start.Evolves graph) :
    (collapseConstants chain).Ensures graph start.Evolves fun _ after =>
      (∃ middle, graph.CollapsesStage chain.subtract middle ∧
        middle.CollapsesStage chain.multiply after ∧ middle.WellFormed) ∧
      after.WellFormed ∧ start.Evolves after := by
  unfold collapseConstants
  refine ensures_bind.mpr ((ensures_collapseStage wellFormed evolves).mono
    (fun _ bad => bad) ?_)
  rintro _ middle ⟨first, wellFormed, evolves⟩
  refine (ensures_collapseStage wellFormed evolves).mono (fun _ bad => bad) ?_
  rintro _ after ⟨second, kept⟩
  exact ⟨⟨middle, first, second, wellFormed⟩, kept⟩

theorem ensures_propagateThroughLayout (wellFormed : graph.WellFormed)
    (evolves : start.Evolves graph) (not_result : graph.kind? id ≠ some .result) :
    (propagateThroughLayout id).Ensures graph start.Evolves fun changed after =>
      start.Evolves after ∧
        if changed then ∃ chain middle collapsed, graph.chainBeforeLayout? id = some chain ∧
          graph.CollapsesStage chain.subtract middle ∧
          middle.CollapsesStage chain.multiply collapsed ∧
          collapsed.Propagates id chain false true after
        else after = graph := by
  unfold propagateThroughLayout
  rw [ensures_bind, ensures_get]
  split
  case h_1 => exact ⟨evolves, rfl⟩
  case h_2 chain found =>
    obtain ⟨chain_eq, ⟨scale, isScale, _⟩, _⟩ := chainBeforeLayout?_eq_some found
    obtain ⟨live, independent⟩ := chainIndependent_dequantization wellFormed
      (chain_eq ▸ multiply_ne_none_of_scale? isScale)
    rw [← chain_eq] at independent
    refine ensures_bind.mpr ((ensures_collapseConstants wellFormed evolves).mono
      (fun _ bad => bad) ?_)
    rintro _ collapsed ⟨⟨middle, first, second, middle_wellFormed⟩, wellFormed', evolves⟩
    have kept_first := first.keeps wellFormed live independent.subtract
    have middle_live := (contains_congr kept_first.1).trans live
    have kept_second := second.keeps middle_wellFormed middle_live fun node present =>
      kept_first.2 node (independent.multiply node present)
    have node_eq := kept_second.1.trans kept_first.1
    have kept (node : NodeId) (apart : graph.Independent id node) :
        collapsed.Independent id node :=
      kept_second.2 node (kept_first.2 node apart)
    have independent : collapsed.ChainIndependent id chain :=
      { data := kept _ independent.data
        convert := fun node present => kept node (independent.convert node present)
        subtract := fun node present => kept node (independent.subtract node present)
        multiply := fun node present => kept node (independent.multiply node present) }
    refine ensures_bind.mpr ((ensures_moveChainAfter wellFormed' evolves
      ((contains_congr node_eq).trans live) (kind?_congr node_eq ▸ not_result) independent).mono
      (fun _ bad => bad) ?_)
    rintro ⟨copy, tail⟩ after ⟨evolves, plan, moved, moves, outcome⟩
    exact ⟨evolves, chain, middle, collapsed, found, first, second, plan, copy, tail, moved,
      moves, outcome⟩

end GraphRevision

end QuantGraph
