import Mathlib
import QuantGraph.Proofs.Rules.MovedValues

/-! The values of a graph in which a dequantization has moved past a Relu, a pooling or a matrix
product. In exact arithmetic every node that read the operation finds what it found before. -/

namespace QuantGraph

namespace Graph

/-- The constants of a chain have one element along each of the last two axes. -/
structure IsPerChannel (graph : Graph α) (chain : DequantizationChain) : Prop where
  scale : ∀ scale ∈ chain.scale? graph, scale.shape.IsPerChannel
  shift : ∀ shift ∈ chain.shift? graph, shift.shape.IsPerChannel

instance (graph : Graph α) (chain : DequantizationChain) : Decidable (graph.IsPerChannel chain) :=
  decidable_of_iff ((∀ scale ∈ chain.scale? graph, scale.shape.IsPerChannel) ∧
      ∀ shift ∈ chain.shift? graph, shift.shape.IsPerChannel)
    ⟨fun perChannel => ⟨perChannel.1, perChannel.2⟩,
      fun perChannel => ⟨perChannel.scale, perChannel.shift⟩⟩

/-- The scale of a chain is one number, under at most two axes. -/
def HasSingleScale (graph : Graph α) (chain : DequantizationChain) : Prop :=
  ∀ scale ∈ chain.scale? graph, scale.values.IsSingle

instance (graph : Graph α) (chain : DequantizationChain) : Decidable (graph.HasSingleScale chain) :=
  inferInstanceAs (Decidable (∀ scale ∈ chain.scale? graph, scale.values.IsSingle))

section Constants

variable {graph : Graph α} {chain : DequantizationChain} {scale : Tensor α}

theorem IsPerChannel.shift_values (perChannel : graph.IsPerChannel chain) :
    ∀ constant ∈ (chain.shift? graph).map Tensor.values, constant.shape.IsPerChannel := by
  intro constant member
  obtain ⟨tensor, isShift, rfl⟩ := Option.map_eq_some_iff.mp member
  exact perChannel.shift tensor isShift

theorem values_isPositive {scale : Tensor Rat} (positive : isPositive scale = true) :
    scale.values.IsPositive := by
  intro number member
  have above := List.all_eq_true.mp positive number member
  exact not_le.mp (of_decide_eq_true above)

end Constants

end Graph

namespace Transformation

open QuantGraph.Graph

/-! ## Rules -/

section Rules

variable [Scalar α] {transformation : Transformation} {registry : Registry} {id : NodeId}
  {state after : RunState α} {feeds values : Assignment α}

theorem exists_givesWay_of_commutes
    (affine : transformation.rule ∈ [Rule.avgPool, .matMul, .maxPool, .relu])
    (wellFormed : state.graph.WellFormed)
    (kind : state.graph.kind? id = some transformation.matchedKind)
    (commutative : ∀ left right : α, left * right = right * left)
    (real : ∀ chain ∈ state.graph.movedChain? transformation.rule id,
      state.graph.RestoresReal chain)
    (commutes : ∀ chain ∈ state.graph.movedChain? transformation.rule id, ∀ op : Op α,
      op.kind = transformation.matchedKind → ∀ scale ∈ chain.scale? state.graph,
      ∀ slot ≤ lastChainSlot transformation.rule,
        op.CommutesWith slot ((chain.shift? state.graph).map Tensor.values) scale.values)
    (evaluated : state.graph.evaluate feeds = .ok values)
    (declared : state.graph.HasDeclaredShapes values)
    (applied : (transformation.apply registry id).runOn state = (.ok true, after)) :
    ∃ chain tail, state.graph.movedChain? transformation.rule id = some chain ∧
      state.graph.GivesWay id chain.data.node tail after.graph feeds values := by
  obtain ⟨chain, slot, _, _, moves, equal, bound, present, together, propagates⟩ :=
    exists_propagates_of_apply affine wellFormed kind applied
  obtain ⟨op, isOp, op_kind⟩ := Option.map_eq_some_iff.mp ((kind?_eq_map_op? _ _).symm.trans kind)
  have different : op.kind ≠ .fakeQuantize := by
    obtain ⟨rule, policy⟩ := transformation
    rw [op_kind]
    fin_cases affine <;> exact OpKind.noConfusion
  obtain ⟨tail, givesWay⟩ := propagates.exists_givesWay wellFormed equal present together
    (real chain moves) commutative isOp different
    (fun number first scale isScale =>
      commutes chain moves op op_kind scale isScale number (first.trans bound)) evaluated declared
  exact ⟨chain, tail, moves, givesWay⟩

end Rules

/-! ## Exact arithmetic -/

section Exact

variable {transformation : Transformation} {registry : Registry} {id : NodeId}
  {state after : RunState Rat} {feeds values : Assignment Rat}

/-- A dequantization with positive scales moves past an operation that keeps the order of numbers.
What is read behind it is as before. Of a maximum over windows, all of a window is to be scaled
and shifted by the same numbers. -/
theorem exists_givesWay_of_monotone (monotone : transformation.rule ∈ [Rule.maxPool, .relu])
    (wellFormed : state.graph.WellFormed)
    (kind : state.graph.kind? id = some transformation.matchedKind)
    (real : ∀ chain ∈ state.graph.movedChain? transformation.rule id,
      state.graph.RestoresReal chain)
    (perChannel : transformation.rule = .maxPool →
      ∀ chain ∈ state.graph.movedChain? .maxPool id, state.graph.IsPerChannel chain)
    (evaluated : state.graph.evaluate feeds = .ok values)
    (declared : state.graph.HasDeclaredShapes values)
    (applied : (transformation.apply registry id).runOn state = (.ok true, after)) :
    ∃ chain tail, state.graph.movedChain? transformation.rule id = some chain ∧
      state.graph.GivesWay id chain.data.node tail after.graph feeds values := by
  have affine : transformation.rule ∈ [Rule.avgPool, .matMul, .maxPool, .relu] :=
    List.mem_cons_of_mem _ (List.mem_cons_of_mem _ monotone)
  refine exists_givesWay_of_commutes affine wellFormed kind mul_comm real
    (fun chain moves op op_kind scale isScale slot first => ?_) evaluated declared applied
  obtain ⟨rule, policy⟩ := transformation
  simp only [List.mem_cons, List.not_mem_nil, or_false] at monotone
  rcases monotone with rfl | rfl
  · obtain rfl := Nat.le_zero.mp first
    obtain ⟨_, _, isScale', positive⟩ := chainBeforeMaxPool?_eq_some moves
    cases Option.some.inj (isScale.symm.trans isScale')
    have perChannel := perChannel rfl chain moves
    cases op <;> cases op_kind
    exact Op.commutesWith_maxPool perChannel.shift_values (perChannel.scale scale isScale)
      (values_isPositive positive)
  · obtain rfl := Nat.le_zero.mp first
    obtain ⟨_, no_subtract, _, isScale', positive⟩ := chainBeforeRelu?_eq_some moves
    cases Option.some.inj (isScale.symm.trans isScale')
    cases op <;> cases op_kind
    rw [shift?_eq_none no_subtract]
    exact Op.commutesWith_relu (values_isPositive positive)

/-- A maximum over the windows of an image with a shift and a scale for each channel. -/
theorem exists_givesWay_pooledChannels :
    ∃ graph feeds values after, Graph.empty.addAll pooledChannels = .ok graph ∧
      let pooling : Transformation := ⟨.maxPool, {}⟩
      pooling.rule ∈ [Rule.maxPool, .relu] ∧ graph.WellFormed ∧
      graph.kind? (NodeId.mk 6) = some pooling.matchedKind ∧
      (∀ chain ∈ graph.movedChain? pooling.rule (NodeId.mk 6), graph.RestoresReal chain) ∧
      (pooling.rule = .maxPool →
        ∀ chain ∈ graph.movedChain? .maxPool (NodeId.mk 6), graph.IsPerChannel chain) ∧
      graph.evaluate feeds = .ok values ∧ graph.HasDeclaredShapes values ∧
      (pooling.apply (.all {}) (NodeId.mk 6)).runOn (.ofGraph graph) = (.ok true, after) ∧
      ∃ chain tail, graph.movedChain? pooling.rule (NodeId.mk 6) = some chain ∧
        graph.GivesWay (NodeId.mk 6) chain.data.node tail after.graph feeds values := by
  let feeds : Assignment Rat := Assignment.none.set (NodeId.mk 0) (.replicate [1, 2, 4, 4] 130)
  obtain ⟨graph, values, after, added, wellFormed, kind, demanded, evaluated, declared, applied⟩ :=
    @exists_applied_of_values pooledChannels (NodeId.mk 6) .maxPool feeds
      (fun graph chain => graph.RestoresReal chain ∧ graph.IsPerChannel chain) _ (by decide)
      (by decide) (by decide +kernel)
  have real := fun chain moves => (demanded chain moves).1
  have perChannel := fun chain moves => (demanded chain moves).2
  exact ⟨graph, feeds, values, after, added, by decide, wellFormed, kind, real,
    fun _ => perChannel, evaluated, declared, applied,
    @exists_givesWay_of_monotone ⟨.maxPool, {}⟩ (.all {}) (NodeId.mk 6) (.ofGraph graph) after feeds
      values (by decide) wellFormed kind real (fun _ => perChannel) evaluated declared applied⟩

set_option synthInstance.maxSize 1024 in
/-- A product that reads two nodes on one slot moves as if it read one of them. A Convert that is
declared to give integers is put again as one that goes to integers. -/
theorem movesAstray_relu :
    MovesAstray (crowdedProduct [2] (Op.relu.draft "moved")) (NodeId.mk 4) .relu (crowdedFeeds [2])
        [[5, 5]] [[2, 2]] ∧
      MovesAstray (mistypedConvert [2] (Op.relu.draft "moved")) (NodeId.mk 4) .relu
        (Assignment.none.set (NodeId.mk 0) (.replicate [2] 200)) [[400, 400]] [[254, 254]] := by
  constructor <;> exact movesAstray_of_values (by decide +kernel) (by decide)

/-- A dequantization moves past a linear operation. What is read behind it is as before, if all of
a window of a pooling is scaled and shifted by the same numbers, and all of a factor of a matrix
product is scaled by the same number. -/
theorem exists_givesWay_of_linear (linear : transformation.rule ∈ [Rule.avgPool, .matMul])
    (wellFormed : state.graph.WellFormed)
    (kind : state.graph.kind? id = some transformation.matchedKind)
    (real : ∀ chain ∈ state.graph.movedChain? transformation.rule id,
      state.graph.RestoresReal chain)
    (perChannel : transformation.rule = .avgPool →
      ∀ chain ∈ state.graph.movedChain? .avgPool id, state.graph.IsPerChannel chain)
    (single : transformation.rule = .matMul →
      ∀ chain ∈ state.graph.movedChain? .matMul id, state.graph.HasSingleScale chain)
    (evaluated : state.graph.evaluate feeds = .ok values)
    (declared : state.graph.HasDeclaredShapes values)
    (applied : (transformation.apply registry id).runOn state = (.ok true, after)) :
    ∃ chain tail, state.graph.movedChain? transformation.rule id = some chain ∧
      state.graph.GivesWay id chain.data.node tail after.graph feeds values := by
  have affine : transformation.rule ∈ [Rule.avgPool, .matMul, .maxPool, .relu] :=
    List.mem_append_left [Rule.maxPool, .relu] linear
  refine exists_givesWay_of_commutes affine wellFormed kind mul_comm real
    (fun chain moves op op_kind scale isScale slot first => ?_) evaluated declared applied
  obtain ⟨rule, policy⟩ := transformation
  simp only [List.mem_cons, List.not_mem_nil, or_false] at linear
  rcases linear with rfl | rfl
  · obtain rfl := Nat.le_zero.mp first
    have perChannel := perChannel rfl chain moves
    cases op <;> cases op_kind
    exact Op.commutesWith_avgPool perChannel.shift_values (perChannel.scale scale isScale)
  · obtain ⟨_, _, isBefore⟩ := exists_slot_of_or moves
    obtain ⟨_, no_subtract, _⟩ := chainBeforeMatMul?_eq_some isBefore
    have single := single rfl chain moves scale isScale
    cases op <;> cases op_kind
    rw [shift?_eq_none no_subtract]
    obtain rfl | rfl := Nat.le_one_iff_eq_zero_or_eq_one.mp first
    · exact Op.commutesWith_matMul_left single
    · exact Op.commutesWith_matMul_right single

/-- Scaled numbers, times themselves. -/
def scaledSquare : List (Draft Rat) :=
  [{ op := .parameter, name := "x", declared := some { elementType := .u8, shape := [2, 2] } },
    ((Op.convert .f32).draft "converted").readAll [NodeId.mk 0],
    (Op.constant (.scalar .f32 (-2))).draft "scale",
    (Op.multiply.draft "scaled").readAll [NodeId.mk 2, NodeId.mk 1],
    (Op.matMul.draft "square").readAll [NodeId.mk 3, NodeId.mk 3],
    (Op.result.draft "output").readAll [NodeId.mk 4]]

/-- One dequantization comes before both factors. -/
theorem exists_givesWay_scaledSquare :
    ∃ graph feeds values after, Graph.empty.addAll scaledSquare = .ok graph ∧
      let product : Transformation := ⟨.matMul, {}⟩
      product.rule ∈ [Rule.avgPool, .matMul] ∧ graph.WellFormed ∧
      graph.kind? (NodeId.mk 4) = some product.matchedKind ∧
      (∀ chain ∈ graph.movedChain? product.rule (NodeId.mk 4), graph.RestoresReal chain) ∧
      (product.rule = .avgPool →
        ∀ chain ∈ graph.movedChain? .avgPool (NodeId.mk 4), graph.IsPerChannel chain) ∧
      (product.rule = .matMul →
        ∀ chain ∈ graph.movedChain? .matMul (NodeId.mk 4), graph.HasSingleScale chain) ∧
      graph.evaluate feeds = .ok values ∧ graph.HasDeclaredShapes values ∧
      (product.apply (.all {}) (NodeId.mk 4)).runOn (.ofGraph graph) = (.ok true, after) ∧
      ∃ chain tail, graph.movedChain? product.rule (NodeId.mk 4) = some chain ∧
        graph.GivesWay (NodeId.mk 4) chain.data.node tail after.graph feeds values := by
  let feeds : Assignment Rat := Assignment.none.set (NodeId.mk 0) (.replicate [2, 2] 3)
  obtain ⟨graph, values, after, added, wellFormed, kind, demanded, evaluated, declared, applied⟩ :=
    @exists_applied_of_values scaledSquare (NodeId.mk 4) .matMul feeds
      (fun graph chain => graph.RestoresReal chain ∧ graph.HasSingleScale chain) _ (by decide)
      (by decide) (by decide +kernel)
  have real := fun chain moves => (demanded chain moves).1
  have single := fun chain moves => (demanded chain moves).2
  have perChannel (other : Rule.matMul = .avgPool) :
      ∀ chain ∈ graph.movedChain? .avgPool (NodeId.mk 4), graph.IsPerChannel chain := by cases other
  exact ⟨graph, feeds, values, after, added, by decide, wellFormed, kind, real, perChannel,
    fun _ => single, evaluated, declared, applied,
    @exists_givesWay_of_linear ⟨.matMul, {}⟩ (.all {}) (NodeId.mk 4) (.ofGraph graph) after feeds
      values (by decide) wellFormed kind real perChannel (fun _ => single) evaluated declared
      applied⟩

set_option synthInstance.maxSize 1024 in
theorem movesAstray_avgPool :
    let mean : Draft Rat := ((Op.avgPool { height := 1, width := 2 }).draft "mean").relax
    MovesAstray (crowdedProduct [1, 1, 1, 2] mean) (NodeId.mk 4) .avgPool
        (crowdedFeeds [1, 1, 1, 2]) [[5]] [[2]] ∧
      MovesAstray (mistypedConvert [1, 1, 1, 2] mean) (NodeId.mk 4) .avgPool
        (Assignment.none.set (NodeId.mk 0) (.replicate [1, 1, 1, 2] 200)) [[400]] [[254]] := by
  constructor <;> exact movesAstray_of_values (by decide +kernel) (by decide)

end Exact

end Transformation

end QuantGraph
