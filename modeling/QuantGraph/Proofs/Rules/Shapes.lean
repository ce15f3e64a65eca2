import Mathlib
import QuantGraph.Proofs.Rules.Collapse
import QuantGraph.Proofs.Run.Apply

/-! Shapes when a dequantization moves through an operation. They stay inferred where the
dequantization has the shape of its data, and where its constants stretch to the shape of the
operation behind which they come. -/

namespace QuantGraph

namespace Graph

variable {before middle after graph : Graph α} {id : NodeId}

/-! ## Rules -/

section Rules

variable {output scaled shifted : Output} {chain : DequantizationChain}
  {updatePrecision moveSubtract : Bool}

/-- A chain with a Multiply ends in what the node reads. -/
theorem exists_readsChain {slot : Nat} (wellFormed : graph.WellFormed)
    (equal : chain = graph.dequantization id slot) (present : chain.multiply ≠ none) :
    ∃ output scaled shifted, (graph.inputs id)[slot]? = some output ∧
      graph.ReadsChain id output scaled shifted chain := by
  obtain missing | ⟨output, found⟩ := Option.eq_none_or_eq_some (graph.input? id slot)
  · rw [equal, dequantization_of_none missing] at present
    exact absurd rfl present
  obtain ⟨scaled, shifted, isChain⟩ := isChain_dequantization found
  rw [← equal] at isChain
  obtain ⟨multiply, isMultiply⟩ := Option.ne_none_iff_exists'.mp present
  obtain ⟨rfl, _⟩ := isChain.multiply.stage_eq isMultiply
  rw [(wellFormed.exact id).input?_eq] at found
  exact ⟨output, scaled, shifted, found, wellFormed, List.mem_of_getElem? found, isChain,
    isMultiply⟩

theorem exists_readsEvenly {slot : Nat} (wellFormed : graph.WellFormed)
    (inferred : graph.IsInferred) (equal : chain = graph.dequantization id slot)
    (present : chain.multiply ≠ none)
    (even : graph.shape? chain.data.node = graph.shape? chain.tail.node) :
    ∃ output scaled shifted, (graph.inputs id)[slot]? = some output ∧
      graph.ReadsEvenly id output scaled shifted chain := by
  obtain ⟨output, scaled, shifted, found, reads⟩ := exists_readsChain wellFormed equal present
  have tail_eq : chain.tail.node = output.node := by
    rw [DequantizationChain.tail, reads.multiply]
    rfl
  exact ⟨output, scaled, shifted, found, reads, inferred,
    even.trans (congrArg graph.shape? tail_eq)⟩

/-- What a Relu that reads a chain has past it is the shape of the data. -/
theorem ReadsChain.fitsPast_relu {past : Shape}
    (reads : graph.ReadsChain id output scaled shifted chain) (inferred : graph.IsInferred)
    (isRelu : graph.kind? id = some .relu) (first : (graph.inputs id)[0]? = some output)
    (isPast : graph.shapePast? chain id = some past) : graph.FitsPast chain id := by
  obtain ⟨dataShape, shape, isData, isShape, least⟩ :=
    reads.isChain.exists_isLeastCommon inferred reads.wellFormed reads.multiply reads.live.2
  rw [kind?_eq_map_op?] at isRelu
  obtain ⟨op, isOp, isKind⟩ := Option.map_eq_some_iff.mp isRelu
  obtain ⟨rest, inputs⟩ := List.head?_eq_some_iff.mp (List.head?_eq_getElem?.trans first)
  have infers {read : Output} {shape : Shape} (known : graph.shape? read.node = some shape) :
      op.inferShape (graph.shapesOf (read :: rest)) = .ok shape := by
    rw [shapesOf_cons known]
    cases op <;> cases isKind
    rfl
  have outer : graph.shape? id = some shape :=
    inferred.shape?_eq isOp (by rw [isKind]; exact OpKind.noConfusion) (inputs ▸ infers isShape)
  -- A Relu reads the chain on its first slot, whichever others it reads it on.
  have past_eq : past = dataShape := by
    obtain ⟨multiply, slot, op', isMultiply, isSlot, isOp', isPast⟩ :=
      shapePast?_eq_some_iff.mp isPast
    cases Option.some.inj (isMultiply.symm.trans reads.multiply)
    cases Option.some.inj (isOp'.symm.trans isOp)
    have bound := slotReading_le (reads.wellFormed.exact id) first rfl isSlot
    obtain rfl := Nat.le_zero.mp bound
    rw [inputs, List.set_cons_zero, infers isData] at isPast
    exact (Except.ok.inj isPast).symm
  subst past_eq
  exact ⟨past, shape, isPast, outer, least⟩

variable [Scalar α]

theorem Propagates.exists_movesChain
    (propagates : before.Propagates id chain updatePrecision moveSubtract after)
    (together : moveSubtract = false → chain.subtract = none) :
    ∃ plan copy tail,
      before.MovesChain id chain updatePrecision moveSubtract plan copy tail after := by
  obtain ⟨plan, copy, tail, moved, moves, rfl | ⟨stays, subtract, _, present, _⟩⟩ := propagates
  · exact ⟨plan, copy, tail, moves⟩
  · rw [together stays] at present
    cases present

theorem Propagates.exists_movesEvenly_iff
    (propagates : before.Propagates id chain updatePrecision moveSubtract after)
    (wellFormed : before.WellFormed) (inferred : before.IsInferred)
    (together : moveSubtract = false → chain.subtract = none) :
    ∃ tail, before.MovesBehind id tail after ∧
      (before.MovesEvenly id tail after ↔ before.FitsPast chain id) := by
  obtain ⟨plan, copy, tail, moves⟩ := propagates.exists_movesChain together
  exact ⟨tail, (moves.exists_shape wellFormed inferred together).1,
    moves.movesEvenly_iff wellFormed inferred together⟩

theorem Propagates.exists_movesEvenly_relu
    (propagates : before.Propagates id chain updatePrecision moveSubtract after)
    (reads : before.ReadsChain id output scaled shifted chain) (inferred : before.IsInferred)
    (isRelu : before.kind? id = some .relu) (first : (before.inputs id)[0]? = some output)
    (together : moveSubtract = false → chain.subtract = none) :
    ∃ tail, before.MovesEvenly id tail after := by
  obtain ⟨plan, copy, tail, moves⟩ := propagates.exists_movesChain together
  obtain ⟨_, past, _, isPast, _⟩ := moves.exists_shape reads.wellFormed inferred together
  exact ⟨tail, (moves.movesEvenly_iff reads.wellFormed inferred together).mpr
    (reads.fitsPast_relu inferred isRelu first isPast)⟩

/-- Without axes, the constants of a chain stretch to every shape. -/
theorem ReadsEvenly.exists_movesEvenly_of_collapses {collapsed : Graph α}
    (evenly : before.ReadsEvenly id output scaled shifted chain)
    (uniformScale : ∀ scale, chain.scale? before = some scale → scale.isUniform = true)
    (uniformShift : ∀ shift, chain.shift? before = some shift → shift.isUniform = true)
    (first : before.CollapsesStage chain.subtract middle)
    (second : middle.CollapsesStage chain.multiply collapsed)
    (propagates : collapsed.Propagates id chain updatePrecision true after) :
    ∃ tail, before.MovesEvenly id tail after := by
  obtain ⟨evenlyMiddle, scale_eq, bareShift⟩ := evenly.collapses_subtract first uniformShift
  obtain ⟨evenlyCollapsed, shift_eq, bareScale⟩ :=
    evenlyMiddle.collapses_multiply second fun scale isScale =>
      uniformScale scale (scale_eq ▸ isScale)
  have fits : collapsed.FitsBehind chain id := by
    intro tensor used shape _
    have noAxes : tensor.shape = [] := by
      rcases used with isScale | isShift
      · exact bareScale tensor isScale
      · exact bareShift tensor (shift_eq ▸ isShift)
    exact noAxes ▸ Shape.nil_stretchesTo shape
  obtain ⟨wellFormed, inferred⟩ := And.intro evenlyCollapsed.wellFormed evenlyCollapsed.inferred
  obtain ⟨plan, copy, tail, moves⟩ := propagates.exists_movesChain nofun
  obtain ⟨shape, isShape, same⟩ :=
    moves.exists_shapePast?_eq wellFormed inferred evenlyCollapsed.even_tail
  have moved := (moves.movesEvenly_iff wellFormed inferred nofun).mpr
    ((fitsPast_iff_fitsBehind isShape same).mpr fits)
  -- The node and its readers lead to no stage, so they are as they were.
  have kept {op : NodeId} (live : before.contains op = true) (follows : before.Reaches id op) :
      collapsed.node? op = before.node? op ∧ collapsed.inputs op = before.inputs op := by
    have apart {node : NodeId} (member : chain.subtract = some node ∨ chain.multiply = some node) :
        before.Independent op node := fun reaches =>
      evenly.independent member (follows.trans reaches)
    have kept := first.keeps evenly.wellFormed live fun _ present => apart (Or.inl present)
    have stays := (contains_congr kept.1).trans live
    have apartMiddle (node : NodeId) (present : chain.multiply = some node) :
        middle.Independent op node := kept.2 node (apart (Or.inr present))
    exact ⟨(second.keeps evenlyMiddle.wellFormed stays apartMiddle).1.trans kept.1,
      (second.inputs_eq evenlyMiddle.wellFormed stays apartMiddle).trans
        (first.inputs_eq evenly.wellFormed live fun _ present => apart (Or.inl present))⟩
  refine ⟨tail, ⟨moved.kind_eq, fun reader slot index reads => ?_⟩, moved.inferred, ?_⟩
  · have edge := reads_of_input? reads
    refine moved.input?_eq reader slot index ?_
    rw [(evenlyCollapsed.wellFormed.exact reader).input?_eq,
      (kept (live_of_reads evenly.wellFormed edge) (Relation.ReflTransGen.single edge)).2,
      ← (evenly.wellFormed.exact reader).input?_eq, reads]
  · exact moved.shape_eq.trans (shape?_congr (kept evenly.live.1 Relation.ReflTransGen.refl).1)

/-- The chain that a rule moves past a node. -/
def movedChain? (graph : Graph α) (rule : Rule) (id : NodeId) : Option DequantizationChain :=
  match rule with
  | .avgPool => graph.chainBeforeAvgPool? id
  | .layout _ => graph.chainBeforeLayout? id
  | .matMul => (graph.chainBeforeMatMul? id 0).or (graph.chainBeforeMatMul? id 1)
  | .maxPool => graph.chainBeforeMaxPool? id
  | .relu => graph.chainBeforeRelu? id
  | _ => none

end Rules

end Graph

namespace Transformation

open QuantGraph.Graph

variable [Scalar α] {transformation : Transformation} {registry : Registry} {id : NodeId}
  {state after : RunState α} {chain : DequantizationChain}

/-- The last slot on which a rule looks for the chain that it moves. -/
def lastChainSlot : Rule → Nat
  | .matMul => 1
  | _ => 0

/-- A chain that moves past a Relu, a pooling or a matrix product moves as it is. -/
theorem exists_propagates_of_apply
    (affine : transformation.rule ∈ [Rule.avgPool, .matMul, .maxPool, .relu])
    (wellFormed : state.graph.WellFormed)
    (kind : state.graph.kind? id = some transformation.matchedKind)
    (applied : (transformation.apply registry id).runOn state = (.ok true, after)) :
    ∃ chain slot updatePrecision moveSubtract,
      state.graph.movedChain? transformation.rule id = some chain ∧
      chain = state.graph.dequantization id slot ∧ slot ≤ lastChainSlot transformation.rule ∧
      chain.multiply ≠ none ∧ (moveSubtract = false → chain.subtract = none) ∧
      state.graph.Propagates id chain updatePrecision moveSubtract after.graph := by
  obtain ⟨rule, policy⟩ := transformation
  have not_result : rule.matchedKind ≠ .result := by
    fin_cases affine <;> exact OpKind.noConfusion
  have rewrites := ((ensures_apply wellFormed .refl kind not_result).of_runOn applied).2
  simp only [List.mem_cons, List.not_mem_nil, or_false] at affine
  rcases affine with rfl | rfl | rfl | rfl
  · obtain ⟨⟨chain, found, propagates⟩, _⟩ := rewrites
    obtain ⟨equal, present⟩ := chainBeforeAvgPool?_eq_some found
    exact ⟨chain, 0, _, true, found, equal, le_rfl, present, nofun, propagates⟩
  · obtain ⟨⟨chain, found, propagates⟩, _⟩ := rewrites
    obtain ⟨slot, bound, isBefore⟩ := exists_slot_of_or found
    obtain ⟨equal, no_subtract, _, isScale, _⟩ := chainBeforeMatMul?_eq_some isBefore
    exact ⟨chain, slot, _, _, found, equal, bound, multiply_ne_none_of_scale? isScale,
      fun _ => no_subtract, propagates⟩
  · obtain ⟨⟨chain, found, propagates⟩, _⟩ := rewrites
    obtain ⟨equal, _, isScale, _⟩ := chainBeforeMaxPool?_eq_some found
    exact ⟨chain, 0, _, true, found, equal, le_rfl, multiply_ne_none_of_scale? isScale,
      nofun, propagates⟩
  · obtain ⟨⟨chain, found, propagates⟩, _⟩ := rewrites
    obtain ⟨equal, no_subtract, _, isScale, _⟩ := chainBeforeRelu?_eq_some found
    exact ⟨chain, 0, _, _, found, equal, le_rfl, multiply_ne_none_of_scale? isScale,
      fun _ => no_subtract, propagates⟩

/-- When a rule moves a dequantization past a node, a Multiply takes the place of the node. It has
the shape of the node, and all shapes are inferred, always behind a Relu; behind a pooling or a
matrix product, if and only if the node has the least shape to which stretch the one that it has
past the chain and those of the constants; behind an operation that only moves elements, where the
chain keeps the shape of its data, since the constants lose their axes. -/
theorem exists_movesEvenly_iff_of_apply
    (moves : state.graph.movedChain? transformation.rule id = some chain)
    (wellFormed : state.graph.WellFormed) (inferred : state.graph.IsInferred)
    (kind : state.graph.kind? id = some transformation.matchedKind)
    (not_result : transformation.matchedKind ≠ .result)
    (even : transformation.rule ∉ [Rule.avgPool, .matMul, .maxPool, .relu] →
      state.graph.shape? chain.data.node = state.graph.shape? chain.tail.node)
    (applied : (transformation.apply registry id).runOn state = (.ok true, after)) :
    ∃ tail, state.graph.MovesBehind id tail after.graph ∧
      (state.graph.MovesEvenly id tail after.graph ↔
        (transformation.rule ∈ [Rule.avgPool, .matMul, .maxPool] →
          state.graph.FitsPast chain id)) := by
  obtain ⟨rule, policy⟩ := transformation
  cases rule with
  | avgPool | maxPool | matMul =>
      obtain ⟨_, _, _, _, found, equal, _, present, together, propagates⟩ :=
        exists_propagates_of_apply (by simp) wellFormed kind applied
      cases Option.some.inj (found.symm.trans moves)
      obtain ⟨tail, behind, evenly⟩ :=
        propagates.exists_movesEvenly_iff wellFormed inferred together
      exact ⟨tail, behind, evenly.trans ⟨fun fits _ => fits, fun fits => fits (by simp)⟩⟩
  | relu =>
      obtain ⟨_, slot, _, _, found, equal, bound, present, together, propagates⟩ :=
        exists_propagates_of_apply (by simp) wellFormed kind applied
      obtain rfl := Nat.le_zero.mp bound
      cases Option.some.inj (found.symm.trans moves)
      obtain ⟨_, _, _, first, reads⟩ := exists_readsChain wellFormed equal present
      obtain ⟨tail, evenly⟩ :=
        propagates.exists_movesEvenly_relu reads inferred kind first together
      exact ⟨tail, evenly.toMovesBehind, fun _ => by simp, fun _ => evenly⟩
  | layout =>
      obtain ⟨⟨moved, middle, collapsed, found, first, second, propagates⟩, _⟩ :=
        ((ensures_apply wellFormed .refl kind not_result).of_runOn applied).2
      cases Option.some.inj (found.symm.trans moves)
      obtain ⟨equal, ⟨scale, isScale, uniform⟩, uniformShift⟩ := chainBeforeLayout?_eq_some found
      obtain ⟨_, _, _, _, reads⟩ := exists_readsEvenly wellFormed inferred equal
        (multiply_ne_none_of_scale? isScale) (even (by simp))
      obtain ⟨tail, evenly⟩ := reads.exists_movesEvenly_of_collapses
        (fun other isOther => Option.some.inj (isScale.symm.trans isOther) ▸ uniform) uniformShift
        first second propagates
      exact ⟨tail, evenly.toMovesBehind, fun _ => by simp, fun _ => evenly⟩
  | add | concat | concatMultiChannels | fakeQuantize | fuseConvert | fuseFakeQuantize
  | fuseMultiplyToFakeQuantize | fuseSubtractToFakeQuantize | multiply
  | subtractMultiplyToMultiplyAdd => cases moves

/-- An image with a shift and a scale for each of its two channels, pooled. -/
def pooledChannels : List (Draft Rat) :=
  let perChannel (name : String) (value : Rat) : Draft Rat :=
    (Op.constant { elementType := .f32, values := .replicate [1, 2, 1, 1] value }).draft name
  [{ op := .parameter, name := "image"
     declared := some { elementType := .u8, shape := [1, 2, 4, 4] } },
    ((Op.convert .f32).draft "converted").readAll [NodeId.mk 0],
    perChannel "shift" 128,
    (Op.subtract.draft "shifted").readAll [NodeId.mk 1, NodeId.mk 2],
    perChannel "scale" 2,
    (Op.multiply.draft "scaled").readAll [NodeId.mk 3, NodeId.mk 4],
    ((Op.maxPool { height := 2, width := 2 }).draft "pooled").readAll [NodeId.mk 5],
    (Op.result.draft "output").readAll [NodeId.mk 6]]

set_option synthInstance.maxSize 4096 in
theorem exists_movesEvenly_pooledChannels :
    ∃ graph after chain, Graph.empty.addAll pooledChannels = .ok graph ∧
      let poolings : Transformation := { rule := .maxPool, policy := {} }
      graph.movedChain? poolings.rule (NodeId.mk 6) = some chain ∧
      graph.WellFormed ∧ graph.IsInferred ∧
      graph.kind? (NodeId.mk 6) = some poolings.matchedKind ∧ poolings.matchedKind ≠ .result ∧
      (poolings.apply (.all {}) (NodeId.mk 6)).runOn (.ofGraph graph) = (.ok true, after) ∧
      graph.FitsPast chain (NodeId.mk 6) ∧
      ∃ tail, graph.MovesEvenly (NodeId.mk 6) tail after.graph := by
  have ordered : ∀ draft ∈ pooledChannels, draft.IsInOrder := by decide
  have undeclared : ∀ draft ∈ pooledChannels,
      draft.op.kind ≠ .parameter → draft.declared = none := by decide
  have made : (Graph.empty.addAll pooledChannels).map (fun graph =>
      ((graph.movedChain? .maxPool (NodeId.mk 6)).map fun chain =>
          (graph.shapePast? chain (NodeId.mk 6),
            (chain.scale? graph).map Tensor.shape, (chain.shift? graph).map Tensor.shape),
        graph.kind? (NodeId.mk 6), graph.shape? (NodeId.mk 6),
        ((Transformation.apply { rule := .maxPool, policy := {} } (.all {}) (NodeId.mk 6)).runOn
          (.ofGraph graph)).1)) =
      .ok (some (some [1, 2, 2, 2], some [1, 2, 1, 1], some [1, 2, 1, 1]),
        some .maxPool, some [1, 2, 2, 2], .ok true) := by decide +kernel
  obtain ⟨graph, added, facts⟩ := Outcome.map_eq_ok.mp made
  simp only [Prod.mk.injEq] at facts
  obtain ⟨facts, kind, shape, changed⟩ := facts
  obtain ⟨chain, found, facts⟩ := Option.map_eq_some_iff.mp facts
  simp only [Prod.mk.injEq] at facts
  obtain ⟨past, scaleShape, shiftShape⟩ := facts
  have wellFormed := wellFormed_empty.addAll ordered added
  have inferred := isInferred_empty.addAll wellFormed_empty ordered undeclared added
  have fits : graph.FitsPast chain (NodeId.mk 6) := by
    refine (fitsPast_iff_fitsBehind shape past).mpr fun tensor used pooled isPooled => ?_
    cases Option.some.inj (shape.symm.trans isPooled)
    have perChannel : tensor.shape = [1, 2, 1, 1] := by
      rcases used with isScale | isShift
      · rw [isScale] at scaleShape
        exact Option.some.inj scaleShape
      · rw [isShift] at shiftShape
        exact Option.some.inj shiftShape
    rw [perChannel]
    decide
  have applied : (Transformation.apply { rule := .maxPool, policy := {} } (.all {})
      (NodeId.mk 6)).runOn (.ofGraph graph) = (.ok true, _) := Prod.ext changed rfl
  obtain ⟨tail, _, evenly⟩ := @exists_movesEvenly_iff_of_apply Rat _ ⟨.maxPool, {}⟩ (.all {})
    (NodeId.mk 6) (.ofGraph graph) _ chain found wellFormed inferred kind (by decide)
    (fun other => absurd (by simp) other) applied
  exact ⟨graph, _, chain, added, found, wellFormed, inferred, kind, by decide, applied, fits,
    tail, evenly.mpr fun _ => fits⟩

end Transformation

namespace GraphRevision

open QuantGraph.Graph

/-- A matrix that is scaled by one number, written as a matrix of its own shape, times a
column of ones. -/
def scaledProduct : List (Draft Rat) :=
  let filled (name : String) (shape : Shape) (value : Rat) : Draft Rat :=
    (Op.constant { elementType := .f32, values := .replicate shape value }).draft name
  [{ op := .parameter, name := "data", declared := some { elementType := .f32, shape := [2, 2] } },
    filled "scale" [2, 2] 2,
    (Op.multiply.draft "scaled").readAll [NodeId.mk 0, NodeId.mk 1],
    filled "weights" [2, 1] 1,
    (Op.matMul.draft "product").readAll [NodeId.mk 2, NodeId.mk 3],
    (Op.result.draft "output").readAll [NodeId.mk 4]]

set_option synthInstance.maxSize 4096 in
theorem exists_propagateThroughMatMul_shape_ne :
    ∃ graph after : Graph Rat, Graph.empty.addAll scaledProduct = .ok graph ∧ graph.WellFormed ∧
      graph.IsInferred ∧
      (propagateThroughMatMul (NodeId.mk 4)).runOn graph = (.ok true, after) ∧
      graph.inputNode? (NodeId.mk 5) 0 = some (NodeId.mk 4) ∧
      after.inputNode? (NodeId.mk 5) 0 = some (NodeId.mk 7) ∧
      graph.shape? (NodeId.mk 4) = some [2, 1] ∧ after.shape? (NodeId.mk 7) = some [2, 2] ∧
      ¬ after.IsInferred := by
  have ordered : ∀ draft ∈ scaledProduct, draft.IsInOrder := by decide
  have undeclared : ∀ draft ∈ scaledProduct,
      draft.op.kind ≠ .parameter → draft.declared = none := by decide
  have made : (Graph.empty.addAll scaledProduct).map (fun graph =>
      let moved := (propagateThroughMatMul (NodeId.mk 4)).runOn graph
      (moved.1, graph.inputNode? (NodeId.mk 5) 0, moved.2.inputNode? (NodeId.mk 5) 0,
        graph.shape? (NodeId.mk 4), moved.2.shape? (NodeId.mk 7),
        (moved.2.node? (NodeId.mk 5)).map fun node => (node.op, node.shape,
          (moved.2.typesOf (moved.2.inputs (NodeId.mk 5)))))) =
      .ok (.ok true, some (NodeId.mk 4), some (NodeId.mk 7), some [2, 1], some [2, 2],
        some (.result, [2, 1], [{ elementType := .f32, shape := [2, 2] }])) := by decide +kernel
  obtain ⟨graph, added, facts⟩ := Outcome.map_eq_ok.mp made
  simp only [Prod.mk.injEq] at facts
  obtain ⟨changed, reads, readsAfter, shape, shapeAfter, facts⟩ := facts
  obtain ⟨node, found, facts⟩ := Option.map_eq_some_iff.mp facts
  simp only [Prod.mk.injEq] at facts
  obtain ⟨op_eq, shape_eq, types⟩ := facts
  refine ⟨graph, _, added, wellFormed_empty.addAll ordered added,
    isInferred_empty.addAll wellFormed_empty ordered undeclared added, Prod.ext changed rfl, reads,
    readsAfter, shape, shapeAfter, fun inferred => ?_⟩
  have wrong := inferred (NodeId.mk 5) node found (by rw [op_eq]; decide)
  rw [types, op_eq, shape_eq] at wrong
  cases wrong

end GraphRevision

end QuantGraph
