import QuantGraph.Proofs.Dequantization.Decomposition
import QuantGraph.Proofs.Dequantization.Simplify
import QuantGraph.Proofs.Revision.Usage
import QuantGraph.Proofs.Rules.Creation
import QuantGraph.Proofs.Rules.Propagation

/-! The rules leave a graph in which everything is used when they start from one. -/

namespace QuantGraph

namespace GraphRevision

open QuantGraph.Graph Revision

variable {start graph : Graph α} {id : NodeId}

/-! ## Moving a chain -/

section Move

variable (prepares : start.Prepares graph [id])

include prepares

theorem ensures_adoptPrecision_waiting {source : Output} {name : String} :
    (adoptPrecision id source name).Ensures graph (fun _ => True)
      fun _ after => start.Prepares after [id] := by
  unfold adoptPrecision
  rw [ensures_bind, ensures_get]
  dsimp only
  split
  case isTrue => trivial
  case isFalse =>
    split
    case h_1 => exact ensures_overridePrecision_waiting prepares fun _ prepares => prepares
    case h_2 => trivial

theorem ensures_convertLike_waiting {chain : DequantizationChain} {plan : ChainMove} :
    (convertLike id chain plan).Ensures graph (fun _ => True)
      fun converted after => start.Prepares after [converted] := by
  unfold convertLike
  rw [ensures_bind, ensures_get]
  dsimp only
  split
  case h_1 => trivial
  case h_2 =>
    split
    case isTrue => exact prepares
    case isFalse =>
      exact ensures_addLast_waiting prepares [id.output] ⟨rfl, by simp⟩ (by simp [NodeId.output])
        fun _ _ prepares => prepares

theorem ensures_shiftLike_waiting {plan : ChainMove} :
    (shiftLike id plan).Ensures graph (fun _ => True)
      fun shifted after => start.Prepares after [shifted] := by
  unfold shiftLike
  split
  case h_1 shift _ =>
    exact ensures_addLast_waiting prepares [id.output, shift.output] ⟨rfl, by simp⟩
      (by simp [NodeId.output]) fun _ _ prepares => prepares
  case h_2 => exact prepares

end Move

/-- What is copied is neither a parameter, whose copy is refused, nor a result. -/
theorem ensures_addCopy_waiting {outputs : List Output} {done : NodeId → Graph α → Prop}
    (wellFormed : graph.WellFormed) (used : graph.AllUsed) (bound : outputs.length ≤ 256)
    (not_result : graph.kind? id ≠ some .result)
    (ok : ∀ copy after, graph.Removable id → graph.Prepares after [copy] → done copy after) :
    (GraphRevision.addCopy id outputs).Ensures graph (fun _ => True) done := by
  refine ensures_extend_of_eq fun copy after copied => ?_
  unfold Graph.addCopy at copied
  split at copied
  case h_1 node found =>
    have adds := adds_of_add wellFormed (copyDraft_readsInOrder node bound) copied
    obtain ⟨op_eq, declared, _⟩ := copyDraft_eq node outputs
    have not_parameter : node.kind ≠ .parameter := fun equal =>
      adds.kind_ne_parameter declared ((congrArg Op.kind op_eq).trans equal)
    have kind : graph.kind? id = some node.kind := by rw [kind?, found, Option.map_some]
    refine ok copy after ⟨node.kind, kind, ?_⟩
      ((used.prepares wellFormed).adds adds (by simp) (by simp))
    have not_result : node.kind ≠ .result := fun equal => not_result (equal ▸ kind)
    simp [isFixedKind, not_parameter, not_result]
  case h_2 => cases copied

variable [Scalar α]

theorem ensures_moveChainAfter_used {chain : DequantizationChain}
    {updatePrecision moveSubtract : Bool} (wellFormed : graph.WellFormed) (used : graph.AllUsed)
    (not_result : graph.kind? id ≠ some .result)
    (whole : moveSubtract = true ∨ chain.subtract = none) :
    (moveChainAfter id chain updatePrecision moveSubtract).Ensures graph (fun _ => True)
      fun _ after => after.AllUsed := by
  unfold moveChainAfter
  rw [ensures_bind, ensures_get, ensures_bind]
  refine ensures_ofExcept trivial fun plan planned => ?_
  have bound : plan.inputs.length ≤ 256 := by
    obtain ⟨slot, _, _, _, _, _, inputs_eq, _⟩ := chainMove_eq_ok planned
    rw [inputs_eq, List.length_set, length_inputs]
    exact (wellFormed.exact id).inputCount_le
  rw [ensures_bind]
  refine ensures_addCopy_waiting wellFormed used bound not_result
    fun copy copied removable prepares => ?_
  refine ensures_ite_bind (fun declared => graph.Prepares declared [copy])
    (fun _ => ensures_adoptPrecision_waiting prepares) (fun _ => prepares) fun _ prepares => ?_
  refine ensures_bind.mpr ((ensures_convertLike_waiting prepares).mono (fun _ _ => trivial) ?_)
  intro converted _ prepares
  refine ensures_bind.mpr ((ensures_shiftLike_waiting prepares).mono (fun _ _ => trivial) ?_)
  intro shifted _ prepares
  rw [ensures_bind]
  refine ensures_addLast_waiting prepares [shifted.output, plan.scale.output] ⟨rfl, by simp⟩
    (by simp [NodeId.output]) fun tail _ prepares => ?_
  rw [ensures_bind]
  refine ensures_replace_waiting prepares removable fun moved used => ?_
  split
  case h_1 subtracts =>
    rcases whole with moves | none
    · cases moves
    · rw [none] at subtracts
      cases subtracts
  case h_2 => exact used

theorem ensures_moveFound_used {found : Option DequantizationChain}
    {updatePrecision moveSubtract : Bool} (wellFormed : graph.WellFormed) (used : graph.AllUsed)
    (not_result : graph.kind? id ≠ some .result)
    (whole : moveSubtract = true ∨ ∀ chain, found = some chain → chain.subtract = none) :
    (moveFound id found updatePrecision moveSubtract).Ensures graph (fun _ => True)
      fun _ after => after.AllUsed := by
  unfold moveFound
  split
  case h_1 => exact used
  case h_2 chain =>
    refine ensures_bind.mpr ((ensures_moveChainAfter_used wellFormed used not_result
      (whole.imp_right fun none => none chain rfl)).mono (fun _ _ => trivial) ?_)
    exact fun _ _ used => used

/-- A stage lets go of its constant, which goes unless something else reads it. -/
theorem ensures_collapseStage_used {stage : Option NodeId} (wellFormed : graph.WellFormed)
    (used : graph.AllUsed) :
    (collapseStage stage).Ensures graph (fun _ => True)
      fun _ after => after.WellFormed ∧ after.AllUsed := by
  unfold collapseStage
  split
  case h_2 => exact ⟨wellFormed, used⟩
  case h_1 stage =>
    unfold collapseConstant
    rw [ensures_bind, ensures_get]
    split
    case h_1 => exact ⟨wellFormed, used⟩
    case h_2 position constant scalar found =>
      obtain ⟨output, _, listed, rfl, _⟩ := collapsibleConstant?_eq_some found
      have live := live_of_reads wellFormed (reads_of_mem_inputs (List.mem_of_getElem? listed))
      have added : (addConstant scalar "").Ensures graph graph.Evolves fun collapsed first =>
          graph.Adds ((Op.constant scalar).draft "") [] collapsed first :=
        ensures_addConstant wellFormed .refl fun _ _ adds _ => adds
      refine ensures_bind.mpr (added.mono (fun _ _ => trivial) fun collapsed first adds => ?_)
      have prepares : graph.Prepares first [collapsed] :=
        (used.prepares wellFormed).adds adds (by simp) (by simp)
      rw [ensures_bind]
      refine ensures_change.mpr ?_
      split
      case h_2 => trivial
      case h_1 second updated =>
        have resources := resources_of_setInput adds.wellFormed
          (fun reaches => (adds.reaches wellFormed.consistent live (by simp) reaches).2 rfl) updated
        have bound : position < 256 := by
          have inside := (List.getElem?_eq_some_iff.mp listed).1
          rw [length_inputs] at inside
          exact Nat.lt_of_lt_of_le inside (wellFormed.exact stage).inputCount_le
        have was : (first.inputs stage)[(UInt8.ofNat position).toNat]? = some output := by
          rw [UInt8.toNat_ofNat', Nat.mod_eq_of_lt bound, adds.inputs_old live]
          exact listed
        have sheds := sheds_prune resources.wellFormed.consistent output.node
        exact ⟨sheds.wellFormed resources.wellFormed,
          usedBut_nil.mp (prepares.used.resources resources was).prune⟩

theorem ensures_propagateThroughLayout_used (wellFormed : graph.WellFormed) (used : graph.AllUsed)
    (not_result : graph.kind? id ≠ some .result) :
    (propagateThroughLayout id).Ensures graph (fun _ => True) fun _ after => after.AllUsed := by
  have arithmetic : Creates.AllowsArithmetic fun kind => kind ≠ .result := by
    constructor <;> decide
  have copied : ∀ kind, graph.kind? id = some kind → kind ≠ .result := fun kind found equal =>
    not_result (found.trans (congrArg some equal))
  unfold propagateThroughLayout
  rw [ensures_bind, ensures_get]
  split
  case h_1 => exact used
  case h_2 chain _ =>
    unfold collapseConstants
    rw [ensures_bind, ensures_bind]
    refine ((ensures_collapseStage_used wellFormed used).and
      (ensures_collapseStage_makes arithmetic Makes.none)).mono (fun _ _ => trivial) ?_
    rintro _ middle ⟨⟨wellFormed, used⟩, first, makes⟩
    refine ((ensures_collapseStage_used wellFormed used).and
      (ensures_collapseStage_makes arithmetic makes)).mono (fun _ _ => trivial) ?_
    rintro _ collapsed ⟨⟨wellFormed, used⟩, second, makes⟩
    refine ensures_bind.mpr ((ensures_moveChainAfter_used wellFormed used ?_ (Or.inl rfl)).mono
      (fun _ _ => trivial) fun _ _ used => used)
    exact fun found => makes.allows_kind copied _ found rfl

/-! ## Regrouping -/

omit [Scalar α] in
theorem removable_of_fakeQuantizeNode {view : FakeQuantizeNode α}
    (found : graph.fakeQuantizeNode id = .ok view) : graph.Removable id := by
  obtain ⟨present, isOp, _⟩ := fakeQuantizeNode_eq_ok found
  exact ⟨.fakeQuantize, by rw [kind?, present, Option.map_some, Node.kind, isOp]; rfl, rfl⟩

section Regrouping

variable (wellFormed : graph.WellFormed) (used : graph.AllUsed)

include wellFormed used

theorem ensures_factorOutScale_used (removable : graph.Removable id) :
    (factorOutScale id).Ensures graph (fun _ => True) fun _ after => after.AllUsed := by
  unfold factorOutScale
  rw [ensures_bind, ensures_get]
  split
  case h_1 => exact used
  case h_2 branch _ =>
    unfold swapMultiplyAndAdd
    rw [ensures_bind, ensures_bind, ensures_get, ensures_bind]
    refine ensures_ofExcept trivial fun found _ => ?_
    rw [ensures_bind]
    refine ensures_folded trivial fun bias _ => ?_
    split
    case h_1 => trivial
    case h_2 precision _ =>
      refine ensures_bind.mpr (ensures_addConstant_waiting (used.prepares wellFormed)
        fun constant _ prepares => ?_)
      refine ensures_bind.mpr (ensures_addLast_waiting prepares [found.data, constant.output]
        ⟨rfl, by simp⟩ (by simp [NodeId.output]) fun sum _ prepares => ?_)
      refine ensures_bind.mpr (ensures_addLast_waiting prepares [sum.output, found.scale.output]
        ⟨rfl, by simp⟩ (by simp [NodeId.output]) fun product _ prepares => ?_)
      exact ensures_bind.mpr (ensures_replace_waiting prepares removable fun _ used => used)

theorem ensures_mergeIntoMultiply_used :
    (mergeIntoMultiply id).Ensures graph (fun _ => True) fun _ after => after.AllUsed := by
  unfold mergeIntoMultiply
  rw [ensures_bind, ensures_get]
  split
  case h_1 => exact used
  case h_2 multiply _ =>
    unfold mergeMultiplies
    rw [ensures_bind, ensures_bind, ensures_get]
    split
    case h_1 => exact used
    case h_2 found present =>
      obtain ⟨_, _, _, _, _, _, _, kind, _⟩ := multiplyPair?_eq_some present
      rw [ensures_bind]
      refine ensures_folded trivial fun product _ => ?_
      refine ensures_bind.mpr (ensures_addConstant_waiting (used.prepares wellFormed)
        fun constant _ prepares => ?_)
      have reads_pair : (((Op.multiply.draft found.name : Draft α).input found.data 0).input
          constant.output 1 |>.withPrecision? found.precision).ReadsInOrder
            [found.data, constant.output] := by
        refine ⟨?_, by simp⟩
        cases found.precision <;> rfl
      refine ensures_bind.mpr (ensures_addLast_waiting prepares _ reads_pair
        (by simp [NodeId.output]) fun merged _ prepares => ?_)
      exact ensures_bind.mpr (ensures_replace_waiting prepares ⟨_, kind, rfl⟩ fun _ used => used)

omit [Scalar α] in
theorem ensures_fuseConvert_used (removable : graph.Removable id) :
    (fuseConvert id).Ensures graph (fun _ => True) fun _ after => after.AllUsed := by
  unfold fuseConvert
  rw [ensures_bind, ensures_get]
  split
  case h_1 => exact used
  case h_2 found _ =>
    refine ensures_bind.mpr (ensures_addLast_waiting (used.prepares wellFormed)
      [found.data, found.constant.output] ⟨rfl, by simp⟩ (by simp) fun fused _ prepares => ?_)
    exact ensures_bind.mpr (ensures_replace_waiting prepares removable fun _ used => used)

theorem ensures_distributeScale_used (removable : graph.Removable id) :
    (distributeScale id).Ensures graph (fun _ => True) fun _ after => after.AllUsed := by
  unfold distributeScale
  rw [ensures_bind, ensures_get]
  split
  case h_1 => exact used
  case h_2 found _ =>
    rw [ensures_bind]
    refine ensures_folded trivial fun bias _ => ?_
    refine ensures_bind.mpr (ensures_addLast_waiting (used.prepares wellFormed)
      [found.data, found.scale.output] ⟨rfl, by simp⟩ (by simp) fun product _ prepares => ?_)
    refine ensures_bind.mpr (ensures_addConstant_waiting prepares fun constant _ prepares => ?_)
    refine ensures_bind.mpr (ensures_addLast_waiting prepares [product.output, constant.output]
      ⟨rfl, by simp⟩ (by simp [NodeId.output]) fun sum _ prepares => ?_)
    exact ensures_bind.mpr (ensures_replace_waiting prepares removable fun _ used => used)

/-! ## Limits -/

theorem ensures_fuseIntoInputLimits_used (removable : graph.Removable id) :
    (fuseIntoInputLimits id).Ensures graph (fun _ => True) fun _ after => after.AllUsed := by
  unfold fuseIntoInputLimits
  rw [ensures_bind, ensures_get, ensures_bind]
  refine ensures_ofExcept trivial fun outcome _ => ?_
  cases outcome with
  | none => exact used
  | some found =>
      refine ensures_bind.mpr (ensures_addConstant_waiting (used.prepares wellFormed)
        fun low _ prepares => ?_)
      refine ensures_bind.mpr (ensures_addConstant_waiting prepares fun high _ prepares => ?_)
      refine ensures_bind.mpr (ensures_addLast_waiting prepares [found.data, low.output, high.output,
        found.view.outputLow, found.view.outputHigh] ⟨?_, by simp⟩ (by simp [NodeId.output])
        fun fused _ prepares => ?_)
      · cases found.view.node.relaxed <;> cases found.view.node.precision <;> rfl
      · exact ensures_bind.mpr (ensures_replace_waiting prepares removable fun _ used => used)

theorem ensures_fuseIntoOutputLimits_used {op : BinaryOp} (removable : graph.Removable id) :
    (fuseIntoOutputLimits id op).Ensures graph (fun _ => True) fun _ after => after.AllUsed := by
  unfold fuseIntoOutputLimits
  rw [ensures_bind, ensures_get, ensures_bind]
  refine ensures_ofExcept trivial fun outcome _ => ?_
  cases outcome with
  | none => exact used
  | some found =>
      refine ensures_bind.mpr (ensures_addConstant_waiting (used.prepares wellFormed)
        fun low _ prepares => ?_)
      refine ensures_bind.mpr (ensures_addConstant_waiting prepares fun high _ prepares => ?_)
      refine ensures_bind.mpr (ensures_addLast_waiting prepares [found.view.data,
        found.view.inputLow, found.view.inputHigh, low.output, high.output] ⟨rfl, by simp⟩
        (by simp [NodeId.output]) fun fused _ prepares => ?_)
      exact ensures_bind.mpr (ensures_replace_waiting prepares removable fun _ used => used)

theorem ensures_fuseSubtractIntoLimits_used (removable : graph.Removable id) :
    (fuseSubtractIntoLimits id).Ensures graph (fun _ => True) fun _ after => after.AllUsed := by
  unfold fuseSubtractIntoLimits
  rw [ensures_bind, ensures_get]
  split
  case h_1 =>
    split
    case isTrue => exact ensures_fuseIntoOutputLimits_used wellFormed used removable
    case isFalse => exact used
  case h_2 => exact used

/-! ## Quantization -/

omit [Scalar α] in
theorem ensures_narrowFakeQuantize_used {precision : ElementType} {min max : α} :
    (narrowFakeQuantize id precision min max).Ensures graph (fun _ => True)
      fun _ after => after.AllUsed := by
  unfold narrowFakeQuantize
  rw [ensures_bind, ensures_get, ensures_bind]
  refine ensures_ofExcept trivial fun view isView => ?_
  have removable := removable_of_fakeQuantizeNode isView
  refine ensures_bind.mpr (ensures_addConstant_waiting (used.prepares wellFormed)
    fun low _ prepares => ?_)
  refine ensures_bind.mpr (ensures_addConstant_waiting prepares fun high _ prepares => ?_)
  refine ensures_bind.mpr (ensures_addLast_waiting prepares [view.data, view.inputLow,
    view.inputHigh, low.output, high.output] ⟨rfl, by simp⟩ (by simp [NodeId.output])
    fun narrowed _ prepares => ?_)
  exact ensures_bind.mpr (ensures_replace_waiting prepares removable fun _ used => used)

omit wellFormed used in
/-- The fake quantization that a constant stands in for goes with its limits. -/
theorem ensures_settleQuantized_waiting {name : String} {precision : ElementType}
    {updatePrecision : Bool} (prepares : start.Prepares graph [id]) :
    (settleQuantized id name precision updatePrecision).Ensures graph (fun _ => True)
      fun quantize after => start.Prepares after [quantize] := by
  unfold settleQuantized
  rw [ensures_bind, ensures_get, ensures_bind]
  refine ensures_ofExcept trivial fun outcome _ => ?_
  split
  case h_1 =>
    refine ensures_bind.mpr (ensures_addConstant_waiting prepares fun constant _ prepares => ?_)
    have prepares : start.Prepares _ [id, constant] :=
      prepares.mono (by simp) fun other member => prepares.fresh other (by simpa [or_comm] using member)
    exact prepares.prune
  case h_2 =>
    refine ensures_ite_bind (fun after => start.Prepares after [id])
      (fun _ => ensures_setPrecision_waiting prepares fun _ prepares => prepares)
      (fun _ => prepares) ?_
    exact fun _ prepares => prepares

theorem ensures_decomposeFakeQuantize_used {target : TargetRange α} {updatePrecision : Bool} :
    (decomposeFakeQuantize id target updatePrecision).Ensures graph (fun _ => True)
      fun _ after => after.AllUsed := by
  unfold decomposeFakeQuantize
  rw [ensures_bind, ensures_get, ensures_bind]
  refine ensures_ofExcept trivial fun view isView => ?_
  have removable := removable_of_fakeQuantizeNode isView
  rw [ensures_bind]
  refine ensures_ofExcept trivial fun values _ => ?_
  refine ensures_bind.mpr (ensures_addConstant_waiting (used.prepares wellFormed)
    fun low _ prepares => ?_)
  refine ensures_bind.mpr (ensures_addConstant_waiting prepares fun high _ prepares => ?_)
  refine ensures_bind.mpr (ensures_addLast_waiting prepares [view.data, view.inputLow,
    view.inputHigh, low.output, high.output] ⟨rfl, by simp⟩ (by simp [NodeId.output])
    fun narrowed _ prepares => ?_)
  refine ensures_bind.mpr ((ensures_settleQuantized_waiting prepares).mono (fun _ _ => trivial) ?_)
  intro quantize _ prepares
  refine ensures_bind.mpr (ensures_attach_waiting prepares (by simp [NodeId.output])
    fun chain _ prepares => ?_)
  exact ensures_bind.mpr (ensures_replace_waiting prepares removable fun _ used => used)

end Regrouping

end GraphRevision

end QuantGraph
