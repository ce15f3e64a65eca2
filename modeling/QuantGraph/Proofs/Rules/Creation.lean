import QuantGraph.Proofs.Revision.Creation
import QuantGraph.Rules.LimitFusion
import QuantGraph.Rules.Propagation
import QuantGraph.Rules.Reassociation

/-! What the rules tell is what they do, in any graph whatsoever. -/

namespace QuantGraph

namespace Graph

/-- A revision that tells of a change has created a node of an allowed kind by calls, and one
that tells of none has left the graph as it was. -/
def Tells (allowed : OpKind → Prop) (before : Graph α) (changed : Bool) (after : Graph α) : Prop :=
  if changed then ∃ count, before.Makes allowed (count + 1) after else after = before

end Graph

namespace GraphRevision

open QuantGraph.Graph Revision Creates

variable [Scalar α] {allowed : OpKind → Prop} {graph : Graph α} {id : NodeId}

section Arithmetic

variable (arithmetic : AllowsArithmetic allowed)

include arithmetic

theorem tells_factorOutScale :
    (factorOutScale id).Ensures graph (fun _ => True) (graph.Tells allowed) := by
  unfold factorOutScale
  rw [ensures_bind, ensures_get]
  split
  case h_1 => exact rfl
  case h_2 branch _ =>
    unfold swapMultiplyAndAdd
    rw [ensures_bind, ensures_bind, ensures_get, ensures_bind]
    refine ensures_ofExcept trivial fun found _ => ?_
    rw [ensures_bind]
    refine ensures_folded trivial fun bias _ => ?_
    split
    case h_1 => trivial
    case h_2 precision _ =>
      refine ensures_bind.mpr (Makes.none.ensures_addConstant arithmetic fun _ _ makes => ?_)
      refine ensures_bind.mpr (makes.ensures_add arithmetic.add fun _ _ makes => ?_)
      refine ensures_bind.mpr (makes.ensures_add arithmetic.multiply fun _ _ makes => ?_)
      exact ensures_bind.mpr (makes.ensures_replace fun _ makes => ⟨_, makes⟩)

theorem tells_mergeIntoMultiply :
    (mergeIntoMultiply id).Ensures graph (fun _ => True) (graph.Tells allowed) := by
  unfold mergeIntoMultiply
  rw [ensures_bind, ensures_get]
  split
  case h_1 => exact rfl
  case h_2 multiply _ =>
    unfold mergeMultiplies
    rw [ensures_bind, ensures_bind, ensures_get]
    split
    case h_1 => exact rfl
    case h_2 found _ =>
      rw [ensures_bind]
      refine ensures_folded trivial fun product _ => ?_
      refine ensures_bind.mpr (Makes.none.ensures_addConstant arithmetic fun _ _ makes => ?_)
      refine ensures_bind.mpr (makes.ensures_add ?_ fun _ _ makes => ?_)
      · rw [Draft.op_withPrecision?]
        exact arithmetic.multiply
      · exact ensures_bind.mpr (makes.ensures_replace fun _ makes => ⟨_, makes⟩)

omit [Scalar α] in
theorem tells_fuseConvert :
    (fuseConvert id).Ensures graph (fun _ => True) (graph.Tells allowed) := by
  unfold fuseConvert
  rw [ensures_bind, ensures_get]
  split
  case h_1 => exact rfl
  case h_2 =>
    refine ensures_bind.mpr (Makes.none.ensures_add arithmetic.multiply fun _ _ makes => ?_)
    exact ensures_bind.mpr (makes.ensures_replace fun _ makes => ⟨_, makes⟩)

theorem tells_distributeScale :
    (distributeScale id).Ensures graph (fun _ => True) (graph.Tells allowed) := by
  unfold distributeScale
  rw [ensures_bind, ensures_get]
  split
  case h_1 => exact rfl
  case h_2 =>
    rw [ensures_bind]
    refine ensures_folded trivial fun bias _ => ?_
    refine ensures_bind.mpr (Makes.none.ensures_add arithmetic.multiply fun _ _ makes => ?_)
    refine ensures_bind.mpr (makes.ensures_addConstant arithmetic fun _ _ makes => ?_)
    refine ensures_bind.mpr (makes.ensures_add arithmetic.add fun _ _ makes => ?_)
    exact ensures_bind.mpr (makes.ensures_replace fun _ makes => ⟨_, makes⟩)

/-! ### Propagation -/

theorem ensures_collapseStage_makes {start : Graph α} {count : Nat} {stage : Option NodeId}
    (makes : start.Makes allowed count graph) :
    (collapseStage stage).Ensures graph (fun _ => True)
      fun _ after => ∃ more, start.Makes allowed (count + more) after := by
  unfold collapseStage
  split
  case h_1 stage =>
    unfold collapseConstant
    rw [ensures_bind, ensures_get]
    split
    case h_1 => exact ⟨0, makes⟩
    case h_2 =>
      refine ensures_bind.mpr (makes.ensures_addConstant arithmetic fun _ _ makes => ?_)
      refine ensures_bind.mpr (makes.ensures_setInput fun _ makes => ?_)
      exact ⟨1, makes.prune _⟩
  case h_2 => exact ⟨0, makes⟩


theorem tells_moveFound {found : Option DequantizationChain} {updatePrecision moveSubtract : Bool}
    (copied : ∀ kind, graph.kind? id = some kind → allowed kind) :
    (moveFound id found updatePrecision moveSubtract).Ensures graph (fun _ => True)
      (graph.Tells allowed) := by
  unfold moveFound
  split
  case h_1 => exact rfl
  case h_2 =>
    refine ensures_bind.mpr ((Makes.none.ensures_moveChainAfter arithmetic copied).mono
      (fun _ _ => trivial) ?_)
    exact fun _ _ ⟨_, makes⟩ => ⟨_, makes⟩

theorem tells_propagateThroughLayout (copied : ∀ kind, graph.kind? id = some kind → allowed kind) :
    (propagateThroughLayout id).Ensures graph (fun _ => True) (graph.Tells allowed) := by
  unfold propagateThroughLayout
  rw [ensures_bind, ensures_get]
  split
  case h_1 => exact rfl
  case h_2 chain _ =>
    unfold collapseConstants
    rw [ensures_bind, ensures_bind]
    refine (ensures_collapseStage_makes arithmetic Makes.none).mono (fun _ _ => trivial) ?_
    rintro _ middle ⟨first, makes⟩
    refine (ensures_collapseStage_makes arithmetic makes).mono (fun _ _ => trivial) ?_
    rintro _ collapsed ⟨second, makes⟩
    refine ensures_bind.mpr ((makes.ensures_moveChainAfter arithmetic
      (makes.allows_kind copied)).mono (fun _ _ => trivial) ?_)
    exact fun _ _ ⟨more, makes⟩ => ⟨_, makes⟩

end Arithmetic

/-! ### Limits -/

variable (quantization : AllowsQuantization allowed)

include quantization

theorem tells_fuseIntoInputLimits :
    (fuseIntoInputLimits id).Ensures graph (fun _ => True) (graph.Tells allowed) := by
  have arithmetic := quantization.toAllowsArithmetic
  unfold fuseIntoInputLimits
  rw [ensures_bind, ensures_get, ensures_bind]
  refine ensures_ofExcept trivial fun outcome _ => ?_
  split
  case h_1 => exact rfl
  case h_2 found =>
    refine ensures_bind.mpr (Makes.none.ensures_addConstant arithmetic fun _ _ makes => ?_)
    refine ensures_bind.mpr (makes.ensures_addConstant arithmetic fun _ _ makes => ?_)
    refine ensures_bind.mpr (makes.ensures_add ?_ fun _ _ makes => ?_)
    · rw [Draft.op_withPrecision?]
      split <;> exact quantization.fakeQuantize
    · exact ensures_bind.mpr (makes.ensures_replace fun _ makes => ⟨_, makes⟩)

theorem tells_fuseIntoOutputLimits {op : BinaryOp} :
    (fuseIntoOutputLimits id op).Ensures graph (fun _ => True) (graph.Tells allowed) := by
  have arithmetic := quantization.toAllowsArithmetic
  unfold fuseIntoOutputLimits
  rw [ensures_bind, ensures_get, ensures_bind]
  refine ensures_ofExcept trivial fun outcome _ => ?_
  split
  case h_1 => exact rfl
  case h_2 found =>
    refine ensures_bind.mpr (Makes.none.ensures_addConstant arithmetic fun _ _ makes => ?_)
    refine ensures_bind.mpr (makes.ensures_addConstant arithmetic fun _ _ makes => ?_)
    refine ensures_bind.mpr (makes.ensures_add quantization.fakeQuantize fun _ _ makes => ?_)
    exact ensures_bind.mpr (makes.ensures_replace fun _ makes => ⟨_, makes⟩)

theorem tells_fuseSubtractIntoLimits :
    (fuseSubtractIntoLimits id).Ensures graph (fun _ => True) (graph.Tells allowed) := by
  unfold fuseSubtractIntoLimits
  rw [ensures_bind, ensures_get]
  split
  case h_1 =>
    split
    case isTrue => exact tells_fuseIntoOutputLimits quantization
    case isFalse => exact rfl
  case h_2 => exact rfl

/-! ### Quantization -/

variable {start : Graph α} {count : Nat} (makes : start.Makes allowed count graph)

include makes

theorem ensures_settleQuantized_makes {name : String} {precision : ElementType}
    {updatePrecision : Bool} :
    (settleQuantized id name precision updatePrecision).Ensures graph (fun _ => True)
      fun _ after => ∃ more, start.Makes allowed (count + more) after := by
  unfold settleQuantized
  rw [ensures_bind, ensures_get, ensures_bind]
  refine ensures_ofExcept trivial fun outcome _ => ?_
  split
  case h_1 =>
    refine ensures_bind.mpr (makes.ensures_addConstant quantization.toAllowsArithmetic
      fun _ _ makes => ?_)
    exact ⟨1, makes.prune _⟩
  case h_2 =>
    refine ensures_ite_bind (fun after => start.Makes allowed count after)
      (fun _ => makes.ensures_setPrecision fun _ makes => makes) (fun _ => makes) ?_
    exact fun _ makes => ⟨0, makes⟩

theorem ensures_decomposeFakeQuantize_makes {target : TargetRange α} {updatePrecision : Bool} :
    (decomposeFakeQuantize id target updatePrecision).Ensures graph (fun _ => True)
      fun _ after => ∃ more, start.Makes allowed (count + more + 1) after := by
  have arithmetic := quantization.toAllowsArithmetic
  unfold decomposeFakeQuantize
  rw [ensures_bind, ensures_get, ensures_bind]
  refine ensures_ofExcept trivial fun view _ => ?_
  rw [ensures_bind]
  refine ensures_ofExcept trivial fun values _ => ?_
  refine ensures_bind.mpr (makes.ensures_addConstant arithmetic fun _ _ makes => ?_)
  refine ensures_bind.mpr (makes.ensures_addConstant arithmetic fun _ _ makes => ?_)
  refine ensures_bind.mpr (makes.ensures_add quantization.fakeQuantize fun _ _ makes => ?_)
  refine ensures_bind.mpr ((ensures_settleQuantized_makes quantization makes).mono
    (fun _ _ => trivial) ?_)
  rintro quantize middle ⟨first, makes⟩
  refine ensures_bind.mpr (makes.ensures_attach arithmetic fun chain middle second makes => ?_)
  refine ensures_bind.mpr (makes.ensures_replace fun _ makes => ?_)
  have total : count + 1 + 1 + 1 + first + second + 1 = count + (3 + first + second) + 1 := by
    omega
  exact ⟨_, total ▸ makes⟩

omit [Scalar α] in
theorem ensures_narrowFakeQuantize_makes {precision : ElementType} {min max : α} :
    (narrowFakeQuantize id precision min max).Ensures graph (fun _ => True)
      fun _ after => start.Makes allowed (count + 3) after := by
  have arithmetic := quantization.toAllowsArithmetic
  unfold narrowFakeQuantize
  rw [ensures_bind, ensures_get, ensures_bind]
  refine ensures_ofExcept trivial fun view _ => ?_
  refine ensures_bind.mpr (makes.ensures_addConstant arithmetic fun _ _ makes => ?_)
  refine ensures_bind.mpr (makes.ensures_addConstant arithmetic fun _ _ makes => ?_)
  refine ensures_bind.mpr (makes.ensures_add quantization.fakeQuantize fun _ _ makes => ?_)
  exact ensures_bind.mpr (makes.ensures_replace fun _ makes => makes)

end GraphRevision

end QuantGraph
