import QuantGraph.Dequantization
import QuantGraph.Proofs.Dequantization.Patterns
import QuantGraph.Proofs.Revision.Primitives

/-! Attaching a dequantization to an output, as a relation between the graph before
and the graph after. -/

namespace QuantGraph

namespace Graph

/-- A Convert to a real type has been added, if it was asked for. -/
def AttachesConvert (before : Graph α) (values : Dequantization α) (data : Output)
    (name : String) (withConvert : Bool) (convert : Option NodeId) (after : Graph α) : Prop :=
  if withConvert then ∃ node, convert = some node ∧
    before.Adds ((Op.draft (.convert values.restoredType) (name ++ "_Convert")).input data 0)
      [data] node after
  else convert = none ∧ after = before

/-- A Subtract of the shift has been added, if there is one. -/
def AttachesSubtract (before : Graph α) (values : Dequantization α) (data : Output)
    (name : String) (subtract : Option NodeId) (after : Graph α) : Prop :=
  match values.shift with
  | some shift => ∃ constant middle node, subtract = some node ∧
      before.Adds ((Op.constant shift).draft "") [] constant middle ∧
      middle.Adds ((Op.subtract.draft (name ++ "_Subtract")).input data 0
        |>.input constant.output 1) [data, constant.output] node after
  | none => subtract = none ∧ after = before

/-- The output of an optional stage, and without the stage what it would have read. -/
def stageOutput (stage : Option NodeId) (data : Output) : Output :=
  (stage.map NodeId.output).getD data

/-- The graphs on the way while a chain is attached to an output. -/
def Attaches (before : Graph α) (values : Dequantization α) (data : Output) (name : String)
    (withConvert : Bool) (chain : DequantizationChain) (after : Graph α) : Prop :=
  ∃ converted shifted constant multiply withConstant,
    before.AttachesConvert values data name withConvert chain.convert converted ∧
    converted.AttachesSubtract values (stageOutput chain.convert data) name chain.subtract shifted ∧
    shifted.Adds ((Op.constant values.scale).draft "") [] constant withConstant ∧
    withConstant.Adds ((Op.multiply.draft (name ++ "_Multiply")).input
      (stageOutput chain.subtract (stageOutput chain.convert data)) 0 |>.input constant.output 1)
      [stageOutput chain.subtract (stageOutput chain.convert data), constant.output] multiply after ∧
    chain.data = data ∧ chain.multiply = some multiply

section Attaches

variable {before after : Graph α} {op : NodeId} {values : Dequantization α} {data : Output}
  {name : String} {withConvert : Bool}

theorem AttachesConvert.supports {convert : Option NodeId}
    (attaches : before.AttachesConvert values data name withConvert convert after)
    (supports : before.Supports op [data.node]) :
    after.Supports op [(stageOutput convert data).node] := by
  unfold AttachesConvert at attaches
  split at attaches
  case isTrue =>
    obtain ⟨node, rfl, adds⟩ := attaches
    exact (supports.of_adds adds (by simp)).mono (by simp [stageOutput, NodeId.output])
  case isFalse =>
    obtain ⟨rfl, rfl⟩ := attaches
    exact supports

theorem AttachesSubtract.supports {subtract : Option NodeId}
    (attaches : before.AttachesSubtract values data name subtract after)
    (supports : before.Supports op [data.node]) :
    after.Supports op [(stageOutput subtract data).node] := by
  unfold AttachesSubtract at attaches
  split at attaches
  case h_1 =>
    obtain ⟨constant, middle, node, rfl, addsConstant, adds⟩ := attaches
    have supports := supports.of_adds addsConstant (by simp)
    exact (supports.of_adds adds (by simp [NodeId.output])).mono
      (by simp [stageOutput, NodeId.output])
  case h_2 =>
    obtain ⟨rfl, rfl⟩ := attaches
    exact supports

/-- The end of a chain depends on nothing that its start does not depend on. -/
theorem Attaches.supports {chain : DequantizationChain}
    (attaches : before.Attaches values data name withConvert chain after)
    (supports : before.Supports op [data.node]) : after.Supports op [chain.tail.node] := by
  obtain ⟨converted, shifted, constant, multiply, withConstant, addsConvert, addsSubtract,
    addsConstant, addsMultiply, _, isMultiply⟩ := attaches
  have supports := addsSubtract.supports (addsConvert.supports supports)
  have supports := supports.of_adds addsConstant (by simp)
  exact (supports.of_adds addsMultiply (by simp [NodeId.output])).mono
    (by simp [DequantizationChain.tail, isMultiply, NodeId.output])

end Attaches

end Graph

namespace Dequantization

open QuantGraph.Graph Revision GraphRevision

variable {start graph : Graph α} {op : NodeId} {nodes : List NodeId}
  {values : Dequantization α} {data : Output} {name : String} {withConvert : Bool}

theorem ensures_attachConvert (supports : graph.Supports op nodes) (evolves : start.Evolves graph)
    (source : data.node ∈ nodes) :
    (values.attachConvert data name withConvert).Ensures graph start.Evolves
      fun convert after => graph.AttachesConvert values data name withConvert convert after ∧
        after.Supports op ((stageOutput convert data).node :: nodes) ∧ start.Evolves after := by
  unfold attachConvert
  cases withConvert with
  | false =>
      refine ⟨⟨rfl, rfl⟩, supports.mono fun node member => ?_, evolves⟩
      rcases List.mem_cons.mp member with rfl | member
      · exact source
      · exact member
  | true =>
      refine ensures_bind.mpr (ensures_addOn [data] supports evolves
        ⟨rfl, by simp⟩ rfl (by simp [source]) fun convert after adds supports evolves => ?_)
      exact ⟨⟨convert, rfl, adds⟩, supports, evolves⟩

theorem ensures_attachSubtract (supports : graph.Supports op nodes) (evolves : start.Evolves graph)
    (source : data.node ∈ nodes) :
    (values.attachSubtract data name).Ensures graph start.Evolves
      fun subtract after => graph.AttachesSubtract values data name subtract after ∧
        after.Supports op ((stageOutput subtract data).node :: nodes) ∧ start.Evolves after := by
  unfold attachSubtract AttachesSubtract
  cases values.shift with
  | none =>
      refine ⟨⟨rfl, rfl⟩, supports.mono fun node member => ?_, evolves⟩
      rcases List.mem_cons.mp member with rfl | member
      · exact source
      · exact member
  | some shift =>
      dsimp only
      rw [ensures_bind]
      refine ensures_addConstantOn supports evolves fun constant middle addsConstant supports
        evolves => ?_
      refine ensures_bind.mpr (ensures_addOn [data, constant.output] supports evolves
        ⟨rfl, by simp⟩ rfl (by simp [NodeId.output, source])
        fun subtract after adds supports evolves => ?_)
      exact ⟨⟨constant, middle, subtract, rfl, addsConstant, adds⟩, supports.mono (by
        simp +contextual [stageOutput, NodeId.output]), evolves⟩

theorem ensures_attach (supports : graph.Supports op nodes) (evolves : start.Evolves graph)
    (source : data.node ∈ nodes) :
    (values.attach data name withConvert).Ensures graph start.Evolves fun chain after =>
      graph.Attaches values data name withConvert chain after ∧
        after.Supports op (chain.tail.node :: nodes) ∧ start.Evolves after := by
  unfold attach
  refine ensures_bind.mpr ((ensures_attachConvert supports evolves source).mono
    (fun _ bad => bad) ?_)
  rintro convert converted ⟨addsConvert, supports, evolves⟩
  refine ensures_bind.mpr ((ensures_attachSubtract supports evolves List.mem_cons_self).mono
    (fun _ bad => bad) ?_)
  rintro subtract shifted ⟨addsSubtract, supports, evolves⟩
  rw [ensures_bind]
  refine ensures_addConstantOn supports evolves fun constant withConstant addsConstant supports
    evolves => ?_
  refine ensures_bind.mpr (ensures_addOn
    [stageOutput subtract (stageOutput convert data), constant.output] supports evolves
    ⟨rfl, by simp⟩ rfl (by simp [NodeId.output])
    fun multiply after addsMultiply supports evolves => ?_)
  refine ⟨⟨converted, shifted, constant, multiply, withConstant, addsConvert, addsSubtract,
    addsConstant, addsMultiply, rfl, rfl⟩, ?_, evolves⟩
  exact supports.mono (by simp +contextual [DequantizationChain.tail, NodeId.output])

end Dequantization

end QuantGraph
