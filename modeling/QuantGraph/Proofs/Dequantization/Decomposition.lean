import QuantGraph.Dequantization.Decomposition
import QuantGraph.Proofs.Dequantization.Attachment
import QuantGraph.Proofs.Dequantization.Simplify

/-! Splitting and narrowing fake quantizations, as relations between the graph before
and the graph after. -/

namespace QuantGraph

/-- A fake quantization has the type of its data. -/
theorem Op.eq_of_infer_fakeQuantize {levels : Nat} {first type : ValueType}
    {others : List ValueType}
    (inferred : (fakeQuantize levels : Op α).infer (first :: others) = .ok type) :
    type = first := by
  unfold infer at inferred
  dsimp only at inferred
  split at inferred
  case isTrue => cases inferred
  case isFalse => exact (Except.ok.inj inferred).symm

namespace Graph

variable {graph : Graph α} {id : NodeId}

theorem limit?_of_read {limit : LimitName} {output : Output}
    (exact : graph.HasExactSlots id) (read : (graph.inputs id)[limit.slot]? = some output) :
    graph.limit? id limit = graph.constant? output.node := by
  rw [limit?, inputNode?, exact.input?_eq, read, Option.map_some, Option.bind_some]

theorem levels?_eq_some {op : Op α} {levels : Nat} (found : op.levels? = some levels) :
    op = .fakeQuantize levels := by
  cases op <;> cases found
  rfl

theorem fakeQuantizeNode_eq_ok {view : FakeQuantizeNode α}
    (found : graph.fakeQuantizeNode id = .ok view) :
    graph.node? id = some view.node ∧ view.node.op = .fakeQuantize view.levels ∧
      graph.inputs id =
        [view.data, view.inputLow, view.inputHigh, view.outputLow, view.outputHigh] := by
  unfold fakeQuantizeNode at found
  split at found
  case h_1 => cases found
  case h_2 node present =>
    split at found
    case h_1 => cases found
    case h_2 levels isLevels =>
      split at found
      case h_1 data inputLow inputHigh outputLow outputHigh inputs =>
        cases Except.ok.inj found
        exact ⟨present, levels?_eq_some isLevels, inputs⟩
      case h_2 => cases found

/-- The inputs of a fake quantization do not depend on it. -/
theorem supports_fakeQuantizeNode (wellFormed : graph.WellFormed) {view : FakeQuantizeNode α}
    (found : graph.fakeQuantizeNode id = .ok view) :
    graph.Supports id [view.data.node, view.inputLow.node, view.inputHigh.node,
      view.outputLow.node, view.outputHigh.node] := by
  obtain ⟨present, _, inputs⟩ := fakeQuantizeNode_eq_ok found
  refine ⟨wellFormed, contains_of_node? present, fun node member => ?_⟩
  have listed : node ∈ (graph.inputs id).map Output.node := by
    rw [inputs]
    exact member
  obtain ⟨output, read, rfl⟩ := List.mem_map.mp listed
  exact independent_of_reads wellFormed (reads_of_mem_inputs read)

/-! ## Relations -/

/-- A fake quantization with other output limits and another output precision has
taken the place of one. -/
def Narrows (before : Graph α) (id : NodeId) (precision : ElementType) (min max : α)
    (narrowed : NodeId) (after : Graph α) : Prop :=
  ∃ view low high withLow withHigh withNarrowed, before.fakeQuantizeNode id = .ok view ∧
    before.Adds ((Op.constant (.scalar view.node.outputType min)).draft "") [] low withLow ∧
    withLow.Adds ((Op.constant (.scalar view.node.outputType max)).draft "") [] high withHigh ∧
    withHigh.Adds ((view.draftWithOutputs view.node.name low high).withPrecision precision)
      [view.data, view.inputLow, view.inputHigh, low.output, high.output] narrowed withNarrowed ∧
    withNarrowed.Replaces id narrowed after

variable [Scalar α]

/-- The quantized values are those of a constant or of the fake quantization. -/
def SettlesQuantized (before : Graph α) (narrowed : NodeId) (name : String)
    (precision : ElementType) (updatePrecision : Bool) (quantize : NodeId) (after : Graph α) :
    Prop :=
  (∃ folded middle, before.foldFakeQuantize narrowed (some true) = .ok (some folded) ∧
    before.Adds ((Op.constant (if updatePrecision then folded.convert precision else folded)).draft
      name) [] quantize middle ∧
    middle.Sheds narrowed after ∧ after.WellFormed) ∨
  (before.foldFakeQuantize narrowed (some true) = .ok none ∧ quantize = narrowed ∧
    if updatePrecision then
      before.Declares narrowed (GraphRevision.declaring precision) after
    else after = before)

theorem SettlesQuantized.supports {before after : Graph α} {narrowed quantize op : NodeId}
    {nodes : List NodeId} {name : String} {precision : ElementType} {updatePrecision : Bool}
    (settles : before.SettlesQuantized narrowed name precision updatePrecision quantize after)
    (supports : before.Supports op (narrowed :: nodes)) : after.Supports op [quantize] := by
  rcases settles with ⟨folded, middle, _, adds, sheds, _⟩ | ⟨_, rfl, declares⟩
  · have supports := supports.of_adds adds (by simp)
    exact (supports.of_sheds sheds (supports.independent narrowed (by simp))).mono (by simp)
  · split at declares
    case isTrue => exact (supports.of_declares declares).mono (by simp)
    case isFalse =>
      subst declares
      exact supports.mono (by simp)

/-- The graphs on the way while a fake quantization is split. -/
def Decomposes (before : Graph α) (id : NodeId) (target : TargetRange α)
    (updatePrecision : Bool) (quantize tail : NodeId) (after : Graph α) : Prop :=
  ∃ view values low high narrowed chain withLow withHigh withNarrowed settled attached,
    before.fakeQuantizeNode id = .ok view ∧
    before.restoringDequantization id target = .ok values ∧
    before.Adds ((Op.constant (.scalar view.node.elementType target.min)).draft "") [] low withLow ∧
    withLow.Adds ((Op.constant (.scalar view.node.elementType target.max)).draft "") [] high
      withHigh ∧
    withHigh.Adds (view.draftWithOutputs (view.node.name ++ "_original") low high).relax
      [view.data, view.inputLow, view.inputHigh, low.output, high.output] narrowed withNarrowed ∧
    withNarrowed.SettlesQuantized narrowed (view.node.name ++ "_original") target.precision
      updatePrecision quantize settled ∧
    settled.Attaches values quantize.output (view.node.name ++ "_original") updatePrecision chain
      attached ∧
    chain.tail.node = tail ∧ attached.Replaces id tail after

end Graph

namespace GraphRevision

open QuantGraph.Graph Revision

variable {start graph : Graph α} {id op : NodeId} {nodes : List NodeId}

theorem ensures_narrowFakeQuantize {precision : ElementType} {min max : α}
    (wellFormed : graph.WellFormed) (evolves : start.Evolves graph) :
    (narrowFakeQuantize id precision min max).Ensures graph start.Evolves
      fun narrowed after => start.Evolves after ∧
        graph.Narrows id precision min max narrowed after := by
  unfold narrowFakeQuantize
  rw [ensures_bind, ensures_get, ensures_bind]
  refine ensures_ofExcept evolves fun view isView => ?_
  have supports := supports_fakeQuantizeNode wellFormed isView
  rw [ensures_bind]
  refine ensures_addConstantOn supports evolves fun low withLow addsLow supports evolves => ?_
  rw [ensures_bind]
  refine ensures_addConstantOn supports evolves fun high withHigh addsHigh supports evolves => ?_
  rw [ensures_bind]
  refine ensures_addOn [view.data, view.inputLow, view.inputHigh, low.output, high.output]
    supports evolves ⟨rfl, by simp⟩ rfl (by simp [NodeId.output])
    fun narrowed withNarrowed addsNarrowed supports evolves => ?_
  rw [ensures_bind]
  refine ensures_replaceOn supports evolves fun after replaces evolves => ?_
  exact ⟨evolves, view, low, high, withLow, withHigh, withNarrowed, isView, addsLow, addsHigh,
    addsNarrowed, replaces⟩

variable [Scalar α]

theorem ensures_settleQuantized {narrowed : NodeId} {name : String} {precision : ElementType}
    {updatePrecision : Bool}
    (supports : graph.Supports op (narrowed :: nodes)) (evolves : start.Evolves graph)
    (kind : graph.kind? narrowed = some .fakeQuantize) :
    (settleQuantized narrowed name precision updatePrecision).Ensures graph start.Evolves
      fun quantize after =>
        graph.SettlesQuantized narrowed name precision updatePrecision quantize after ∧
          after.Supports op [quantize] ∧ start.Evolves after := by
  unfold settleQuantized
  rw [ensures_bind, ensures_get, ensures_bind]
  refine ensures_ofExcept evolves fun outcome folds => ?_
  cases outcome with
  | some folded =>
      dsimp only
      rw [ensures_bind]
      refine ensures_addConstantOn supports evolves fun constant middle adds middleSupports
        evolves => ?_
      rw [ensures_bind]
      refine ensures_prune middleSupports.wellFormed evolves
        fun after sheds wellFormed evolves => ?_
      have settles : graph.SettlesQuantized narrowed name precision updatePrecision constant after :=
        Or.inl ⟨folded, middle, folds, adds, sheds, wellFormed⟩
      exact ⟨settles, settles.supports supports, evolves⟩
  | none =>
      dsimp only
      cases updatePrecision with
      | false =>
          exact ⟨Or.inr ⟨folds, rfl, by simp⟩, supports.mono (by simp), evolves⟩
      | true =>
          rw [if_pos rfl, ensures_bind]
          refine ensures_setPrecision supports.wellFormed evolves ?_
            fun after _ declares evolves => ?_
          · intro other found
            rw [kind] at found
            cases found
            rfl
          · exact ⟨Or.inr ⟨folds, rfl, by rw [if_pos rfl]; exact declares⟩,
              (supports.of_declares declares).mono (by simp), evolves⟩

theorem ensures_decomposeFakeQuantize {target : TargetRange α} {updatePrecision : Bool}
    (wellFormed : graph.WellFormed) (evolves : start.Evolves graph) :
    (decomposeFakeQuantize id target updatePrecision).Ensures graph start.Evolves
      fun result after => start.Evolves after ∧
        graph.Decomposes id target updatePrecision result.1 result.2 after := by
  unfold decomposeFakeQuantize
  rw [ensures_bind, ensures_get, ensures_bind]
  refine ensures_ofExcept evolves fun view isView => ?_
  rw [ensures_bind]
  refine ensures_ofExcept evolves fun values restores => ?_
  have supports := supports_fakeQuantizeNode wellFormed isView
  rw [ensures_bind]
  refine ensures_addConstantOn supports evolves fun low withLow addsLow supports evolves => ?_
  rw [ensures_bind]
  refine ensures_addConstantOn supports evolves fun high withHigh addsHigh supports evolves => ?_
  rw [ensures_bind]
  refine ensures_addOn [view.data, view.inputLow, view.inputHigh, low.output, high.output]
    supports evolves ⟨rfl, by simp⟩ rfl (by simp [NodeId.output])
    fun narrowed withNarrowed addsNarrowed supports evolves => ?_
  have kind : withNarrowed.kind? narrowed = some .fakeQuantize := by
    obtain ⟨type, _, found⟩ := addsNarrowed.node_new
    rw [kind?, found]
    rfl
  refine ensures_bind.mpr ((ensures_settleQuantized supports evolves kind).mono
    (fun _ bad => bad) ?_)
  rintro quantize settled ⟨settles, supports, evolves⟩
  refine ensures_bind.mpr ((Dequantization.ensures_attach supports evolves
    (by simp [NodeId.output])).mono (fun _ bad => bad) ?_)
  rintro chain attached ⟨attaches, supports, evolves⟩
  rw [ensures_bind]
  refine ensures_replaceOn supports evolves fun after replaces evolves => ?_
  exact ⟨evolves, view, values, low, high, narrowed, chain, withLow, withHigh, withNarrowed,
    settled, attached, isView, restores, addsLow, addsHigh, addsNarrowed, settles, attaches, rfl,
    replaces⟩

end GraphRevision

end QuantGraph
