import QuantGraph.Proofs.Dequantization.Decomposition
import QuantGraph.Proofs.Outcome
import QuantGraph.Rules.LimitFusion

/-! The rules by which a fake quantization takes in the constant operation before or
after it, as relations between the graph before and the graph after. -/

namespace QuantGraph

namespace Graph

variable {graph : Graph α} {id : NodeId}

/-! ## Where the patterns stand -/

theorem quantizerBehind?_eq_some {operand : ConstantOperand α} {quantizer : NodeId}
    (found : graph.quantizerBehind? operand = some quantizer) :
    quantizer = operand.data.node ∨
      graph.kind? operand.data.node = some .convert ∧
        graph.consumerCount operand.data.node = 1 ∧
        graph.inputNode? operand.data.node 0 = some quantizer := by
  unfold quantizerBehind? at found
  dsimp only at found
  split at found
  case isTrue both =>
    rw [Bool.and_eq_true, beq_iff_eq, isKind_iff] at both
    exact Or.inr ⟨both.1, both.2, found⟩
  case isFalse => exact Or.inl (Option.some.inj found).symm

variable [Scalar α]

theorem foldLimits_eq_ok {op : BinaryOp} {low high value newLow newHigh : Tensor α}
    (folded : foldLimits op low high value = .ok (some (newLow, newHigh))) :
    Tensor.combine op low value = .ok newLow ∧ Tensor.combine op high value = .ok newHigh := by
  obtain ⟨first, lowFolded, rest⟩ := Outcome.bind_eq_ok.mp folded
  obtain ⟨second, highFolded, equal⟩ := Outcome.bind_eq_ok.mp rest
  cases Option.some.inj (Except.ok.inj equal)
  exact ⟨Outcome.mapError_eq_ok.mp lowFolded, Outcome.mapError_eq_ok.mp highFolded⟩

theorem inputFusion_eq_ok {found : InputFusion α} (present : graph.inputFusion id = .ok (some found)) :
    ∃ low high operand, graph.fakeQuantizeNode id = .ok found.view ∧
      graph.constant? found.view.inputLow.node = some low ∧
      graph.constant? found.view.inputHigh.node = some high ∧
      graph.constantOperand? found.view.data.node = some operand ∧
      graph.consumerCount found.view.data.node = 1 ∧
      graph.limitsBeforeOperand found.view.data.node operand low high =
        .ok (some (found.low, found.high)) ∧
      found.data = operand.data ∧
      found.low.shape.StretchesTo ((graph.shape? operand.data.node).getD []) ∧
      found.high.shape.StretchesTo ((graph.shape? operand.data.node).getD []) := by
  unfold inputFusion at present
  split at present
  case h_1 => cases present
  case h_2 view isView =>
    dsimp only at present
    split at present
    case h_1 low high operand isLow isHigh isOperand =>
      split at present
      case isTrue => cases present
      case isFalse count =>
        cases limits : graph.limitsBeforeOperand view.data.node operand low high with
        | error => rw [limits] at present; cases present
        | ok outcome =>
            rw [limits] at present
            cases outcome with
            | none => cases present
            | some pair =>
                obtain ⟨newLow, newHigh⟩ := pair
                change (if _ then _ else _) = _ at present
                split at present
                case isTrue stretches =>
                  cases Option.some.inj (Except.ok.inj present)
                  exact ⟨low, high, operand, isView, isLow, isHigh, isOperand,
                    Decidable.not_not.mp count, limits, rfl, stretches.1, stretches.2⟩
                case isFalse => cases present
    case h_2 => cases present

theorem outputFusion_eq_ok {op : BinaryOp} {found : OutputFusion α}
    (present : graph.outputFusion id op = .ok (some found)) :
    ∃ operand quantizer low high, graph.constantOperand? id = some operand ∧
      graph.quantizerBehind? operand = some quantizer ∧ graph.consumerCount quantizer = 1 ∧
      graph.fakeQuantizeNode quantizer = .ok found.view ∧
      graph.constant? found.view.outputLow.node = some low ∧
      graph.constant? found.view.outputHigh.node = some high ∧
      graph.elementType? id = some found.precision ∧
      Tensor.combine op low operand.tensor = .ok found.low ∧
      Tensor.combine op high operand.tensor = .ok found.high ∧
      found.low.shape.StretchesTo found.view.node.shape ∧
      found.high.shape.StretchesTo found.view.node.shape := by
  unfold outputFusion at present
  split at present
  case h_1 => cases present
  case h_2 operand isOperand =>
    split at present
    case h_1 => cases present
    case h_2 quantizer isQuantizer =>
      split at present
      case isTrue => cases present
      case isFalse reads =>
        split at present
        case h_1 => cases present
        case h_2 view isView =>
          split at present
          case h_1 low high precision isLow isHigh typed =>
            cases limits : foldLimits op low high operand.tensor with
            | error => rw [limits] at present; cases present
            | ok outcome =>
                rw [limits] at present
                cases outcome with
                | none => cases present
                | some pair =>
                    obtain ⟨newLow, newHigh⟩ := pair
                    change (if _ then _ else _) = _ at present
                    split at present
                    case isTrue stretches =>
                      cases Option.some.inj (Except.ok.inj present)
                      obtain ⟨folded_low, folded_high⟩ := foldLimits_eq_ok limits
                      simp only [Bool.or_eq_true, decide_eq_true_eq, not_or,
                        Decidable.not_not] at reads
                      exact ⟨operand, quantizer, low, high, isOperand, isQuantizer, reads.1,
                        isView, isLow, isHigh, typed, folded_low, folded_high, stretches.1,
                        stretches.2⟩
                    case isFalse => cases present
          case h_2 => cases present

/-! ## Relations -/

/-- A fake quantization with other input limits has taken the place of one and of the
operation before it. -/
def FusesInputLimits (before : Graph α) (id : NodeId) (after : Graph α) : Prop :=
  ∃ found low high fused withLow withHigh withFused, before.inputFusion id = .ok (some found) ∧
    before.Adds ((Op.constant found.low).draft "") [] low withLow ∧
    withLow.Adds ((Op.constant found.high).draft "") [] high withHigh ∧
    withHigh.Adds
      ((if found.view.node.relaxed then
          (found.view.draftWithInputs found.view.node.name found.data low.output high.output).relax
        else found.view.draftWithInputs found.view.node.name found.data low.output high.output)
        |>.withPrecision? found.view.node.precision)
      [found.data, low.output, high.output, found.view.outputLow, found.view.outputHigh] fused
      withFused ∧
    withFused.Replaces id fused after

/-- A fake quantization with other output limits has taken the place of one and of the
operation after it. -/
def FusesOutputLimits (before : Graph α) (id : NodeId) (op : BinaryOp) (after : Graph α) : Prop :=
  ∃ found low high fused withLow withHigh withFused, before.outputFusion id op = .ok (some found) ∧
    before.Adds ((Op.constant found.low).draft "") [] low withLow ∧
    withLow.Adds ((Op.constant found.high).draft "") [] high withHigh ∧
    withHigh.Adds
      ((found.view.draftWithOutputs found.view.node.name low high).withPrecision found.precision)
      [found.view.data, found.view.inputLow, found.view.inputHigh, low.output, high.output] fused
      withFused ∧
    withFused.Replaces id fused after

end Graph

/-! ## Rules -/

namespace GraphRevision

open QuantGraph.Graph Revision

variable [Scalar α] {start graph : Graph α} {id : NodeId}

theorem ensures_fuseIntoInputLimits (wellFormed : graph.WellFormed)
    (evolves : start.Evolves graph) :
    (fuseIntoInputLimits id).Ensures graph start.Evolves fun changed after =>
      start.Evolves after ∧
        if changed then graph.FusesInputLimits id after else after = graph := by
  unfold fuseIntoInputLimits
  rw [ensures_bind, ensures_get, ensures_bind]
  refine ensures_ofExcept evolves fun outcome present => ?_
  cases outcome with
  | none => exact ⟨evolves, rfl⟩
  | some found =>
      obtain ⟨_, _, operand, isView, _, _, isOperand, _, _, data_eq, _⟩ := inputFusion_eq_ok present
      have around := supports_fakeQuantizeNode wellFormed isView
      have data : graph.Independent id found.data.node :=
        data_eq ▸ (around.independent found.view.data.node (by simp)).of_reads
          (reads_data_of_constantOperand? isOperand)
      have supports : graph.Supports id [found.data.node, found.view.outputLow.node,
          found.view.outputHigh.node] :=
        ⟨wellFormed, around.live, by
          simp [data, around.independent found.view.outputLow.node,
            around.independent found.view.outputHigh.node]⟩
      dsimp only
      rw [ensures_bind]
      refine ensures_addConstantOn supports evolves fun low withLow addsLow supports evolves => ?_
      rw [ensures_bind]
      refine ensures_addConstantOn supports evolves fun high withHigh addsHigh supports
        evolves => ?_
      rw [ensures_bind]
      refine ensures_addOn [found.data, low.output, high.output, found.view.outputLow,
          found.view.outputHigh] supports evolves ⟨?_, by simp⟩ ?_ (by simp [NodeId.output])
        fun fused withFused addsFused supports evolves => ?_
      · cases found.view.node.relaxed <;> cases found.view.node.precision <;> rfl
      · cases found.view.node.relaxed <;> cases found.view.node.precision <;> rfl
      rw [ensures_bind]
      refine ensures_replaceOn supports evolves fun after replaces evolves => ?_
      exact ⟨evolves, found, low, high, fused, withLow, withHigh, withFused, present, addsLow,
        addsHigh, addsFused, replaces⟩

theorem ensures_fuseIntoOutputLimits {op : BinaryOp} (wellFormed : graph.WellFormed)
    (evolves : start.Evolves graph) :
    (fuseIntoOutputLimits id op).Ensures graph start.Evolves fun changed after =>
      start.Evolves after ∧
        if changed then graph.FusesOutputLimits id op after else after = graph := by
  unfold fuseIntoOutputLimits
  rw [ensures_bind, ensures_get, ensures_bind]
  refine ensures_ofExcept evolves fun outcome present => ?_
  cases outcome with
  | none => exact ⟨evolves, rfl⟩
  | some found =>
      obtain ⟨operand, quantizer, _, _, isOperand, isQuantizer, _, isView, _⟩ :=
        outputFusion_eq_ok present
      have reads_data := reads_data_of_constantOperand? isOperand
      have data := independent_of_reads wellFormed reads_data
      have quantizer_independent : graph.Independent id quantizer := by
        rcases quantizerBehind?_eq_some isQuantizer with rfl | ⟨_, _, read⟩
        · exact data
        · exact data.of_reads (reads_of_inputNode? read)
      have supports : graph.Supports id [found.view.data.node, found.view.inputLow.node,
          found.view.inputHigh.node] := by
        refine ⟨wellFormed, live_of_reads wellFormed reads_data, fun node member => ?_⟩
        have listed : node ∈ (graph.inputs quantizer).map Output.node := by
          rw [(fakeQuantizeNode_eq_ok isView).2.2]
          exact List.mem_append_left [found.view.outputLow.node, found.view.outputHigh.node] member
        obtain ⟨output, read, rfl⟩ := List.mem_map.mp listed
        exact quantizer_independent.of_reads (reads_of_mem_inputs read)
      dsimp only
      rw [ensures_bind]
      refine ensures_addConstantOn supports evolves fun low withLow addsLow supports evolves => ?_
      rw [ensures_bind]
      refine ensures_addConstantOn supports evolves fun high withHigh addsHigh supports
        evolves => ?_
      rw [ensures_bind]
      refine ensures_addOn [found.view.data, found.view.inputLow, found.view.inputHigh, low.output,
          high.output] supports evolves ⟨rfl, by simp⟩ rfl (by simp [NodeId.output])
        fun fused withFused addsFused supports evolves => ?_
      rw [ensures_bind]
      refine ensures_replaceOn supports evolves fun after replaces evolves => ?_
      exact ⟨evolves, found, low, high, fused, withLow, withHigh, withFused, present, addsLow,
        addsHigh, addsFused, replaces⟩

theorem ensures_fuseMultiplyIntoLimits (wellFormed : graph.WellFormed)
    (evolves : start.Evolves graph) :
    (fuseMultiplyIntoLimits id).Ensures graph start.Evolves fun changed after =>
      start.Evolves after ∧
        if changed then graph.FusesOutputLimits id .multiply after else after = graph :=
  ensures_fuseIntoOutputLimits wellFormed evolves

theorem ensures_fuseSubtractIntoLimits (wellFormed : graph.WellFormed)
    (evolves : start.Evolves graph) :
    (fuseSubtractIntoLimits id).Ensures graph start.Evolves fun changed after =>
      start.Evolves after ∧
        if changed then graph.FusesOutputLimits id .subtract after ∧
          ∃ operand, graph.constantOperand? id = some operand ∧ operand.slot = 0
        else after = graph := by
  unfold fuseSubtractIntoLimits
  rw [ensures_bind, ensures_get]
  split
  case h_1 operand isOperand =>
    split
    case isTrue slot =>
      refine (ensures_fuseIntoOutputLimits wellFormed evolves).mono (fun _ bad => bad) ?_
      rintro changed after ⟨evolves, outcome⟩
      refine ⟨evolves, ?_⟩
      cases changed with
      | false => exact outcome
      | true => exact ⟨outcome, operand, isOperand, slot⟩
    case isFalse => exact ⟨evolves, rfl⟩
  case h_2 => exact ⟨evolves, rfl⟩

end GraphRevision

end QuantGraph
