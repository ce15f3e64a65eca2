import Mathlib
import QuantGraph.Proofs.Rules.RegroupedValues

/-! The values behind a fake quantization that takes in the operation after it. Where nothing is
rounded to integers on the way, or where there are only integers to round, the operation may be
applied to the output limits instead. -/

namespace QuantGraph

/-- Between integers that are as many steps apart as there are, every level is an integer. -/
theorem Interval.round_project {levels : Nat} (enough : 2 ≤ levels) {interval : Interval Rat}
    (integral : interval.outputLow.den = 1)
    (width : interval.outputHigh - interval.outputLow = (levels - 1 : Nat)) (value : Rat) :
    Scalar.round (interval.project levels value) = interval.project levels value := by
  obtain ⟨step, _, image⟩ := exists_step enough interval.inputLow interval.inputHigh value
  have positive : (0 : Rat) < (levels - 1 : Nat) := by exact_mod_cast Nat.sub_pos_of_lt enough
  have level : interval.project levels value = ((interval.outputLow.num + step : Int) : Rat) := by
    refine (image interval.outputLow interval.outputHigh).trans ?_
    rw [width, div_mul_cancel₀ _ positive.ne']
    push_cast
    rw [Rat.coe_int_num_of_den_eq_one integral]
  rw [level]
  exact Exact.round_intCast _

namespace Graph

/-- The lower output limits of a fake quantization are integers, and the upper ones lie as many
steps above them as there are between the levels. -/
def CountsLevels (graph : Graph Rat) (view : FakeQuantizeNode Rat) : Prop :=
  ∀ low ∈ graph.constant? view.outputLow.node, ∀ high ∈ graph.constant? view.outputHigh.node,
    (∀ value ∈ low.toList, value.den = 1) ∧
      ∀ width ∈ (Tensor.combine .subtract high low).toOption, ∀ value ∈ width.toList,
        value = (view.levels - 1 : Nat)

instance (graph : Graph Rat) (view : FakeQuantizeNode Rat) : Decidable (graph.CountsLevels view) :=
  inferInstanceAs (Decidable (∀ low ∈ graph.constant? view.outputLow.node,
    ∀ high ∈ graph.constant? view.outputHigh.node, (∀ value ∈ low.toList, value.den = 1) ∧
      ∀ width ∈ (Tensor.combine .subtract high low).toOption, ∀ value ∈ width.toList,
        value = (view.levels - 1 : Nat)))

/-- The fake quantization behind which an operation stands gives real numbers, or integers in any
case. -/
def QuantizesExactly (graph : Graph Rat) (id : NodeId) : Prop :=
  ∀ operand ∈ graph.constantOperand? id, ∀ quantizer ∈ graph.quantizerBehind? operand,
    ∀ view ∈ (graph.fakeQuantizeNode quantizer).toOption,
      view.node.elementType.isReal = true ∨ graph.CountsLevels view

instance (graph : Graph Rat) (id : NodeId) : Decidable (graph.QuantizesExactly id) :=
  inferInstanceAs (Decidable (∀ operand ∈ graph.constantOperand? id,
    ∀ quantizer ∈ graph.quantizerBehind? operand,
      ∀ view ∈ (graph.fakeQuantizeNode quantizer).toOption,
        view.node.elementType.isReal = true ∨ graph.CountsLevels view))

section Exact

variable {graph : Graph Rat} {view : FakeQuantizeNode Rat}

theorem quantizesUnrounded_of_countsLevels (enough : 2 ≤ view.levels)
    (counts : graph.CountsLevels view) : graph.QuantizesUnrounded view := by
  intro low high isLow isHigh limits datum shape low_eq high_eq common addressable
  obtain ⟨integral, widths⟩ := counts low isLow high isHigh
  obtain ⟨dataStretches, limitsStretch, _⟩ := LimitArrays.commonShape_eq_ok.mp common
  obtain ⟨_, _, lowStretches, highStretches⟩ := LimitArrays.forall_mem_toList.mp limitsStretch
  rw [low_eq] at lowStretches
  rw [high_eq] at highStretches
  obtain ⟨width, isWidth, _, _, widthStretches, each⟩ :=
    NDArray.exists_read_combine .subtract highStretches lowStretches addressable
  have isTensor : Tensor.combine .subtract high low = .ok ⟨high.elementType, width⟩ :=
    Outcome.map_eq_ok.mpr ⟨width, isWidth, rfl⟩
  have counted := widths ⟨high.elementType, width⟩ (by rw [isTensor]; rfl)
  generalize view.node.elementType.isIntegral = rounding
  refine NDArray.ext_get rfl fun index inside => ?_
  have holds : shape.Holds index := inside
  have inside' : (limits.quantize view.levels false datum shape).shape.Holds index := holds
  have isInteger : (limits.readInterval index).outputLow.den = 1 := by
    change (limits.outputLow.read index).den = 1
    rw [low_eq]
    exact integral _ (NDArray.read_mem_toList lowStretches holds)
  have isWide : (limits.readInterval index).outputHigh - (limits.readInterval index).outputLow =
      (view.levels - 1 : Nat) := by
    change limits.outputHigh.read index - limits.outputLow.read index = _
    rw [low_eq, high_eq]
    exact (each index holds).symm.trans
      (counted _ (NDArray.read_mem_toList widthStretches holds))
  have settled := Interval.round_project enough isInteger isWide (datum.read index)
  calc (limits.quantize view.levels rounding datum shape).get index
      = (limits.readInterval index).quantize view.levels rounding (datum.read index) :=
        (NDArray.read_eq_get inside).symm.trans (LimitArrays.read_quantize dataStretches
          limitsStretch (Shape.stretchesTo_refl _) holds)
    _ = (limits.readInterval index).quantize view.levels false (datum.read index) := by
        cases rounding with
        | false => rfl
        | true => exact settled
    _ = (limits.quantize view.levels false datum shape).get index :=
        (LimitArrays.read_quantize dataStretches limitsStretch (Shape.stretchesTo_refl _)
          holds).symm.trans (NDArray.read_eq_get inside')

end Exact

end Graph

namespace Transformation

open QuantGraph.Graph

section Values

variable {registry : Registry} {policy : Policy} {id : NodeId} {rule : Rule} {op : BinaryOp}
  {state after : RunState Rat} {feeds values : Assignment Rat}

/-- A fake quantization that takes in a product or a difference gives what the operation gave, where
neither a Convert in between nor the operation gives integers by its type, and where the fake
quantization gives real numbers or has nothing to round. -/
theorem exists_givesPlace_of_outputFusion (member : (rule, op) ∈ fusions)
    (wellFormed : state.graph.WellFormed) (kind : state.graph.kind? id = some rule.matchedKind)
    (converts : state.graph.ConvertsToReal id)
    (real : ∀ type ∈ state.graph.elementType? id, type.isReal = true)
    (exactly : state.graph.QuantizesExactly id)
    (evaluated : state.graph.evaluate feeds = .ok values)
    (ran : (Transformation.apply ⟨rule, policy⟩ registry id).runOn state = (.ok true, after)) :
    ∃ operand quantizer view fused, state.graph.constantOperand? id = some operand ∧
      state.graph.quantizerBehind? operand = some quantizer ∧
      state.graph.fakeQuantizeNode quantizer = .ok view ∧
      state.graph.GivesPlace id view.data.node fused after.graph feeds values := by
  obtain ⟨taken, isOp, ordered⟩ := fusesOutputLimits_of_runOn member wellFormed kind ran
  obtain ⟨operand, quantizer, found, low, high, fused, withLow, withHigh, withFused, fuses⟩ :=
    taken.exists_fuses
  have isView := fuses.isView
  obtain ⟨result, isResult, _⟩ := evaluateNode_of_evaluate evaluated (contains_of_kind? kind)
  obtain ⟨handed, hasHanded, combined⟩ := exists_combine (wellFormed.exact id) isOp
    fuses.isOperand (ordered operand fuses.isOperand) (hasValue_of_evaluate evaluated isResult)
  obtain ⟨quantized, hasQuantized, handsOn⟩ := exists_handsOn fuses.isQuantizer hasHanded
  have same : handed = quantized := by
    rcases handsOn with ⟨_, same⟩ | ⟨destination, isConvert, same⟩
    · exact same
    · rw [same, map_convert_of_isReal (converts operand fuses.isOperand destination
        (by rw [isConvert]; rfl))]
  have enough := hasQuantized.two_le isView
  have unrounded : state.graph.QuantizesUnrounded found.view := by
    rcases exactly operand fuses.isOperand quantizer fuses.isQuantizer found.view
      (isView ▸ rfl) with isReal | counts
    · exact quantizesUnrounded_of_isReal isReal
    · exact quantizesUnrounded_of_countsLevels enough counts
  have hasFused := fuses.hasValue_added wellFormed unrounded
    (fun _ enough => Interval.movesLevels op enough) hasQuantized (same ▸ combined)
  rw [ElementType.isIntegral, real _ fuses.isType] at hasFused
  obtain ⟨datum, _, hasDatum, _⟩ := hasQuantized.exists_limits isView enough
  exact ⟨operand, quantizer, found.view, fused, fuses.isOperand, fuses.isQuantizer, isView,
    fuses.refits.givesPlace wellFormed ⟨found.view.data, by simp, rfl⟩ hasDatum hasFused evaluated
      isResult⟩

end Values

/-- Two numbers, quantized to the integers of a byte, converted and scaled, one of them by zero. The
scales stand on the left, and so the product is real. -/
def scaledBytes : List (Draft Rat) :=
  let low := (NodeId.mk 1).output
  let scale : NDArray Rat := { shape := [2], data := #[-1 / 2, 0], size_data := rfl }
  [{ op := .parameter, name := "x", declared := some { elementType := .f32, shape := [2] } },
    (Op.constant (.scalar .f32 0)).draft "low",
    (Op.constant (.scalar .f32 (255 / 2))).draft "inputHigh",
    (Op.constant (.scalar .f32 255)).draft "outputHigh",
    (((Op.fakeQuantize 256).draft "quantized").readOutputs
      [(NodeId.mk 0).output, low, (NodeId.mk 2).output, low,
        (NodeId.mk 3).output]).withPrecision .u8,
    ((Op.convert .f32).draft "converted").readAll [NodeId.mk 4],
    (Op.constant ⟨.f32, scale⟩).draft "scale",
    (Op.multiply.draft "scaled").readAll [NodeId.mk 6, NodeId.mk 5],
    (Op.result.draft "output").readAll [NodeId.mk 7]]

/-- The rounding goes with the byte, but there was nothing to round. -/
theorem exists_givesPlace_scaledBytes :
    ∃ (graph : Graph Rat) (feeds values : Assignment Rat) (after : RunState Rat),
      Graph.empty.addAll scaledBytes = .ok graph ∧
      (Rule.fuseMultiplyToFakeQuantize, BinaryOp.multiply) ∈ fusions ∧ graph.WellFormed ∧
      graph.kind? (NodeId.mk 7) = some Rule.fuseMultiplyToFakeQuantize.matchedKind ∧
      graph.ConvertsToReal (NodeId.mk 7) ∧
      (∀ type ∈ graph.elementType? (NodeId.mk 7), type.isReal = true) ∧
      graph.QuantizesExactly (NodeId.mk 7) ∧ graph.evaluate feeds = .ok values ∧
      (Transformation.apply ⟨.fuseMultiplyToFakeQuantize, {}⟩ (.all {}) (NodeId.mk 7)).runOn
        (.ofGraph graph) = (.ok true, after) ∧
      ∃ operand quantizer view fused, graph.constantOperand? (NodeId.mk 7) = some operand ∧
        graph.quantizerBehind? operand = some quantizer ∧
        graph.fakeQuantizeNode quantizer = .ok view ∧
        graph.GivesPlace (NodeId.mk 7) view.data.node fused after.graph feeds values := by
  let feeds : Assignment Rat := Assignment.none.set (NodeId.mk 0) (.replicate [2] (3 / 4))
  obtain ⟨graph, values, after, added, wellFormed, kind, ⟨converts, real, exactly⟩, evaluated, _,
      ran⟩ :=
    @exists_run_of_values scaledBytes (NodeId.mk 7) .fuseMultiplyToFakeQuantize feeds
      (fun graph => graph.ConvertsToReal (NodeId.mk 7) ∧
        (∀ type ∈ graph.elementType? (NodeId.mk 7), type.isReal = true) ∧
        graph.QuantizesExactly (NodeId.mk 7)) _ (by decide) (by decide) (by decide +kernel)
  have member : (Rule.fuseMultiplyToFakeQuantize, BinaryOp.multiply) ∈ fusions := by decide
  exact ⟨graph, feeds, values, after, added, member, wellFormed, kind, converts, real, exactly,
    evaluated, ran, exists_givesPlace_of_outputFusion member wellFormed kind converts real exactly
      evaluated ran⟩

/-- An operation that reads a parameter and a quantized one on one slot and a constant on the next. -/
def crowdedLevels (op : Op Rat) : List (Draft Rat) :=
  let real (name : String) : Draft Rat :=
    { op := .parameter, name := name, declared := some { elementType := .f32, shape := [1] } }
  let low := (NodeId.mk 3).output
  let high := (NodeId.mk 4).output
  [real "x", real "y", (Op.constant (.scalar .f32 2)).draft "two",
    (Op.constant (.scalar .f32 0)).draft "low", (Op.constant (.scalar .f32 255)).draft "high",
    ((Op.fakeQuantize 256).draft "quantized").readOutputs
      [(NodeId.mk 0).output, low, high, low, high],
    (((op.draft "moved").input (NodeId.mk 1).output 0).input (NodeId.mk 5).output 0).input
      (NodeId.mk 2).output 1,
    (Op.result.draft "output").readAll [NodeId.mk 6]]

/-- A quantized number of which a constant is taken away. -/
def shiftedLevels : List (Draft Rat) :=
  let low := (NodeId.mk 1).output
  let high := (NodeId.mk 2).output
  [{ op := .parameter, name := "x", declared := some { elementType := .f32, shape := [1] } },
    (Op.constant (.scalar .f32 0)).draft "low", (Op.constant (.scalar .f32 255)).draft "high",
    ((Op.fakeQuantize 256).draft "quantized").readOutputs
      [(NodeId.mk 0).output, low, high, low, high],
    (Op.constant (.scalar .f32 2)).draft "two",
    (Op.subtract.draft "shifted").readAll [NodeId.mk 3, NodeId.mk 4],
    (Op.result.draft "output").readAll [NodeId.mk 5]]

set_option synthInstance.maxSize 512 in
/-- Where a node reads two outputs on one slot, the constant that is found is not what it computes
with. A rule that is tried on a node of another kind takes it for one of its own. -/
theorem altersResults_crowdedLevels_and_shiftedLevels :
    AltersResults (crowdedLevels .multiply) (NodeId.mk 6) .fuseMultiplyToFakeQuantize
        (fun graph => graph.kind? (NodeId.mk 6) = some .multiply ∧
          graph.ConvertsToReal (NodeId.mk 6) ∧
          (∀ type ∈ graph.elementType? (NodeId.mk 6), type.isReal = true) ∧
          graph.QuantizesExactly (NodeId.mk 6))
        (crowdedFeeds [1]) [[5]] [[2]] ∧
      AltersResults (crowdedLevels .subtract) (NodeId.mk 6) .fuseSubtractToFakeQuantize
        (fun graph => graph.kind? (NodeId.mk 6) = some .subtract ∧
          graph.ConvertsToReal (NodeId.mk 6) ∧
          (∀ type ∈ graph.elementType? (NodeId.mk 6), type.isReal = true) ∧
          graph.QuantizesExactly (NodeId.mk 6))
        (crowdedFeeds [1]) [[-4]] [[-1]] ∧
      AltersResults shiftedLevels (NodeId.mk 5) .fuseMultiplyToFakeQuantize
        (fun graph => graph.WellFormed ∧ graph.kind? (NodeId.mk 5) = some .subtract ∧
          graph.ConvertsToReal (NodeId.mk 5) ∧
          (∀ type ∈ graph.elementType? (NodeId.mk 5), type.isReal = true) ∧
          graph.QuantizesExactly (NodeId.mk 5))
        (Assignment.none.set (NodeId.mk 0) (.replicate [1] 1)) [[-1]] [[2]] := by
  refine ⟨?_, ?_, ?_⟩
  · exact altersResults_of_values (by decide +kernel) (by decide) (demanded_of_values (by decide +kernel))
  · exact altersResults_of_values (by decide +kernel) (by decide) (demanded_of_values (by decide +kernel))
  · exact altersResults_of_values (by decide +kernel) (by decide)
      (wellFormed_and_demanded_of_values (by decide) (by decide +kernel))

end Transformation

end QuantGraph
