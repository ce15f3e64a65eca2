import QuantGraph.Proofs.Quantization.Scaling

/-! Folding counts the elements of a limit and does not look at their axis. A limit with as many
elements as the leading axis has positions is applied along that axis, whichever one it lies
on; evaluation applies it along its own. -/

namespace QuantGraph

namespace FoldLimits

variable [Scalar α] {limits : FoldLimits α} {data : Tensor α} {levels : Nat} {rounding : Bool}
  {name : String} {type : ElementType}

/-- The first limit that has neither one element nor one for each channel. -/
def miscounted? (limits : FoldLimits α) (channels : Nat) : Option LimitName :=
  [LimitName.inputLow, .inputHigh, .outputLow, .outputHigh].find? fun limit =>
    !decide ((limits.get limit).IsPerChannel channels)

omit [Scalar α] in
theorem miscounted?_eq_none_iff {channels : Nat} :
    limits.miscounted? channels = none ↔
      ∀ limit, (limits.get limit).IsPerChannel channels := by
  unfold miscounted?
  rw [List.find?_eq_none]
  constructor
  · intro none limit
    have counted := none limit (by cases limit <;> decide)
    simpa using counted
  · intro counted limit _
    simpa using counted limit

omit [Scalar α] in
theorem values_eq_error {channels : Nat} {limit : LimitName}
    (counted : ¬ (limits.get limit).IsPerChannel channels) :
    limits.values name channels limit =
      .error (.limitCardinality name limit (limits.get limit).size channels) :=
  if_pos (not_or.mp counted)

/-- What stops folding is the first limit with another number of elements. -/
theorem scale_eq_error {limit : LimitName} (enough : 2 ≤ levels) (axes : data.shape ≠ [])
    (rank : data.shape.length ≤ maxRank) (found : limits.miscounted? (data.shape.headD 0) = some limit) :
    limits.scale name data levels type rounding =
      .error (.limitCardinality name limit (limits.get limit).size (data.shape.headD 0)) := by
  have ranked : ¬ (data.shape.length = 0 ∨ maxRank < data.shape.length) :=
    not_or.mpr ⟨fun empty => axes (List.eq_nil_of_length_eq_zero empty), Nat.not_lt.mpr rank⟩
  unfold scale
  simp only [if_neg (Nat.not_lt_of_le enough), if_neg ranked]
  unfold miscounted? at found
  generalize data.shape.headD 0 = channels at found ⊢
  have list {limit : LimitName} (counted : (limits.get limit).IsPerChannel channels) :
      limits.values name channels limit = .ok (limits.get limit).toList :=
    values_eq_ok_iff.mpr ⟨counted, rfl⟩
  by_cases inputLow : (limits.get .inputLow).IsPerChannel channels
  · rw [list inputLow]
    by_cases inputHigh : (limits.get .inputHigh).IsPerChannel channels
    · rw [list inputHigh]
      by_cases outputLow : (limits.get .outputLow).IsPerChannel channels
      · rw [list outputLow]
        by_cases outputHigh : (limits.get .outputHigh).IsPerChannel channels
        · simp [inputLow, inputHigh, outputLow, outputHigh] at found
        · have first : LimitName.outputHigh = limit := by
            simpa [inputLow, inputHigh, outputLow, outputHigh] using found
          rw [values_eq_error outputHigh, first]
          rfl
      · have first : LimitName.outputLow = limit := by
          simpa [inputLow, inputHigh, outputLow] using found
        rw [values_eq_error outputLow, first]
        rfl
    · have first : LimitName.inputHigh = limit := by simpa [inputLow, inputHigh] using found
      rw [values_eq_error inputHigh, first]
      rfl
  · have first : LimitName.inputLow = limit := by simpa [inputLow] using found
    rw [values_eq_error inputLow, first]
    rfl

end FoldLimits

namespace Graph

variable [Scalar α] {graph : Graph α} {feeds values : Assignment α} {id : NodeId} {node : Node α}
  {levels : Nat} {data : Tensor α} {limits : FoldLimits α}

theorem foldFakeQuantize_eq (found : graph.node? id = some node)
    (isQuantize : node.op = .fakeQuantize levels)
    (isData : (graph.inputNode? id 0).bind graph.constant? = some data)
    (areLimits : ∀ limit, graph.limit? id limit = some (limits.get limit)) :
    graph.foldFakeQuantize id none =
      (limits.apply node.name data levels node.elementType node.elementType.isIntegral).map some := by
  unfold foldFakeQuantize
  rw [found]
  simp only [isQuantize, Op.levels?, isData, areLimits]
  rfl

/-- Evaluation quantizes constant data with the limits for each position. -/
theorem value_of_constants (found : graph.node? id = some node)
    (isQuantize : node.op = .fakeQuantize levels) (ordered : graph.ReadsInOrder id 5)
    (isData : (graph.inputNode? id 0).bind graph.constant? = some data)
    (areLimits : ∀ limit, graph.limit? id limit = some (limits.get limit)) (enough : 2 ≤ levels)
    (stretch : ∀ limit, (limits.get limit).StretchesTo data.shape)
    (evaluated : graph.evaluate feeds = .ok values) :
    values id = some (limits.arrays.quantize levels node.elementType.isIntegral data.values
      data.shape) := by
  obtain ⟨value, isValue, computed⟩ :=
    evaluateNode_of_evaluate evaluated (contains_of_node? found)
  obtain ⟨_, inputs, present, carries, computed⟩ := evaluateNode_eq_ok.mp computed
  cases Option.some.inj (found.symm.trans present)
  have limit (name : LimitName) (bound : name.slot < 5) :=
    carries.constant evaluated (ordered name.slot bound) (areLimits name)
  have stretches : ∀ limit ∈ limits.arrays.toList, limit.shape.StretchesTo data.values.shape := by
    simpa [FoldLimits.arrays, LimitArrays.toList] using
      ⟨stretch .inputLow, stretch .inputHigh, stretch .outputLow, stretch .outputHigh⟩
  rw [isQuantize, Op.evaluate_fakeQuantize limits.arrays enough
    (carries.constant evaluated (ordered 0 (by omega)) isData) (limit .inputLow (by decide))
    (limit .inputHigh (by decide)) (limit .outputLow (by decide)) (limit .outputHigh (by decide))
    (Op.commonShape_eq stretches)] at computed
  split at computed
  case isTrue => exact isValue.trans (congrArg some (Except.ok.inj computed).symm)
  case isFalse => cases computed

/-- Quantizing by leading coordinate is quantizing by position just where the two find limits
that move the element to the same value. -/
theorem quantize_eq_channelwise_iff {rounding : Bool} :
    limits.arrays.quantize levels rounding data.values data.shape =
        limits.channelwise data.values levels rounding ↔
      ∀ index, data.shape.Holds index →
        (limits.arrays.intervalAt index).quantize levels rounding (data.values.get index) =
          (limits.channelInterval (index.headD 0)).quantize levels rounding
            (data.values.get index) := by
  have byPosition {index : Index} (holds : data.values.shape.Holds index) :
      (limits.arrays.quantize levels rounding data.values data.shape).get index =
        (limits.arrays.intervalAt index).quantize levels rounding (data.values.get index) := by
    have inside : data.shape.Holds index := holds
    rw [LimitArrays.quantize, NDArray.get_ofFn inside, holds.stretchedIndex_self]
  have byChannel {index : Index} (holds : data.values.shape.Holds index) :
      (limits.channelwise data.values levels rounding).get index =
        (limits.channelInterval (index.headD 0)).quantize levels rounding
          (data.values.get index) := by
    rw [FoldLimits.channelwise, NDArray.get_ofFn holds]
  constructor
  · intro equal index holds
    rw [← byPosition holds, equal, byChannel holds]
  · intro same
    refine NDArray.ext_get rfl fun index holds => ?_
    rw [byPosition holds, same index holds, byChannel holds]

/-- Along the leading axis, the limits for a position are those for its leading coordinate. -/
theorem intervalAt_eq_channelInterval (spans : ∀ limit, (limits.get limit).Spans data.shape)
    (axes : data.shape ≠ []) {index : Index} (holds : data.shape.Holds index) :
    limits.arrays.intervalAt index = limits.channelInterval (index.headD 0) := by
  obtain ⟨extent, rest, shape_eq⟩ := List.exists_cons_of_ne_nil axes
  rw [shape_eq] at spans holds
  cases holds with
  | cons below tail => exact FoldLimits.intervalAt_eq spans (List.Forall₂.cons below tail)

/-- Folding stops at a limit with another number of elements than one and the leading axis has
positions. Otherwise it agrees with evaluation wherever the element of a limit that has the
number of the leading coordinate quantizes as the element for the position does. The two agree
unless a limit along another axis has as many elements as the leading axis has positions. -/
theorem foldFakeQuantize_along_axes (found : graph.node? id = some node)
    (isQuantize : node.op = .fakeQuantize levels) (ordered : graph.ReadsInOrder id 5)
    (isData : (graph.inputNode? id 0).bind graph.constant? = some data)
    (areLimits : ∀ limit, graph.limit? id limit = some (limits.get limit)) (enough : 2 ≤ levels)
    (axes : data.shape ≠ []) (rank : data.shape.length ≤ FoldLimits.maxRank)
    (stretch : ∀ limit, (limits.get limit).StretchesTo data.shape)
    (scaled : limits.isSignedShift levels = false) :
    (∀ limit, limits.miscounted? (data.shape.headD 0) = some limit →
      graph.foldFakeQuantize id none = .error
        (.limitCardinality node.name limit (limits.get limit).size (data.shape.headD 0))) ∧
    (limits.miscounted? (data.shape.headD 0) = none →
      ∃ tensor, graph.foldFakeQuantize id none = .ok (some tensor) ∧
        tensor.shape = data.shape ∧
        ∀ feeds values, graph.evaluate feeds = .ok values →
          (values id = some tensor.values ↔ ∀ index, data.shape.Holds index →
            (limits.arrays.intervalAt index).quantize levels node.elementType.isIntegral
                (data.values.get index) =
              (limits.channelInterval (index.headD 0)).quantize levels
                node.elementType.isIntegral (data.values.get index))) ∧
    ((∀ limit, (limits.get limit).Spans data.shape ∨
        ¬ (limits.get limit).IsPerChannel (data.shape.headD 0)) →
      (∃ error, graph.foldFakeQuantize id none = .error error) ∨
      ∃ tensor, graph.foldFakeQuantize id none = .ok (some tensor) ∧
        ∀ feeds values, graph.evaluate feeds = .ok values → values id = some tensor.values) := by
  have stops {limit : LimitName} (first : limits.miscounted? (data.shape.headD 0) = some limit) :
      graph.foldFakeQuantize id none = .error
        (.limitCardinality node.name limit (limits.get limit).size (data.shape.headD 0)) := by
    rw [foldFakeQuantize_eq found isQuantize isData areLimits,
      FoldLimits.apply_of_not_isSignedShift scaled, FoldLimits.scale_eq_error enough axes rank first]
    rfl
  have folds (counted : limits.miscounted? (data.shape.headD 0) = none) :
      graph.foldFakeQuantize id none = .ok (some
        { elementType := node.elementType
          values := limits.channelwise data.values levels node.elementType.isIntegral }) := by
    rw [foldFakeQuantize_eq found isQuantize isData areLimits,
      FoldLimits.apply_of_not_isSignedShift scaled]
    exact Outcome.map_eq_ok.mpr ⟨_, FoldLimits.scale_eq_ok.mpr ⟨enough, ⟨axes, rank⟩,
      FoldLimits.miscounted?_eq_none_iff.mp counted, rfl⟩, rfl⟩
  have value {feeds values : Assignment α} (evaluated : graph.evaluate feeds = .ok values) :=
    value_of_constants found isQuantize ordered isData areLimits enough stretch evaluated
  refine ⟨fun limit first => stops first, fun counted => ?_, fun apart => ?_⟩
  · refine ⟨_, folds counted, rfl, fun feeds values evaluated => ?_⟩
    rw [value evaluated, Option.some_inj]
    exact quantize_eq_channelwise_iff
  · cases counted : limits.miscounted? (data.shape.headD 0) with
    | some limit => exact Or.inl ⟨_, stops counted⟩
    | none =>
        have spans (limit : LimitName) : (limits.get limit).Spans data.shape :=
          (apart limit).resolve_right
            (not_not.mpr (FoldLimits.miscounted?_eq_none_iff.mp counted limit))
        refine Or.inr ⟨_, folds counted, fun feeds values evaluated => ?_⟩
        rw [value evaluated, Option.some_inj]
        refine quantize_eq_channelwise_iff.mpr fun index holds => ?_
        rw [intervalAt_eq_channelInterval spans axes holds]

/-- Two rows of two values under some limits. -/
def rowsWithin (limits : FoldLimits Rat) : List (Draft Rat) :=
  [(Op.constant rows).draft "rows", (Op.constant limits.inputLow).draft "input low",
    (Op.constant limits.inputHigh).draft "input high",
    (Op.constant limits.outputLow).draft "output low",
    (Op.constant limits.outputHigh).draft "output high",
    [0, 1, 2, 3, 4].foldl (fun draft slot =>
      draft.input (NodeId.mk slot).output (UInt8.ofNat slot)) ((Op.fakeQuantize 256).draft "quantized")]

theorem foldFakeQuantize_along_axes_rows :
    ∃ graph node tensor, Graph.empty.addAll (rowsWithin rowLimits) = .ok graph ∧
      graph.node? (NodeId.mk 5) = some node ∧ node.op = .fakeQuantize 256 ∧
      graph.ReadsInOrder (NodeId.mk 5) 5 ∧
      (graph.inputNode? (NodeId.mk 5) 0).bind graph.constant? = some rows ∧
      (∀ limit, graph.limit? (NodeId.mk 5) limit = some (rowLimits.get limit)) ∧ 2 ≤ 256 ∧
      rows.shape ≠ [] ∧ rows.shape.length ≤ FoldLimits.maxRank ∧
      (∀ limit, (rowLimits.get limit).StretchesTo rows.shape) ∧
      rowLimits.isSignedShift 256 = false ∧ rowLimits.miscounted? (rows.shape.headD 0) = none ∧
      graph.foldFakeQuantize (NodeId.mk 5) none = .ok (some tensor) ∧ tensor.shape = rows.shape := by
  have made : (Graph.empty.addAll (rowsWithin rowLimits)).map (fun graph =>
      (graph.op? (NodeId.mk 5), decide (graph.ReadsInOrder (NodeId.mk 5) 5),
        (graph.inputNode? (NodeId.mk 5) 0).bind graph.constant?,
        [LimitName.inputLow, .inputHigh, .outputLow, .outputHigh].map fun limit =>
          graph.limit? (NodeId.mk 5) limit)) =
        .ok (some (.fakeQuantize 256), true, some rows,
          [some rowLimits.inputLow, some rowLimits.inputHigh, some rowLimits.outputLow,
            some rowLimits.outputHigh]) := by cbv
  obtain ⟨graph, added, facts⟩ := Outcome.map_eq_ok.mp made
  simp only [Prod.mk.injEq, decide_eq_true_eq, List.map_cons, List.cons.injEq] at facts
  obtain ⟨isOp, ordered, isData, inputLow, inputHigh, outputLow, outputHigh, _⟩ := facts
  obtain ⟨node, found, isQuantize⟩ := Option.map_eq_some_iff.mp isOp
  have areLimits (limit : LimitName) :
      graph.limit? (NodeId.mk 5) limit = some (rowLimits.get limit) := by
    cases limit <;> assumption
  have stretch (limit : LimitName) : (rowLimits.get limit).StretchesTo rows.shape := by
    cases limit <;> rfl
  have scaled : rowLimits.isSignedShift 256 = false := by cbv
  have counted : rowLimits.miscounted? (rows.shape.headD 0) = none := by decide
  obtain ⟨tensor, folded, shape, _⟩ := (foldFakeQuantize_along_axes found isQuantize ordered isData
    areLimits (by decide) (by decide) (by decide) stretch scaled).2.1 counted
  exact ⟨graph, node, tensor, added, found, isQuantize, ordered, isData, areLimits, by decide,
    by decide, by decide, stretch, scaled, counted, folded, shape⟩

/-- Upper limits for each of two columns. -/
def columnLimits : FoldLimits Rat where
  inputLow := .scalar .f32 0
  inputHigh :=
    { elementType := .f32, values := { shape := [2], data := #[255, 1020], size_data := rfl } }
  outputLow := .scalar .f32 0
  outputHigh := .scalar .f32 255

/-- Where there are as many rows as columns, limits for the columns are applied to the rows. -/
theorem foldFakeQuantize_columns_ne :
    (∀ limit, (columnLimits.get limit).StretchesTo rows.shape) ∧
    columnLimits.isSignedShift 256 = false ∧
    ∃ graph value tensor, Graph.empty.addAll (rowsWithin columnLimits) = .ok graph ∧
      graph.op? (NodeId.mk 5) = some (.fakeQuantize 256) ∧
      (graph.evaluate .none).map (fun values => values (NodeId.mk 5)) = .ok (some value) ∧
      value.shape = [2, 2] ∧ value.toList = [3, 50, 3, 50] ∧
      graph.foldFakeQuantize (NodeId.mk 5) none = .ok (some tensor) ∧
      tensor.shape = [2, 2] ∧ tensor.toList = [3, 200, 1, 50] := by
  have made : (Graph.empty.addAll (rowsWithin columnLimits)).map (fun graph =>
      (graph.op? (NodeId.mk 5),
        (graph.evaluate .none).map (fun values => values (NodeId.mk 5)),
        graph.foldFakeQuantize (NodeId.mk 5) none)) =
        .ok (some (.fakeQuantize 256),
          .ok (some { shape := [2, 2], data := #[3, 50, 3, 50], size_data := rfl }),
          .ok (some { elementType := .f32
                      values := { shape := [2, 2], data := #[3, 200, 1, 50], size_data := rfl } })) := by
    cbv
  obtain ⟨graph, added, facts⟩ := Outcome.map_eq_ok.mp made
  simp only [Prod.mk.injEq] at facts
  obtain ⟨isOp, evaluated, folded⟩ := facts
  refine ⟨fun limit => ?_, by cbv, graph, _, _, added, isOp, evaluated, rfl, rfl, folded, rfl, rfl⟩
  cases limit <;> rfl

end Graph

end QuantGraph
