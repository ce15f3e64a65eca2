import Mathlib
import QuantGraph.Proofs.Evaluation.Operation
import QuantGraph.Proofs.Evaluation.Values
import QuantGraph.Proofs.Graph.Construction
import QuantGraph.Proofs.NDArray.Reading
import QuantGraph.Quantization.Folding
import QuantGraph.Scalar.Exact

/-! The constant to which a fake quantization of constant data folds is the value that
evaluation gives it. Folding finds the limits for an element from its number, evaluation
from its position; the two agree because the leading axis runs slowest. -/

namespace QuantGraph

namespace Shape

theorem eq_one_of_size {shape : Shape} (single : shape.size = 1) : ∀ extent ∈ shape, extent = 1 := by
  induction shape with
  | nil => simp
  | cons extent rest induction =>
      have one : extent = 1 := Nat.eq_one_of_mul_eq_one_right single
      have others : size rest = 1 := Nat.eq_one_of_mul_eq_one_left single
      intro other member
      rcases List.mem_cons.mp member with rfl | member
      · exact one
      · exact induction others other member

theorem size_replicate_one (count : Nat) : size (List.replicate count 1) = 1 := by
  induction count with
  | zero => rfl
  | succ count induction => rw [List.replicate_succ, size, induction]

theorem offset_ones (count : Nat) (index : Index) :
    offset (List.replicate count 1)
      (List.zipWith stretchedCoordinate (List.replicate count 1) index) = 0 := by
  induction count generalizing index with
  | zero => rfl
  | succ count induction =>
      cases index with
      | nil => rfl
      | cons coordinate rest =>
          rw [List.replicate_succ, List.zipWith_cons_cons, offset, stretchedCoordinate,
            if_pos rfl, Nat.zero_mul, induction]

/-- With one element for each position of the leading axis, the element for a position has
the number of its leading coordinate. -/
theorem offset_leading {extent count coordinate : Nat} {index : Index} (several : extent ≠ 1)
    (lined : index.length = count) :
    offset (extent :: List.replicate count 1)
      (stretchedIndex (extent :: List.replicate count 1) (coordinate :: index)) = coordinate := by
  have lengths : (coordinate :: index).length = (extent :: List.replicate count 1).length := by
    simp [lined]
  have position := stretchedIndex_append [] lengths
  rw [List.nil_append] at position
  rw [position, List.zipWith_cons_cons, offset, size_replicate_one, offset_ones,
    stretchedCoordinate, if_neg several, Nat.mul_one, Nat.add_zero]

theorem forall₂_of_ones {source inner : Shape} (ones : ∀ extent ∈ source, extent = 1)
    (lengths : source.length = inner.length) :
    List.Forall₂ (fun extent extent' => extent = extent' ∨ extent = 1) source inner := by
  induction source generalizing inner with
  | nil =>
      cases List.eq_nil_of_length_eq_zero lengths.symm
      exact List.Forall₂.nil
  | cons extent rest induction =>
      cases inner with
      | nil => cases lengths
      | cons target targets =>
          exact List.Forall₂.cons (Or.inr (ones extent List.mem_cons_self))
            (induction (fun other member => ones other (List.mem_cons_of_mem extent member))
              (Nat.succ.inj lengths))

theorem stretchesTo_of_ones {source target : Shape} (ones : ∀ extent ∈ source, extent = 1)
    (shorter : source.length ≤ target.length) : source.StretchesTo target := by
  refine stretchesTo_iff_append.mpr ⟨target.take (target.length - source.length),
    target.drop (target.length - source.length), (List.take_append_drop _ _).symm, ?_⟩
  refine forall₂_of_ones ones ?_
  rw [List.length_drop]
  omega

end Shape

namespace NDArray

variable [Inhabited α] {array : NDArray α} {index : Index}

theorem read_eq_getD : array.read index =
    array.toList.getD (array.shape.offset (array.shape.stretchedIndex index)) default := by
  rw [read, get, toList, Array.getD_eq_getD_getElem?, List.getD_eq_getElem?_getD,
    Array.getElem?_toList]

omit [Inhabited α] in
theorem length_toList (array : NDArray α) : array.toList.length = array.shape.size := by
  rw [toList, Array.length_toList, array.size_data]

end NDArray

namespace Tensor

/-- A limit holds one value, or one for every position of the leading axis. -/
def Spans (limit : Tensor α) (data : Shape) : Prop :=
  (limit.size = 1 ∧ limit.shape.length ≤ data.length) ∨
    limit.shape = data.headD 0 :: List.replicate (data.length - 1) 1

instance (limit : Tensor α) (data : Shape) : Decidable (limit.Spans data) :=
  inferInstanceAs (Decidable (_ ∨ _))

namespace Spans

variable {limit : Tensor α} {extent : Nat} {rest : Shape}

theorem stretchesTo (spans : limit.Spans (extent :: rest)) :
    limit.shape.StretchesTo (extent :: rest) := by
  rcases spans with ⟨single, shorter⟩ | leading
  · have size_eq : limit.shape.size = 1 := limit.values.size_data.symm.trans single
    exact Shape.stretchesTo_of_ones (Shape.eq_one_of_size size_eq) shorter
  · refine Shape.stretchesTo_iff_append.mpr ⟨[], extent :: rest, rfl, ?_⟩
    rw [leading]
    refine List.Forall₂.cons (Or.inl rfl) (Shape.forall₂_of_ones ?_ ?_)
    · exact fun other member => List.eq_of_mem_replicate member
    · simp

theorem size_eq (spans : limit.Spans (extent :: rest)) : limit.size = 1 ∨ limit.size = extent := by
  rcases spans with ⟨single, _⟩ | leading
  · exact Or.inl single
  · right
    have size_eq : limit.size = limit.shape.size := limit.values.size_data
    rw [size_eq, leading, Shape.size, Shape.size_replicate_one, Nat.mul_one]
    rfl

variable [Scalar α]

/-- At every position a limit applies as the value for the leading coordinate. -/
theorem read_eq (spans : limit.Spans (extent :: rest)) {coordinate : Nat} {index : Index}
    (holds : Shape.Holds (extent :: rest) (coordinate :: index)) :
    limit.values.read (coordinate :: index) = FoldLimits.valueAt limit.toList coordinate := by
  have inside : limit.shape.Holds (limit.shape.stretchedIndex (coordinate :: index)) :=
    holds.stretchedIndex spans.stretchesTo
  have bound := inside.offset_lt
  have size_eq : limit.toList.length = limit.shape.size := NDArray.length_toList limit.values
  rw [NDArray.read_eq_getD, FoldLimits.valueAt]
  split
  case isTrue single =>
    have first : limit.shape.offset (limit.shape.stretchedIndex (coordinate :: index)) = 0 := by
      omega
    exact congrArg (fun number => limit.toList.getD number 0) first
  case isFalse several =>
    rcases spans with ⟨single, _⟩ | leading
    · exact absurd (size_eq.trans (limit.values.size_data.symm.trans single)) several
    · refine congrArg (fun number => limit.toList.getD number 0) ?_
      change limit.shape.offset (limit.shape.stretchedIndex (coordinate :: index)) = coordinate
      have shape_eq : limit.shape = extent :: List.replicate rest.length 1 := leading
      rw [shape_eq]
      refine Shape.offset_leading (fun one => several ?_) ?_
      · rw [size_eq, shape_eq, Shape.size, Shape.size_replicate_one, one]
      · exact Nat.succ.inj holds.length_eq

end Spans

end Tensor

namespace FoldLimits

variable [Scalar α]

/-- The limits as arrays, which is how evaluation reads them. -/
def arrays (limits : FoldLimits α) : LimitArrays α where
  inputLow := limits.inputLow.values
  inputHigh := limits.inputHigh.values
  outputLow := limits.outputLow.values
  outputHigh := limits.outputHigh.values

variable {limits : FoldLimits α} {data : Tensor α} {levels : Nat} {rounding : Bool}

omit [Scalar α] in
theorem values_eq_ok {name : String} {extent : Nat} {rest : Shape} {limit : LimitName}
    (spans : (limits.get limit).Spans (extent :: rest)) :
    limits.values name extent limit = .ok (limits.get limit).toList := by
  rw [values]
  refine if_neg fun bad => ?_
  rcases spans.size_eq with single | each
  · exact bad.1 single
  · exact bad.2 each

/-- The number of an element, divided by the number of elements for each position of the
leading axis, is its leading coordinate. -/
theorem channel_eq {shape : Shape} {coordinate : Nat} {index : Index}
    (holds : shape.Holds (coordinate :: index)) :
    shape.offset (coordinate :: index) /
        max (if shape.headD 0 = 0 then 1 else shape.size / shape.headD 0) 1 = coordinate := by
  cases holds with
  | @cons extent _ rest _ below inside =>
      have bound := Shape.Holds.offset_lt inside
      have positive : 0 < extent := Nat.zero_lt_of_lt below
      have inner : max (if extent = 0 then 1 else Shape.size (extent :: rest) / extent) 1 =
          Shape.size rest := by
        rw [if_neg (Nat.pos_iff_ne_zero.mp positive), Shape.size, Nat.mul_div_cancel_left _ positive]
        omega
      rw [List.headD_cons, inner, Shape.offset, Nat.mul_comm,
        Nat.mul_add_div (Nat.zero_lt_of_lt bound), Nat.div_eq_of_lt bound, Nat.add_zero]

/-- The limits for the positions of a channel. -/
def channelInterval (limits : FoldLimits α) (channel : Nat) : Interval α where
  inputLow := valueAt limits.inputLow.toList channel
  inputHigh := valueAt limits.inputHigh.toList channel
  outputLow := valueAt limits.outputLow.toList channel
  outputHigh := valueAt limits.outputHigh.toList channel

theorem intervalAt_eq {extent coordinate : Nat} {rest : Shape} {index : Index}
    (spans : ∀ limit, (limits.get limit).Spans (extent :: rest))
    (holds : Shape.Holds (extent :: rest) (coordinate :: index)) :
    limits.arrays.intervalAt (coordinate :: index) = limits.channelInterval coordinate := by
  have each (limit : LimitName) := (spans limit).read_eq holds
  rw [channelInterval, LimitArrays.intervalAt, Interval.mk.injEq]
  exact ⟨each .inputLow, each .inputHigh, each .outputLow, each .outputHigh⟩

/-- Quantizing by number is quantizing by position. -/
theorem mapNumbered_eq {extent : Nat} {rest : Shape} (shape_eq : data.shape = extent :: rest)
    (spans : ∀ limit, (limits.get limit).Spans data.shape) :
    (data.values.mapNumbered fun number value =>
      (limits.channelInterval (number / max (if data.shape.headD 0 = 0 then 1
        else data.size / data.shape.headD 0) 1)).quantize levels rounding value) =
      limits.arrays.quantize levels rounding data.values data.shape := by
  refine NDArray.ext_get rfl fun index holds => ?_
  have holds : data.values.shape.Holds index := holds
  have inside : data.shape.Holds index := holds
  rw [NDArray.get_mapNumbered holds, LimitArrays.quantize, NDArray.get_ofFn inside,
    holds.stretchedIndex_self]
  have size_eq : data.size = data.shape.size := data.values.size_data
  change (limits.channelInterval (data.shape.offset index / _)).quantize _ _ _ = _
  rw [size_eq]
  rw [shape_eq] at inside spans ⊢
  cases inside with
  | cons below tail =>
      rw [intervalAt_eq spans (List.Forall₂.cons below tail),
        channel_eq (List.Forall₂.cons below tail)]

/-- Folding quantizes each element with the limits for its position. -/
theorem apply_eq_ok {name : String} {type : ElementType} {extent : Nat} {rest : Shape}
    (shape_eq : data.shape = extent :: rest) (rank : data.shape.length ≤ maxRank)
    (spans : ∀ limit, (limits.get limit).Spans data.shape) (enough : 2 ≤ levels)
    (scaled : limits.isSignedShift levels = false) :
    limits.apply name data levels type rounding =
      .ok { elementType := type
            values := limits.arrays.quantize levels rounding data.values data.shape } := by
  have ranked : ¬ (data.shape.length = 0 ∨ maxRank < data.shape.length) := by
    rw [shape_eq] at rank ⊢
    rw [List.length_cons] at rank ⊢
    omega
  have lists (limit : LimitName) :
      limits.values name (data.shape.headD 0) limit = .ok (limits.get limit).toList := by
    have spans := spans limit
    rw [shape_eq] at spans ⊢
    exact values_eq_ok spans
  unfold apply
  simp only [scaled, if_neg (Nat.not_lt_of_le enough), if_neg ranked, lists]
  exact congrArg (fun values : NDArray α =>
    (Except.ok { elementType := type, values := values } : Except RevisionError (Tensor α)))
    (mapNumbered_eq shape_eq spans)

omit [Scalar α] in
theorem values_of_eq_ok {name : String} {channels : Nat} {limit : LimitName} {list : List α}
    (found : limits.values name channels limit = .ok list) : list = (limits.get limit).toList := by
  unfold values at found
  dsimp only at found
  split at found
  case isTrue => cases found
  case isFalse => exact (Except.ok.inj found).symm

/-- Every element that is folded is quantized with the limits for its leading coordinate. -/
theorem get_of_apply {name : String} {type : ElementType} {tensor : Tensor α}
    (applied : limits.apply name data levels type rounding = .ok tensor)
    (scaled : limits.isSignedShift levels = false) :
    tensor.shape = data.shape ∧ data.shape ≠ [] ∧
      ∀ coordinate index, data.shape.Holds (coordinate :: index) →
        tensor.values.get (coordinate :: index) =
          (limits.channelInterval coordinate).quantize levels rounding
            (data.values.get (coordinate :: index)) := by
  unfold apply at applied
  rw [if_neg (Bool.eq_false_iff.mp scaled)] at applied
  dsimp only at applied
  split at applied
  case isTrue => cases applied
  case isFalse =>
    split at applied
    case isTrue => cases applied
    case isFalse ranked =>
      obtain ⟨inputLow, isInputLow, applied⟩ := Outcome.bind_eq_ok.mp applied
      obtain ⟨inputHigh, isInputHigh, applied⟩ := Outcome.bind_eq_ok.mp applied
      obtain ⟨outputLow, isOutputLow, applied⟩ := Outcome.bind_eq_ok.mp applied
      obtain ⟨outputHigh, isOutputHigh, applied⟩ := Outcome.bind_eq_ok.mp applied
      cases values_of_eq_ok isInputLow
      cases values_of_eq_ok isInputHigh
      cases values_of_eq_ok isOutputLow
      cases values_of_eq_ok isOutputHigh
      cases Except.ok.inj applied
      refine ⟨rfl, fun empty => ranked (Or.inl (by rw [empty]; rfl)), ?_⟩
      intro coordinate index holds
      have inside : data.values.shape.Holds (coordinate :: index) := holds
      have size_eq : data.size = data.shape.size := data.values.size_data
      have channel := channel_eq holds
      rw [← size_eq] at channel
      rw [NDArray.get_mapNumbered inside]
      exact congrArg (fun channel => (limits.channelInterval channel).quantize levels rounding
        (data.values.get (coordinate :: index))) channel

end FoldLimits

namespace Tensor

/-- A limit holds one value, along any number of axes, or one for every position of the
leading axis of data. -/
def Covers (limit : Tensor α) (data : Shape) : Prop :=
  limit.size = 1 ∨ limit.shape = data.headD 0 :: List.replicate (data.length - 1) 1

instance (limit : Tensor α) (data : Shape) : Decidable (limit.Covers data) :=
  inferInstanceAs (Decidable (_ ∨ _))

/-- A limit stretches to the shape of data. -/
def StretchesTo (limit : Tensor α) (data : Shape) : Prop := limit.shape.StretchesTo data

variable [Scalar α]

/-- A limit that covers data applies, at every position of a shape to which both stretch, as
the value for the leading coordinate in the data. -/
theorem Covers.read_eq {limit : Tensor α} {data target : Shape} {index rest : Index}
    {coordinate : Nat} (covers : limit.Covers data)
    (limitStretches : limit.shape.StretchesTo target) (dataStretches : data.StretchesTo target)
    (holds : target.Holds index) (position : data.stretchedIndex index = coordinate :: rest) :
    limit.values.read index = FoldLimits.valueAt limit.toList coordinate := by
  rcases covers with single | leading
  · have size_eq : limit.shape.size = 1 := limit.values.size_data.symm.trans single
    have length_eq : limit.toList.length = 1 :=
      (NDArray.length_toList limit.values).trans size_eq
    have bound := (holds.stretchedIndex limitStretches).offset_lt
    have first : limit.shape.offset (limit.shape.stretchedIndex index) = 0 := by omega
    rw [NDArray.read_eq_getD, FoldLimits.valueAt, if_pos length_eq]
    exact congrArg (fun number => limit.toList.getD number 0) first
  · have inside := holds.stretchedIndex dataStretches
    rw [position] at inside
    cases inside with
    | @cons extent _ shape _ below tail =>
        have spans : limit.Spans (extent :: shape) := Or.inr leading
        have same := NDArray.read_stretchedIndex spans.stretchesTo dataStretches holds
        rw [position] at same
        exact same.symm.trans (spans.read_eq (List.Forall₂.cons below tail))

end Tensor

namespace Graph

variable [Scalar α] {graph : Graph α} {feeds values : Assignment α} {id : NodeId}

/-- What folds is the data with the limits, all of which are constant. -/
theorem foldFakeQuantize_eq_some {node : Node α} {levels : Nat} {rounding : Option Bool}
    {tensor : Tensor α} (found : graph.node? id = some node)
    (isQuantize : node.op = .fakeQuantize levels)
    (folds : graph.foldFakeQuantize id rounding = .ok (some tensor)) :
    ∃ (data : Tensor α) (limits : FoldLimits α),
      (graph.inputNode? id 0).bind graph.constant? = some data ∧
      (∀ limit, graph.limit? id limit = some (limits.get limit)) ∧
      limits.apply node.name data levels node.elementType
        (rounding.getD node.elementType.isIntegral) = .ok tensor := by
  unfold foldFakeQuantize at folds
  rw [found] at folds
  simp only [isQuantize, Op.levels?] at folds
  split at folds
  case h_1 data inputLow inputHigh outputLow outputHigh isData isInputLow isInputHigh isOutputLow
      isOutputHigh =>
    obtain ⟨folded, applied, equal⟩ := Outcome.map_eq_ok.mp folds
    cases equal
    refine ⟨data, ⟨inputLow, inputHigh, outputLow, outputHigh⟩, isData, fun limit => ?_, applied⟩
    cases limit <;> assumption
  case h_2 => cases folds

/-- A node reads on each of its first slots what is listed there among its inputs. -/
def ReadsInOrder (graph : Graph α) (id : NodeId) (count : Nat) : Prop :=
  ∀ slot < count, graph.input? id slot = (graph.inputs id)[slot]?

instance (graph : Graph α) (id : NodeId) (count : Nat) : Decidable (graph.ReadsInOrder id count) :=
  inferInstanceAs (Decidable (∀ slot < count, _))

omit [Scalar α] in
/-- The value of a constant that is read on a slot is the input at that position. -/
theorem Carries.constant [Scalar α] {inputs : List (NDArray α)} {slot : Nat} {tensor : Tensor α}
    (carries : Carries values (graph.inputs id) inputs) (evaluated : graph.evaluate feeds = .ok values)
    (ordered : graph.input? id slot = (graph.inputs id)[slot]?)
    (isConstant : (graph.inputNode? id slot).bind graph.constant? = some tensor) :
    inputs[slot]? = some tensor.values := by
  obtain ⟨source, isSource, isTensor⟩ := Option.bind_eq_some_iff.mp isConstant
  obtain ⟨output, isInput, rfl⟩ := Option.map_eq_some_iff.mp isSource
  obtain ⟨input, found, isValue⟩ := carries.getElem? (ordered.symm.trans isInput)
  rw [value_of_constant evaluated isTensor] at isValue
  rw [found, isValue]

/-- A fake quantization of constant data, with limits that hold one value each or one for
every position of the leading axis, folds to the value that it has. -/
theorem exists_foldFakeQuantize {node : Node α} {levels : Nat} {data : Tensor α}
    {limits : FoldLimits α} (found : graph.node? id = some node)
    (isQuantize : node.op = .fakeQuantize levels) (ordered : graph.ReadsInOrder id 5)
    (isData : (graph.inputNode? id 0).bind graph.constant? = some data)
    (areLimits : ∀ limit, graph.limit? id limit = some (limits.get limit))
    (enough : 2 ≤ levels) (ranked : data.shape ≠ []) (rank : data.shape.length ≤ FoldLimits.maxRank)
    (spans : ∀ limit, (limits.get limit).Spans data.shape)
    (scaled : limits.isSignedShift levels = false) :
    ∃ tensor, graph.foldFakeQuantize id none = .ok (some tensor) ∧
      ∀ feeds values, graph.evaluate feeds = .ok values → values id = some tensor.values := by
  obtain ⟨extent, rest, shape_eq⟩ := List.exists_cons_of_ne_nil ranked
  let folded : Tensor α :=
    { elementType := node.elementType
      values := limits.arrays.quantize levels node.elementType.isIntegral data.values data.shape }
  refine ⟨folded, ?_, ?_⟩
  · unfold foldFakeQuantize
    rw [found]
    simp only [isQuantize, Op.levels?, isData, areLimits]
    exact congrArg (Except.map some)
      (FoldLimits.apply_eq_ok shape_eq rank spans enough scaled)
  · intro feeds values evaluated
    obtain ⟨value, isValue, computed⟩ :=
      evaluateNode_of_evaluate evaluated (contains_of_node? found)
    obtain ⟨_, inputs, present, carries, computed⟩ := evaluateNode_eq_ok.mp computed
    cases Option.some.inj (found.symm.trans present)
    have limit (name : LimitName) (bound : name.slot < 5) :=
      carries.constant evaluated (ordered name.slot bound) (areLimits name)
    have stretch : ∀ limit ∈ limits.arrays.toList, limit.shape.StretchesTo data.values.shape := by
      have each (name : LimitName) : (limits.get name).shape.StretchesTo data.shape := by
        have spans := spans name
        rw [shape_eq] at spans ⊢
        exact spans.stretchesTo
      simpa [FoldLimits.arrays, LimitArrays.toList] using
        ⟨each .inputLow, each .inputHigh, each .outputLow, each .outputHigh⟩
    rw [isQuantize, Op.evaluate_fakeQuantize limits.arrays enough
      (carries.constant evaluated (ordered 0 (by omega)) isData) (limit .inputLow (by decide))
      (limit .inputHigh (by decide)) (limit .outputLow (by decide)) (limit .outputHigh (by decide))
      (Op.commonShape_eq stretch)] at computed
    split at computed
    case isTrue => exact isValue.trans (congrArg some (Except.ok.inj computed).symm)
    case isFalse => cases computed

/-- Two rows of two values. -/
def rows : Tensor Rat where
  elementType := .f32
  values := { shape := [2, 2], data := #[3, 200, 3, 200], size_data := rfl }

/-- Lower limits for all values, upper limits for each of two rows. -/
def rowLimits : FoldLimits Rat where
  inputLow := .scalar .f32 0
  inputHigh :=
    { elementType := .f32, values := { shape := [2, 1], data := #[255, 510], size_data := rfl } }
  outputLow := { elementType := .f32, values := { shape := [1], data := #[1], size_data := rfl } }
  outputHigh :=
    { elementType := .f32, values := { shape := [2, 1], data := #[256, 257], size_data := rfl } }

/-- A fake quantization of constant rows that reads its inputs from a slot on. -/
def quantizedRows (firstSlot : Nat) : List (Draft Rat) :=
  [(Op.constant rows).draft "rows", (Op.constant rowLimits.inputLow).draft "input low",
    (Op.constant rowLimits.inputHigh).draft "input high",
    (Op.constant rowLimits.outputLow).draft "output low",
    (Op.constant rowLimits.outputHigh).draft "output high",
    [0, 1, 2, 3, 4].foldl (fun draft index =>
      draft.input (NodeId.mk index).output (UInt8.ofNat (firstSlot + index)))
      ((Op.fakeQuantize 256).draft "quantized")]

theorem exists_foldFakeQuantize_rows :
    ∃ graph node, Graph.empty.addAll (quantizedRows 0) = .ok graph ∧
      graph.node? (NodeId.mk 5) = some node ∧ node.op = .fakeQuantize 256 ∧
      graph.ReadsInOrder (NodeId.mk 5) 5 ∧
      (graph.inputNode? (NodeId.mk 5) 0).bind graph.constant? = some rows ∧
      (∀ limit, graph.limit? (NodeId.mk 5) limit = some (rowLimits.get limit)) ∧
      2 ≤ 256 ∧ rows.shape ≠ [] ∧ rows.shape.length ≤ FoldLimits.maxRank ∧
      (∀ limit, (rowLimits.get limit).Spans rows.shape) ∧
      rowLimits.isSignedShift 256 = false ∧
      ∃ tensor, graph.foldFakeQuantize (NodeId.mk 5) none = .ok (some tensor) ∧
        ∀ feeds values, graph.evaluate feeds = .ok values →
          values (NodeId.mk 5) = some tensor.values := by
  have made : (Graph.empty.addAll (quantizedRows 0)).map (fun graph =>
      (graph.op? (NodeId.mk 5), decide (graph.ReadsInOrder (NodeId.mk 5) 5),
        (graph.inputNode? (NodeId.mk 5) 0).bind graph.constant?,
        [LimitName.inputLow, .inputHigh, .outputLow, .outputHigh].map fun limit =>
          graph.limit? (NodeId.mk 5) limit)) =
        .ok (some (.fakeQuantize 256), true, some rows,
          [some rowLimits.inputLow, some rowLimits.inputHigh, some rowLimits.outputLow,
            some rowLimits.outputHigh]) := by cbv
  obtain ⟨graph, added, facts⟩ := Outcome.map_eq_ok.mp made
  simp only [Prod.mk.injEq, decide_eq_true_eq, List.map_cons, List.cons.injEq] at facts
  obtain ⟨isOp, ordered, isData, inputLow, inputHigh, outputLow, outputHigh, _⟩ := facts
  obtain ⟨node, found, isQuantize⟩ := Option.map_eq_some_iff.mp isOp
  have areLimits (limit : LimitName) :
      graph.limit? (NodeId.mk 5) limit = some (rowLimits.get limit) := by
    cases limit <;> assumption
  have spans : ∀ limit, (rowLimits.get limit).Spans rows.shape := by
    intro limit
    cases limit <;> decide
  have scaled : rowLimits.isSignedShift 256 = false := by cbv
  exact ⟨graph, node, added, found, isQuantize, ordered, isData, areLimits, by decide, by decide,
    by decide, spans, scaled, exists_foldFakeQuantize found isQuantize ordered isData areLimits
      (by decide) (by decide) (by decide) spans scaled⟩

/-- A quantization that leaves its first slot free has a value, but nothing to fold: folding
looks for the data on the slot that is free, evaluation takes the first input there is. -/
theorem exists_foldFakeQuantize_eq_none :
    ∃ graph value, Graph.empty.addAll (quantizedRows 1) = .ok graph ∧
      graph.op? (NodeId.mk 5) = some (.fakeQuantize 256) ∧
      (graph.inputs (NodeId.mk 5)).map (fun output => graph.constant? output.node) =
        [some rows, some rowLimits.inputLow, some rowLimits.inputHigh, some rowLimits.outputLow,
          some rowLimits.outputHigh] ∧
      graph.foldFakeQuantize (NodeId.mk 5) none = .ok none ∧
      (graph.evaluate .none).map (fun values => values (NodeId.mk 5)) = .ok (some value) ∧
      value.toList = [4, 201, 767 / 255, 5171 / 51] := by
  have made : (Graph.empty.addAll (quantizedRows 1)).map (fun graph =>
      (graph.op? (NodeId.mk 5),
        (graph.inputs (NodeId.mk 5)).map (fun output => graph.constant? output.node),
        graph.foldFakeQuantize (NodeId.mk 5) none,
        (graph.evaluate .none).map (fun values => values (NodeId.mk 5)))) =
        .ok (some (.fakeQuantize 256), [some rows, some rowLimits.inputLow,
          some rowLimits.inputHigh, some rowLimits.outputLow, some rowLimits.outputHigh], .ok none,
          .ok (some { shape := [2, 2], data := #[4, 201, 767 / 255, 5171 / 51], size_data := rfl })) := by
    cbv
  obtain ⟨graph, added, facts⟩ := Outcome.map_eq_ok.mp made
  simp only [Prod.mk.injEq] at facts
  obtain ⟨isOp, constants, folded, evaluated⟩ := facts
  exact ⟨graph, _, added, isOp, constants, folded, evaluated, rfl⟩

end Graph

end QuantGraph
