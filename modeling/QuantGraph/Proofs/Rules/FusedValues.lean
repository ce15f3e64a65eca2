import Mathlib
import QuantGraph.Proofs.Dequantization.Denotation
import QuantGraph.Proofs.Dequantization.Exactness
import QuantGraph.Proofs.Run.Apply

/-! The values behind a fake quantization that takes in a product or a difference. The output
limits only say where the levels lie, so that the operation may be applied to them instead of
the image. A Convert that stood between the two leaves no trace, whatever it did to the image. -/

namespace QuantGraph

namespace NDArray

variable [Scalar α]

/-- What a node gives whose output type may be integral. -/
def settle (rounding : Bool) (array : NDArray α) : NDArray α :=
  if rounding then array.map Scalar.round else array

theorem shape_settle (rounding : Bool) (array : NDArray α) :
    (array.settle rounding).shape = array.shape := by
  cases rounding <;> rfl

theorem get_settle {rounding : Bool} {array : NDArray α} {index : Index}
    (holds : array.shape.Holds index) : (array.settle rounding).get index =
      if rounding then Scalar.round (array.get index) else array.get index := by
  cases rounding with
  | false => rfl
  | true => exact get_map holds

/-- An operation may be applied the other way round where it may on numbers. -/
theorem combine_comm {op : BinaryOp}
    (commutes : ∀ left right : α, op.apply left right = op.apply right left)
    {left right product : NDArray α} (combined : combine op left right = .ok product) :
    combine op right left = .ok product := by
  obtain ⟨common, addressable, each⟩ := combine_eq_ok.mp combined
  refine combine_eq_ok.mpr ⟨(Shape.broadcast_comm _ _).trans common, addressable, ?_⟩
  intro index holds
  rw [each index holds]
  exact commutes _ _

end NDArray

namespace LimitArrays

variable [Scalar α] {limits : LimitArrays α} {levels : Nat} {op : BinaryOp}
  {data constant low high direct : NDArray α} {shape : Shape}

section Moved

variable (common : limits.commonShape data.shape = .ok shape)
  (isLow : NDArray.combine op limits.outputLow constant = .ok low)
  (isHigh : NDArray.combine op limits.outputHigh constant = .ok high)

include common isLow isHigh

/-- Data and limits to which an operation has been applied have the shape of the operation on the
image. -/
theorem commonShape_moved {target : Shape}
    (broadcast : shape.broadcast constant.shape = some target) :
    LimitArrays.commonShape ⟨limits.inputLow, limits.inputHigh, low, high⟩ data.shape =
      .ok target := by
  obtain ⟨dataStretches, limitsStretch, least⟩ := commonShape_eq_ok.mp common
  obtain ⟨fromShape, fromConstant, smallest⟩ := Shape.broadcast_eq_some_iff.mp broadcast
  obtain ⟨fromLow, lowConstant, lowLeast⟩ :=
    Shape.broadcast_eq_some_iff.mp (NDArray.combine_eq_ok.mp isLow).1
  obtain ⟨fromHigh, _, highLeast⟩ :=
    Shape.broadcast_eq_some_iff.mp (NDArray.combine_eq_ok.mp isHigh).1
  obtain ⟨inputLow, inputHigh, outputLow, outputHigh⟩ := forall_mem_toList.mp limitsStretch
  refine commonShape_eq_ok.mpr ⟨dataStretches.trans fromShape, forall_mem_toList.mpr
    ⟨inputLow.trans fromShape, inputHigh.trans fromShape,
      lowLeast target (outputLow.trans fromShape) fromConstant,
      highLeast target (outputHigh.trans fromShape) fromConstant⟩, ?_⟩
  intro other dataOther limitsOther
  obtain ⟨inputLow, inputHigh, lowOther, highOther⟩ := forall_mem_toList.mp limitsOther
  refine smallest other (least other dataOther (forall_mem_toList.mpr ?_))
    (lowConstant.trans lowOther)
  exact ⟨inputLow, inputHigh, fromLow.trans lowOther, fromHigh.trans highOther⟩

/-- Quantizing between limits to which an operation has been applied is the operation on what
quantizing between the limits gives. -/
theorem quantize_moved (moves : @Interval.MovesLevels α _ op levels)
    (combined : NDArray.combine op (limits.quantize levels false data shape) constant = .ok direct)
    (rounding : Bool) :
    LimitArrays.quantize ⟨limits.inputLow, limits.inputHigh, low, high⟩ levels rounding data
      direct.shape = direct.settle rounding := by
  let moved : LimitArrays α := ⟨limits.inputLow, limits.inputHigh, low, high⟩
  obtain ⟨dataStretches, limitsStretch, _⟩ := commonShape_eq_ok.mp common
  obtain ⟨broadcast, _, each⟩ := NDArray.combine_eq_ok.mp combined
  obtain ⟨fromShape, _, _⟩ := Shape.broadcast_eq_some_iff.mp broadcast
  obtain ⟨dataMoved, movedStretches, _⟩ :=
    commonShape_eq_ok.mp (commonShape_moved common isLow isHigh broadcast)
  obtain ⟨_, _, lowStretches, highStretches⟩ := forall_mem_toList.mp movedStretches
  refine NDArray.ext_get (NDArray.shape_settle rounding direct).symm fun index inside => ?_
  have holds : direct.shape.Holds index := inside
  have interval : moved.readInterval index = ⟨limits.inputLow.read index,
      limits.inputHigh.read index, op.apply (limits.outputLow.read index) (constant.read index),
      op.apply (limits.outputHigh.read index) (constant.read index)⟩ := by
    rw [readInterval, NDArray.read_combine isLow lowStretches holds,
      NDArray.read_combine isHigh highStretches holds]
  calc (moved.quantize levels rounding data direct.shape).get index
      = (moved.readInterval index).quantize levels rounding (data.read index) :=
        (NDArray.read_eq_get inside).symm.trans
          (read_quantize dataMoved movedStretches (Shape.stretchesTo_refl _) holds)
    _ = (direct.settle rounding).get index := by
        rw [interval, NDArray.get_settle holds, each index holds,
          read_quantize dataStretches limitsStretch fromShape holds]
        exact moves.quantize_eq (limits.readInterval index) rounding _ _

end Moved

end LimitArrays

namespace Graph

section Operations

variable [Scalar α] {graph : Graph α} {feeds : Assignment α} {id : NodeId} {op : BinaryOp}

theorem HasValue.two_le {value : NDArray α} {view : FakeQuantizeNode α}
    (has : graph.HasValue feeds id value) (isView : graph.fakeQuantizeNode id = .ok view) :
    2 ≤ view.levels := by
  obtain ⟨present, isQuantize, _⟩ := fakeQuantizeNode_eq_ok isView
  obtain ⟨node, inputs, found, _, computed⟩ := hasValue_iff.mp has
  cases Option.some.inj (present.symm.trans found)
  rw [isQuantize] at computed
  exact Op.two_le_of_evaluate computed

/-- Between two nodes stands a Convert, which may change the value, or nothing at all. -/
def HandsOn (graph : Graph α) (source target : NodeId) (given handed : NDArray α) : Prop :=
  target = source ∧ handed = given ∨
    ∃ destination, graph.op? target = some (.convert destination) ∧
      handed = given.map destination.convert

theorem exists_handsOn {operand : ConstantOperand α} {quantizer : NodeId} {handed : NDArray α}
    (behind : graph.quantizerBehind? operand = some quantizer)
    (has : graph.HasValue feeds operand.data.node handed) :
    ∃ quantized, graph.HasValue feeds quantizer quantized ∧
      graph.HandsOn quantizer operand.data.node quantized handed := by
  rcases quantizerBehind?_eq_some behind with rfl | ⟨isConvert, _, read⟩
  · exact ⟨handed, has, Or.inl ⟨rfl, rfl⟩⟩
  · obtain ⟨destination, isOp⟩ := exists_convert_of_kind? isConvert
    obtain ⟨output, isInput, rfl⟩ := Option.map_eq_some_iff.mp read
    obtain ⟨quantized, hasQuantized, converted⟩ := has.exists_convert isOp isInput
    exact ⟨quantized, hasQuantized, Or.inr ⟨destination, isOp, converted⟩⟩

theorem HandsOn.exists_combine {source target : NodeId} {given handed constant result : NDArray α}
    (handsOn : graph.HandsOn source target given handed)
    (combined : NDArray.combine op handed constant = .ok result) :
    ∃ direct, NDArray.combine op given constant = .ok direct := by
  have shape_eq : given.shape = handed.shape := by
    rcases handsOn with ⟨_, rfl⟩ | ⟨destination, _, rfl⟩ <;> rfl
  obtain ⟨handedStretches, constantStretches⟩ := NDArray.stretchesTo_of_combine combined
  obtain ⟨direct, isDirect, _⟩ := NDArray.exists_read_combine op (shape_eq ▸ handedStretches)
    constantStretches (NDArray.combine_eq_ok.mp combined).2.1
  exact ⟨direct, isDirect⟩

theorem Adds.hasValue_constant {before after : Graph α} {new : NodeId} {tensor : Tensor α}
    {name : String} (adds : before.Adds ((Op.constant tensor).draft name) [] new after)
    (feeds : Assignment α) : after.HasValue feeds new tensor.values :=
  hasValue_of_constant adds.op?_new adds.inputs_new

/-- What an operation with a constant gives is computed from the value of the other operand. -/
theorem exists_combine {operand : ConstantOperand α} {result : NDArray α}
    (exact : graph.HasExactSlots id) (isOp : graph.op? id = some (Op.elementwise op))
    (isOperand : graph.constantOperand? id = some operand)
    (ordered : operand.slot = 0 ∨ ∀ left right : α, op.apply left right = op.apply right left)
    (has : graph.HasValue feeds id result) :
    ∃ handed, graph.HasValue feeds operand.data.node handed ∧
      NDArray.combine op handed operand.tensor.values = .ok result := by
  obtain ⟨handed, hasHanded, combined⟩ :=
    ((constantOperand?_eq_some_iff exact).mp isOperand).exists_combine isOp has
  refine ⟨handed, hasHanded, ?_⟩
  unfold ConstantOperand.combine at combined
  split at combined
  case isTrue => exact combined
  case isFalse last =>
    rcases ordered with first | commutes
    · exact absurd first last
    · exact NDArray.combine_comm commutes combined

end Operations

/-! ## A new node in place of an old one -/

section TakingPlace

variable {before middle after : Graph α} {id new : NodeId}

/-- What is not there later was not there before. -/
theorem Grows.fresh (grows : before.Grows middle) (missing : middle.contains id = false) :
    before.contains id = false := by
  by_contra stays
  have present := grows.live (Bool.not_eq_false _ ▸ stays)
  rw [missing] at present
  cases present

namespace Replaces

variable (replaces : middle.Replaces id new after) (grows : before.Grows middle)
  (wellFormed : before.WellFormed) (wellFormed' : middle.WellFormed)
  (fresh : before.contains new = false)

include replaces grows wellFormed wellFormed' fresh

theorem new_live_of_grows (live : before.contains id = true) : after.contains new = true :=
  replaces.keeps wellFormed'.acyclic replaces.new_live
    (grows.independent wellFormed.consistent fresh live)

/-- What read a node before anything was added reads the new one on the same slot. -/
theorem input?_eq_of_grows {reader : NodeId} {slot : Nat} {index : UInt8}
    (read : before.input? reader slot = some ⟨id, index⟩) :
    after.input? reader slot = some ⟨new, index⟩ := by
  have live := live_of_reads wellFormed (reads_of_input? read)
  exact replaces.input?_eq wellFormed' (ne_of_contains live fresh)
    ((grows.input?_eq live slot).trans read)

end Replaces

/-- The graphs on the way from one with a node to one in which another node has taken its place, for
which two constants had to be added first. -/
structure Refits (before : Graph α) (id : NodeId) (lowest highest : Tensor α) (draft : Draft α)
    (outputs : List Output) (low high new : NodeId) (withLow withHigh withNew after : Graph α) :
    Prop where
  addsLow : before.Adds ((Op.constant lowest).draft "") [] low withLow
  addsHigh : withLow.Adds ((Op.constant highest).draft "") [] high withHigh
  adds : withHigh.Adds draft outputs new withNew
  replaces : withNew.Replaces id new after

namespace Refits

variable {lowest highest : Tensor α} {draft : Draft α} {outputs : List Output} {low high : NodeId}
  {withLow withHigh withNew : Graph α}
  (refits : before.Refits id lowest highest draft outputs low high new withLow withHigh withNew after)

include refits

theorem grows : before.Grows withNew :=
  (refits.addsLow.grows.trans refits.addsHigh.grows).trans refits.adds.grows

theorem fresh : before.contains new = false :=
  refits.addsLow.grows.fresh (refits.addsHigh.grows.fresh refits.adds.fresh)

section Values

variable [Scalar α] {feeds values : Assignment α} {value : NDArray α}

theorem hasValue_low (feeds : Assignment α) : withNew.HasValue feeds low lowest.values :=
  refits.adds.grows.hasValue refits.addsHigh.wellFormed.consistent
    (refits.addsHigh.grows.hasValue refits.addsLow.wellFormed.consistent
      (refits.addsLow.hasValue_constant feeds))

theorem hasValue_high (feeds : Assignment α) : withNew.HasValue feeds high highest.values :=
  refits.adds.grows.hasValue refits.addsHigh.wellFormed.consistent
    (refits.addsHigh.hasValue_constant feeds)

end Values

variable (wellFormed : before.WellFormed)

include wellFormed

/-- What read the old node reads the new one on the same slot. -/
theorem input?_eq {reader : NodeId} {slot : Nat} {index : UInt8}
    (read : before.input? reader slot = some ⟨id, index⟩) :
    after.input? reader slot = some ⟨new, index⟩ :=
  refits.replaces.input?_eq_of_grows refits.grows wellFormed refits.adds.wellFormed refits.fresh read

theorem new_live (live : before.contains id = true) : after.contains new = true :=
  refits.replaces.new_live_of_grows refits.grows wellFormed refits.adds.wellFormed refits.fresh live

variable [Scalar α] {feeds values : Assignment α} {value : NDArray α}

theorem carries {other : NodeId} (has : before.HasValue feeds other value) :
    withNew.HasValue feeds other value :=
  refits.grows.hasValue wellFormed.consistent has

/-- Where the new node gives what the old one gave, all other values stay. -/
theorem exists_evaluate (hasNew : withNew.HasValue feeds new value)
    (has : before.HasValue feeds id value) (evaluated : before.evaluate feeds = .ok values) :
    ∃ values', after.evaluate feeds = .ok values' ∧
      ∀ other, before.contains other = true → after.contains other = true →
        values' other = values other := by
  have preserved {other : NodeId} {given : NDArray α}
      (hasOther : withNew.HasValue feeds other given) (live : after.contains other = true) :
      after.HasValue feeds other given :=
    refits.replaces.hasValue_of_same refits.adds.wellFormed (refits.carries wellFormed has) hasNew
      hasOther live
  have all : withNew.HasValues feeds :=
    refits.adds.hasValues refits.addsHigh.wellFormed.consistent
      (refits.addsHigh.hasValues refits.addsLow.wellFormed.consistent
        (refits.addsLow.hasValues wellFormed.consistent (hasValues_of_evaluate evaluated)
          (refits.addsLow.hasValue_constant feeds)) (refits.addsHigh.hasValue_constant feeds)) hasNew
  obtain ⟨values', evaluated'⟩ : ∃ values', after.evaluate feeds = .ok values' := by
    refine exists_evaluate_of_hasValues refits.replaces.wellFormed fun other live => ?_
    obtain ⟨value, hasOther⟩ := all other (refits.replaces.live live)
    exact ⟨value, preserved hasOther live⟩
  refine ⟨values', evaluated', fun other live stays => ?_⟩
  obtain ⟨value, isValue, _⟩ := evaluateNode_of_evaluate evaluated live
  rw [isValue]
  exact (preserved (refits.carries wellFormed (hasValue_of_evaluate evaluated isValue))
    stays).value_eq evaluated'

end Refits

end TakingPlace

/-! ## The way of a fusion -/

/-- The fake quantization behind which an operation stands gives real numbers. -/
def QuantizesReal [Scalar α] (graph : Graph α) (id : NodeId) : Prop :=
  ∀ operand ∈ graph.constantOperand? id, ∀ quantizer ∈ graph.quantizerBehind? operand,
    ∀ type ∈ graph.elementType? quantizer, type.isReal = true

instance [Scalar α] (graph : Graph α) (id : NodeId) : Decidable (graph.QuantizesReal id) :=
  inferInstanceAs (Decidable (∀ operand ∈ graph.constantOperand? id,
    ∀ quantizer ∈ graph.quantizerBehind? operand, ∀ type ∈ graph.elementType? quantizer,
      type.isReal = true))

/-- Between its output limits, a fake quantization gives the same whether or not it rounds. -/
def QuantizesUnrounded [Scalar α] (graph : Graph α) (view : FakeQuantizeNode α) : Prop :=
  ∀ low high, graph.constant? view.outputLow.node = some low →
    graph.constant? view.outputHigh.node = some high →
    ∀ (limits : LimitArrays α) (datum : NDArray α) (shape : Shape), limits.outputLow = low.values →
      limits.outputHigh = high.values → limits.commonShape datum.shape = .ok shape →
      shape.IsAddressable → limits.quantize view.levels view.node.elementType.isIntegral datum shape =
        limits.quantize view.levels false datum shape

theorem quantizesUnrounded_of_isReal [Scalar α] {graph : Graph α} {view : FakeQuantizeNode α}
    (real : view.node.elementType.isReal = true) : graph.QuantizesUnrounded view := by
  intro low high _ _ limits datum shape _ _ _ _
  rw [ElementType.isIntegral, real]
  rfl

/-- The graphs and nodes on the way of a fusion, from the one in which a fake quantization is found
to the one in which another has taken its place. -/
structure Fuses [Scalar α] (before : Graph α) (id : NodeId) (op : BinaryOp)
    (operand : ConstantOperand α) (quantizer : NodeId) (found : OutputFusion α)
    (low high fused : NodeId) (withLow withHigh withFused after : Graph α) : Prop where
  present : before.outputFusion id op = .ok (some found)
  isOperand : before.constantOperand? id = some operand
  isQuantizer : before.quantizerBehind? operand = some quantizer
  isView : before.fakeQuantizeNode quantizer = .ok found.view
  isType : before.elementType? id = some found.precision
  addsLow : before.Adds ((Op.constant found.low).draft "") [] low withLow
  addsHigh : withLow.Adds ((Op.constant found.high).draft "") [] high withHigh
  adds : withHigh.Adds
    ((found.view.draftWithOutputs found.view.node.name low high).withPrecision found.precision)
    [found.view.data, found.view.inputLow, found.view.inputHigh, low.output, high.output] fused
    withFused
  replaces : withFused.Replaces id fused after

section Fuses

variable [Scalar α] {graph after withLow withHigh withFused : Graph α} {feeds : Assignment α}
  {id quantizer low high fused : NodeId} {op : BinaryOp} {operand : ConstantOperand α}
  {found : OutputFusion α} {quantized direct : NDArray α}

theorem FusesOutputLimits.exists_fuses (fuses : graph.FusesOutputLimits id op after) :
    ∃ operand quantizer found low high fused withLow withHigh withFused,
      graph.Fuses id op operand quantizer found low high fused withLow withHigh withFused
        after := by
  obtain ⟨found, low, high, fused, withLow, withHigh, withFused, present, addsLow, addsHigh, adds,
    replaces⟩ := fuses
  obtain ⟨operand, quantizer, _, _, isOperand, isQuantizer, _, isView, _, _, isType, _⟩ :=
    outputFusion_eq_ok present
  exact ⟨operand, quantizer, found, low, high, fused, withLow, withHigh, withFused, present,
    isOperand, isQuantizer, isView, isType, addsLow, addsHigh, adds, replaces⟩

namespace Fuses

variable
  (fuses : graph.Fuses id op operand quantizer found low high fused withLow withHigh withFused
    after)
  (wellFormed : graph.WellFormed)

include fuses

theorem refits : graph.Refits id found.low found.high
    ((found.view.draftWithOutputs found.view.node.name low high).withPrecision found.precision)
    [found.view.data, found.view.inputLow, found.view.inputHigh, low.output, high.output] low high
    fused withLow withHigh withFused after :=
  ⟨fuses.addsLow, fuses.addsHigh, fuses.adds, fuses.replaces⟩

theorem isReal (real : graph.QuantizesReal id) : found.view.node.elementType.isReal = true := by
  refine real operand fuses.isOperand quantizer fuses.isQuantizer _ ?_
  rw [elementType?, (fakeQuantizeNode_eq_ok fuses.isView).1]
  rfl

include wellFormed

theorem hasValue_added (unrounded : graph.QuantizesUnrounded found.view)
    (moves : ∀ levels, 2 ≤ levels → @Interval.MovesLevels α _ op levels)
    (has : graph.HasValue feeds quantizer quantized)
    (combined : NDArray.combine op quantized operand.tensor.values = .ok direct) :
    withFused.HasValue feeds fused (direct.settle found.precision.isIntegral) := by
  have isView := fuses.isView
  have enough := has.two_le isView
  have carried {other : NodeId} {value : NDArray α} (has : graph.HasValue feeds other value) :
      withFused.HasValue feeds other value := fuses.refits.carries wellFormed has
  obtain ⟨_, _, lowest, highest, isOperand, isQuantizer, _, _, isLowest, isHighest, _, isLow,
    isHigh, _⟩ := outputFusion_eq_ok fuses.present
  cases Option.some.inj (isOperand.symm.trans fuses.isOperand)
  have isLow := Tensor.values_of_combine isLow
  have isHigh := Tensor.values_of_combine isHigh
  obtain ⟨datum, limits, hasData, hasInputLow, hasInputHigh, hasOutputLow, hasOutputHigh, common,
    bounded, equal⟩ := has.exists_limits isView enough
  have lowest_eq := hasOutputLow.eq_of_constant isLowest
  have highest_eq := hasOutputHigh.eq_of_constant isHighest
  rw [← lowest_eq] at isLow
  rw [← highest_eq] at isHigh
  rw [equal, unrounded lowest highest isLowest isHighest limits datum _ lowest_eq highest_eq common
    bounded] at combined
  obtain ⟨broadcast, addressable, _⟩ := NDArray.combine_eq_ok.mp combined
  obtain ⟨type, _, isNode⟩ := fuses.adds.node_new
  refine hasValue_iff.mpr ⟨_, datum :: LimitArrays.toList
    ⟨limits.inputLow, limits.inputHigh, found.low.values, found.high.values⟩, isNode, ?_, ?_⟩
  · rw [fuses.adds.inputs_new]
    exact .cons (carried hasData) (.cons (carried hasInputLow) (.cons (carried hasInputHigh)
      (.cons (fuses.refits.hasValue_low feeds) (.cons (fuses.refits.hasValue_high feeds) .nil))))
  · refine (Op.evaluate_fakeQuantize_eq_ok enough).mpr ?_
    rw [NDArray.shape_settle]
    exact ⟨LimitArrays.commonShape_moved common isLow isHigh broadcast, addressable,
      (LimitArrays.quantize_moved common isLow isHigh (moves found.view.levels enough) combined
        _).symm⟩

end Fuses

end Fuses

/-! ## What is read before and after -/

/-- A fake quantization takes in an operation behind it: what the operation works on, which fake
quantization that is, which comes in place of both, and the type of the operation. -/
structure TakesIn [Scalar α] (before : Graph α) (id : NodeId) (after : Graph α)
    (operand : ConstantOperand α) (quantizer fused : NodeId) (type : ElementType) : Prop where
  isOperand : before.constantOperand? id = some operand
  isQuantizer : before.quantizerBehind? operand = some quantizer
  isType : before.elementType? id = some type
  input?_eq : ∀ reader slot index, before.input? reader slot = some ⟨id, index⟩ →
    after.input? reader slot = some ⟨fused, index⟩

/-- Before, the operation gives what it makes of the value that is handed on to it. After, the
fake quantization gives what the operation makes of the value that is not handed on, rounded
where the type of the operation is integral. Where that is the same, all other values stay. -/
structure FusesValues [Scalar α] (before : Graph α) (id : NodeId) (op : BinaryOp) (after : Graph α)
    (operand : ConstantOperand α) (quantizer fused : NodeId) (type : ElementType)
    (feeds values : Assignment α) (quantized handed result direct : NDArray α) : Prop where
  quantized_eq : values quantizer = some quantized
  handsOn : before.HandsOn quantizer operand.data.node quantized handed
  result_eq : values id = some result
  isResult : NDArray.combine op handed operand.tensor.values = .ok result
  isDirect : NDArray.combine op quantized operand.tensor.values = .ok direct
  hasFused : after.HasValue feeds fused (direct.settle type.isIntegral)
  keeps : result = direct.settle type.isIntegral →
    ∃ values', after.evaluate feeds = .ok values' ∧
      ∀ other, before.contains other = true → after.contains other = true →
        values' other = values other

end Graph

namespace Transformation

open QuantGraph.Graph Revision

/-- The rules that take operations into the output limits of fake quantizations. -/
def fusions : List (Rule × BinaryOp) :=
  [(.fuseMultiplyToFakeQuantize, .multiply), (.fuseSubtractToFakeQuantize, .subtract)]

section Exact

variable {registry : Registry} {policy : Policy} {id : NodeId} {rule : Rule} {op : BinaryOp}
  {state after : RunState Rat}

theorem fusesOutputLimits_of_runOn (member : (rule, op) ∈ fusions)
    (wellFormed : state.graph.WellFormed) (kind : state.graph.kind? id = some rule.matchedKind)
    (ran : (Transformation.apply ⟨rule, policy⟩ registry id).runOn state = (.ok true, after)) :
    state.graph.FusesOutputLimits id op after.graph ∧
      state.graph.op? id = some (Op.elementwise op) ∧
      ∀ operand, state.graph.constantOperand? id = some operand →
        operand.slot = 0 ∨ ∀ left right : Rat, op.apply left right = op.apply right left := by
  obtain ⟨node, present, kind_eq⟩ := Option.map_eq_some_iff.mp kind
  simp only [fusions, List.mem_cons, Prod.mk.injEq, List.not_mem_nil, or_false] at member
  rw [op?, present, Option.map_some, Option.some.injEq]
  rcases member with ⟨rfl, rfl⟩ | ⟨rfl, rfl⟩
  · obtain ⟨_, fuses, _⟩ := (@ensures_apply Rat _ state registry id
      ⟨.fuseMultiplyToFakeQuantize, policy⟩ _ wellFormed .refl kind OpKind.noConfusion).of_runOn ran
    exact ⟨fuses, Op.eq_elementwise .multiply kind_eq, fun _ _ => Or.inr mul_comm⟩
  · obtain ⟨_, ⟨fuses, operand, isOperand, slot⟩, _⟩ := (@ensures_apply Rat _ state registry id
      ⟨.fuseSubtractToFakeQuantize, policy⟩ _ wellFormed .refl kind OpKind.noConfusion).of_runOn ran
    refine ⟨fuses, Op.eq_elementwise .subtract kind_eq, fun other isOther => ?_⟩
    cases Option.some.inj (isOperand.symm.trans isOther)
    exact Or.inl slot

/-- Where a fake quantization takes in a product or a difference, a Convert in between goes. What
read the operation comes to read what the operation makes of the value in front of the Convert,
rounded where the type of the operation is integral. Nothing else changes where that is what the
operation gave. -/
theorem exists_values_of_fusion (member : (rule, op) ∈ fusions)
    (wellFormed : state.graph.WellFormed) (kind : state.graph.kind? id = some rule.matchedKind)
    (real : state.graph.QuantizesReal id)
    (ran : (Transformation.apply ⟨rule, policy⟩ registry id).runOn state = (.ok true, after)) :
    ∃ operand quantizer fused type,
      state.graph.TakesIn id after.graph operand quantizer fused type ∧
      ∀ feeds values, state.graph.evaluate feeds = .ok values →
        ∃ quantized handed result direct, state.graph.FusesValues id op after.graph operand
          quantizer fused type feeds values quantized handed result direct := by
  obtain ⟨taken, isOp, ordered⟩ := fusesOutputLimits_of_runOn member wellFormed kind ran
  obtain ⟨operand, quantizer, found, low, high, fused, withLow, withHigh, withFused, fuses⟩ :=
    taken.exists_fuses
  refine ⟨operand, quantizer, fused, found.precision, ⟨fuses.isOperand, fuses.isQuantizer,
    fuses.isType, fun _ _ _ => fuses.refits.input?_eq wellFormed⟩, fun feeds values evaluated => ?_⟩
  obtain ⟨result, isResult, _⟩ := evaluateNode_of_evaluate evaluated (contains_of_kind? kind)
  have hasResult := hasValue_of_evaluate evaluated isResult
  obtain ⟨handed, hasHanded, combined⟩ := exists_combine (wellFormed.exact id) isOp
    fuses.isOperand (ordered operand fuses.isOperand) hasResult
  obtain ⟨quantized, hasQuantized, handsOn⟩ := exists_handsOn fuses.isQuantizer hasHanded
  obtain ⟨direct, isDirect⟩ := handsOn.exists_combine combined
  have hasFused := fuses.hasValue_added wellFormed
    (quantizesUnrounded_of_isReal (fuses.isReal real)) (fun _ enough => Interval.movesLevels op enough) hasQuantized isDirect
  exact ⟨quantized, handed, result, direct,
    { quantized_eq := hasQuantized.value_eq evaluated
      handsOn := handsOn
      result_eq := isResult
      isResult := combined
      isDirect := isDirect
      hasFused := fuses.replaces.hasValue hasFused fuses.replaces.apart
        (fuses.refits.new_live wellFormed (contains_of_kind? kind))
      keeps := fun same =>
        fuses.refits.exists_evaluate wellFormed hasFused (same ▸ hasResult) evaluated }⟩

end Exact

/-- A quantized input, cut off to integers and doubled. -/
def doubledIntegers : List (Draft Rat) :=
  let low := (NodeId.mk 1).output
  let high := (NodeId.mk 2).output
  [{ op := .parameter, name := "input"
     declared := some { elementType := .f32, shape := [1] } },
    (Op.constant (.scalar .f32 0)).draft "low",
    (Op.constant (.scalar .f32 (255 / 2))).draft "high",
    ((Op.fakeQuantize 256).draft "quantized").readOutputs
      [(NodeId.mk 0).output, low, high, low, high],
    ((Op.convert .u8).draft "truncated").readAll [NodeId.mk 3],
    (Op.constant (.scalar .f32 2)).draft "two",
    (Op.multiply.draft "doubled").readAll [NodeId.mk 4, NodeId.mk 5],
    (Op.result.draft "output").readAll [NodeId.mk 6]]

set_option synthInstance.maxSize 512 in
/-- The product of what is cut off and two gives way to a fake quantization. -/
theorem exists_values_doubledIntegers :
    ∃ (graph : Graph Rat) (after : RunState Rat) (feeds values : Assignment Rat),
      Graph.empty.addAll doubledIntegers = .ok graph ∧
      (Rule.fuseMultiplyToFakeQuantize, BinaryOp.multiply) ∈ fusions ∧ graph.WellFormed ∧
      graph.kind? (NodeId.mk 6) = some .multiply ∧ graph.QuantizesReal (NodeId.mk 6) ∧
      (Transformation.apply ⟨.fuseMultiplyToFakeQuantize, {}⟩ (.all {}) (NodeId.mk 6)).runOn
        (.ofGraph graph) = (.ok true, after) ∧ graph.evaluate feeds = .ok values ∧
      ∃ operand quantizer fused type,
        graph.TakesIn (NodeId.mk 6) after.graph operand quantizer fused type ∧
        ∃ quantized handed result direct, graph.FusesValues (NodeId.mk 6) .multiply after.graph
          operand quantizer fused type feeds values quantized handed result direct := by
  let feeds : Assignment Rat := Assignment.none.set (NodeId.mk 0) (.replicate [1] (3 / 2))
  have ordered : ∀ draft ∈ doubledIntegers, draft.IsInOrder := by decide
  have made : (Graph.empty.addAll doubledIntegers).map (fun graph =>
      (graph.kind? (NodeId.mk 6), decide (graph.QuantizesReal (NodeId.mk 6)),
        ((Transformation.apply ⟨.fuseMultiplyToFakeQuantize, {}⟩ (.all {}) (NodeId.mk 6)).runOn
          (.ofGraph graph)).1,
        (graph.evaluate feeds).map fun values => (values (NodeId.mk 6)).map NDArray.toList)) =
      .ok (some .multiply, true, .ok true, .ok (some [2])) := by decide +kernel
  obtain ⟨graph, added, facts⟩ := Outcome.map_eq_ok.mp made
  simp only [Prod.mk.injEq] at facts
  obtain ⟨kind, real, changed, valued⟩ := facts
  obtain ⟨values, evaluated, _⟩ := Outcome.map_eq_ok.mp valued
  have wellFormed := Graph.wellFormed_empty.addAll ordered added
  have member : (Rule.fuseMultiplyToFakeQuantize, BinaryOp.multiply) ∈ fusions := by decide
  have ran : (Transformation.apply ⟨.fuseMultiplyToFakeQuantize, {}⟩ (.all {})
      (NodeId.mk 6)).runOn (.ofGraph graph) = (.ok true, _) := Prod.ext changed rfl
  have real := of_decide_eq_true real
  obtain ⟨operand, quantizer, fused, type, takesIn, fusesValues⟩ :=
    exists_values_of_fusion member wellFormed kind real ran
  exact ⟨graph, _, feeds, values, added, member, wellFormed, kind, real, ran, evaluated, operand,
    quantizer, fused, type, takesIn, fusesValues feeds values evaluated⟩

/-- Two numbers, cut off to integers, doubled, and then averaged. -/
def averagedIntegers : List (Draft Rat) :=
  [{ op := .parameter, name := "input"
     declared := some { elementType := .f32, shape := [1, 1, 1, 2] } },
    ((Op.convert .u8).draft "truncated").readAll [NodeId.mk 0],
    (Op.constant (.scalar .f32 2)).draft "two",
    (Op.multiply.draft "doubled").readAll [NodeId.mk 1, NodeId.mk 2],
    (((Op.avgPool { height := 1, width := 2 }).draft "pooled").relax).readAll [NodeId.mk 3],
    (Op.result.draft "output").readAll [NodeId.mk 4]]

/-- A number, cut off to an integer that a constant is multiplied by, and then rectified. -/
def rectifiedIntegers : List (Draft Rat) :=
  [{ op := .parameter, name := "input"
     declared := some { elementType := .f32, shape := [1] } },
    ((Op.convert .i8).draft "truncated").readAll [NodeId.mk 0],
    (Op.constant (.scalar .f32 2)).draft "two",
    (Op.multiply.draft "doubled").readAll [NodeId.mk 2, NodeId.mk 1],
    (Op.relu.draft "rectified").readAll [NodeId.mk 3],
    (Op.result.draft "output").readAll [NodeId.mk 4]]

/-- In a graph with a Convert to an integral type, a rule tells of a change after which the
results are others. -/
def ChangesResults (drafts : List (Draft Rat)) (convert id : NodeId) (rule : Rule)
    (feeds : Assignment Rat) (earlier later : List (List Rat)) : Prop :=
  ∃ graph after, Graph.empty.addAll drafts = .ok graph ∧ graph.WellFormed ∧
    (∃ destination, graph.op? convert = some (.convert destination) ∧
      destination.isIntegral = true) ∧
    graph.kind? id = some rule.matchedKind ∧
    (Transformation.apply ⟨rule, {}⟩ (.all {}) id).runOn (.ofGraph graph) = (.ok true, after) ∧
    (graph.evaluateResults feeds).map (List.map NDArray.toList) = .ok earlier ∧
    (after.graph.evaluateResults feeds).map (List.map NDArray.toList) = .ok later ∧ earlier ≠ later

theorem changesResults_of_values {drafts : List (Draft Rat)} {convert id : NodeId} {rule : Rule}
    {feeds : Assignment Rat} {earlier later : List (List Rat)} {destination : ElementType}
    (ordered : ∀ draft ∈ drafts, draft.IsInOrder)
    (made : (Graph.empty.addAll drafts).map (fun graph =>
      let applied := (Transformation.apply ⟨rule, {}⟩ (.all {}) id).runOn (.ofGraph graph)
      ((graph.op? convert), graph.kind? id, applied.1,
        (graph.evaluateResults feeds).map (List.map NDArray.toList),
        (applied.2.graph.evaluateResults feeds).map (List.map NDArray.toList))) =
      .ok (some (.convert destination), some rule.matchedKind, .ok true, .ok earlier, .ok later))
    (integral : destination.isIntegral = true) (different : earlier ≠ later) :
    ChangesResults drafts convert id rule feeds earlier later := by
  obtain ⟨graph, added, facts⟩ := Outcome.map_eq_ok.mp made
  simp only [Prod.mk.injEq] at facts
  obtain ⟨isConvert, kind, changed, before, after⟩ := facts
  exact ⟨graph, _, added, Graph.wellFormed_empty.addAll ordered added,
    ⟨destination, isConvert, integral⟩, kind, Prod.ext changed rfl, before, after, different⟩

set_option synthInstance.maxSize 512 in
/-- A Convert that cuts numbers off is dropped in front of a product that a fake quantization
takes in, and in a chain that moves behind a Relu when the product is no integer by its type.
Behind a mean it is put again, where it cuts off the mean. -/
theorem changesResults_behind_truncation :
    ChangesResults doubledIntegers (NodeId.mk 4) (NodeId.mk 6) .fuseMultiplyToFakeQuantize
        (Assignment.none.set (NodeId.mk 0) (.replicate [1] (3 / 2))) [[2]] [[3]] ∧
      ChangesResults averagedIntegers (NodeId.mk 1) (NodeId.mk 4) .avgPool
        (Assignment.none.set (NodeId.mk 0)
          { shape := [1, 1, 1, 2], data := #[3 / 2, 1 / 2], size_data := rfl }) [[1]] [[2]] ∧
      ChangesResults rectifiedIntegers (NodeId.mk 1) (NodeId.mk 4) .relu
        (Assignment.none.set (NodeId.mk 0) (.replicate [1] (3 / 2))) [[2]] [[3]] := by
  refine ⟨?_, ?_, ?_⟩
  · exact @changesResults_of_values _ _ _ _ _ _ _ .u8 (by decide) (by decide +kernel) (by decide) (by decide)
  · exact @changesResults_of_values _ _ _ _ _ _ _ .u8 (by decide) (by decide +kernel) (by decide) (by decide)
  · exact @changesResults_of_values _ _ _ _ _ _ _ .i8 (by decide) (by decide +kernel) (by decide) (by decide)

end Transformation

end QuantGraph
