import Mathlib
import QuantGraph.Proofs.NDArray.Broadcasting
import QuantGraph.Proofs.Revision.Success
import QuantGraph.Proofs.Rules.MovedValues

/-! The values of a graph in which operations on constants have been regrouped. The constants of two
operations, which met the data one after the other, are folded with each other. That they can be, and
that the result has the shape that it had, are laws of broadcasting; that it has the elements that it
had is arithmetic. -/

namespace QuantGraph

namespace Graph

variable {graph before middle after : Graph α} {id multiply : NodeId}

/-! ## Two operations on constants -/

theorem eq_of_reads_once {left right : NodeId} (once : graph.consumerCount id = 1)
    (first : graph.Reads id left) (second : graph.Reads id right) : left = right := by
  obtain ⟨only, listed⟩ := List.length_eq_one_iff.mp once
  have same {edge : Edge} (member : edge ∈ graph.edges) (source : edge.source.node = id) :
      edge = only := by
    have outgoing := mem_outgoing.mpr ⟨member, source⟩
    rw [listed] at outgoing
    exact List.mem_singleton.mp outgoing
  obtain ⟨edge, member, source, rfl⟩ := first
  obtain ⟨edge', member', source', rfl⟩ := second
  rw [same member source, same member' source']

/-- A node applies an operation to a constant and to what another operation on a constant gives. A
constant on the left is only accepted by an operation that may be applied either way round. -/
structure Nests [Scalar α] (graph : Graph α) (id : NodeId) (inner outer : BinaryOp)
    (first second : ConstantOperand α) : Prop where
  outer_eq : graph.kind? id = some (Op.elementwise outer : Op α).kind
  isSecond : graph.constantOperand? id = some second
  outerOrder : second.slot = 0 ∨ ∀ left right : α, outer.apply left right = outer.apply right left
  inner_eq : graph.kind? second.data.node = some (Op.elementwise inner : Op α).kind
  isFirst : graph.constantOperand? second.data.node = some first
  innerOrder : first.slot = 0 ∨ ∀ left right : α, inner.apply left right = inner.apply right left

/-- The Multiply of the dequantization on which an operation on a constant works. -/
theorem exists_scaled (wellFormed : graph.WellFormed) {operand : ConstantOperand α}
    (isOperand : graph.constantOperand? id = some operand)
    (present : (graph.dequantization id operand.slot).multiply = some multiply) :
    multiply = operand.data.node ∧ graph.kind? operand.data.node = some .multiply ∧
      ∃ first, graph.constantOperand? operand.data.node = some first ∧
        (graph.dequantization id operand.slot).scale? graph = some first.tensor := by
  obtain ⟨_, _, isChain⟩ := isChain_dequantization (constantOperand?_eq_some isOperand).2.2.1
  obtain ⟨rfl, first, isKind, reads, _, scale_eq⟩ := isChain.exists_multiplied wellFormed present
  exact ⟨rfl, isKind, first, (constantOperand?_eq_some_iff (wellFormed.exact _)).mpr reads, scale_eq⟩

section Patterns

variable [Scalar α]

theorem exists_nests_of_multiplyPair (commutes : ∀ left right : α, left * right = right * left)
    (wellFormed : graph.WellFormed) (kind : graph.kind? id = some .multiply)
    (scaled : graph.scaledOperand? id = some multiply) {found : MultiplyPair α}
    (present : graph.multiplyPair? multiply = some found) :
    found.next = id ∧ ∃ first second, graph.Nests id .multiply .multiply first second ∧
      found.data = first.data ∧ found.left = first.tensor ∧ found.right = second.tensor := by
  obtain ⟨operand, isOperand, isMultiply⟩ := scaledOperand?_eq_some scaled
  obtain ⟨rfl, isKind, _⟩ := exists_scaled wellFormed isOperand isMultiply
  obtain ⟨first, second, _, once, isFirst, _, reads, _, isSecond, _, _, data_eq, left_eq, right_eq, _⟩ :=
    multiplyPair?_eq_some present
  have next_eq : found.next = id :=
    eq_of_reads_once once reads (reads_data_of_constantOperand? isOperand)
  rw [next_eq] at isSecond
  cases Option.some.inj (isOperand.symm.trans isSecond)
  exact ⟨next_eq, first, operand,
    ⟨kind, isOperand, Or.inr commutes, isKind, isFirst, Or.inr commutes⟩, data_eq, left_eq, right_eq⟩

theorem exists_nests_of_invertibleBranch
    (adds : ∀ left right : α, left + right = right + left)
    (commutes : ∀ left right : α, left * right = right * left) (wellFormed : graph.WellFormed)
    (kind : graph.kind? id = some .add) {branch : Nat}
    (present : graph.invertibleBranch? id = some branch) :
    ∃ first second, graph.Nests id .multiply .add first second ∧ branch = second.slot ∧
      ∀ value ∈ first.tensor.toList, Scalar.differs value 0 = true := by
  obtain ⟨second, _, scale, isSecond, isMultiply, _, isScale, differs, branch_eq⟩ :=
    invertibleBranch?_eq_some present
  obtain ⟨rfl, isKind, first, isFirst, scale_eq⟩ := exists_scaled wellFormed isSecond isMultiply
  cases Option.some.inj (isScale.symm.trans scale_eq)
  exact ⟨first, second, ⟨kind, isSecond, Or.inr adds, isKind, isFirst, Or.inr commutes⟩, branch_eq,
    differs⟩

theorem exists_nests_of_shiftedProduct (commutes : ∀ left right : α, left * right = right * left)
    (kind : graph.kind? id = some .multiply) {found : ShiftedProduct α}
    (present : graph.shiftedProduct? id = some found) :
    ∃ first second, graph.Nests id .subtract .multiply first second ∧ found.data = first.data ∧
      found.shift = first.tensor ∧ found.scale = second.constant ∧
      found.scaleTensor = second.tensor := by
  obtain ⟨second, first, isSecond, isKind, _, isFirst, slot, _, _, data_eq, scale_eq, tensor_eq,
    shift_eq⟩ := shiftedProduct?_eq_some present
  exact ⟨first, second, ⟨kind, isSecond, Or.inr commutes, isKind, isFirst, Or.inl slot⟩, data_eq,
    shift_eq, scale_eq, tensor_eq⟩

/-- The parts of a sum are those that were found before. -/
theorem Nests.scaledSum_eq {first second : ConstantOperand α}
    (nests : graph.Nests id .multiply .add first second) :
    graph.scaledSum id second.slot = .ok ⟨first.data, first.constant, first.tensor, second.tensor⟩ := by
  obtain ⟨_, bound, readData, ⟨slot, readConstant⟩, isConstant, _⟩ :=
    constantOperand?_eq_some nests.isSecond
  have isKind : graph.isKind second.data.node .multiply = true := isKind_iff.mpr nests.inner_eq
  have isData : graph.inputNode? id second.slot = some second.data.node := by
    rw [inputNode?, readData]
    rfl
  have isBias : graph.inputNode? id (1 - min second.slot 1) = some second.constant := by
    rw [min_eq_left bound, inputNode?, readConstant]
    rfl
  simp only [scaledSum, isData, isBias, Option.filter_some, isKind, if_true, nests.isFirst,
    Option.bind_some, isConstant]
  rfl

end Patterns

section Values

variable [Scalar α] {feeds values : Assignment α} {inner outer : BinaryOp}
  {first second : ConstantOperand α} {result : NDArray α}

/-- What two operations on constants give is computed from the data and the two constants. -/
theorem Nests.exists_spans (nests : graph.Nests id inner outer first second)
    (wellFormed : graph.WellFormed) (has : graph.HasValue feeds id result) :
    ∃ data, graph.HasValue feeds first.data.node data ∧ result.shape.IsAddressable ∧
      NDArray.Spans [data, first.tensor.values, second.tensor.values]
        (fun index => outer.apply (inner.apply (data.read index) (first.tensor.values.read index))
          (second.tensor.values.read index)) result := by
  obtain ⟨handed, hasHanded, combined⟩ := exists_combine (wellFormed.exact id)
    (op?_elementwise outer nests.outer_eq) nests.isSecond nests.outerOrder has
  obtain ⟨data, hasData, combined'⟩ := exists_combine (wellFormed.exact _)
    (op?_elementwise inner nests.inner_eq) nests.isFirst nests.innerOrder hasHanded
  exact ⟨data, hasData, (NDArray.combine_eq_ok.mp combined).2.1,
    ((NDArray.Spans.single data).combine (.single first.tensor.values) combined').combine
      (.single second.tensor.values) combined⟩

theorem hasValue_of_operand (wellFormed : graph.WellFormed) (all : graph.HasValues feeds)
    {operand : ConstantOperand α} (isOperand : graph.constantOperand? id = some operand) :
    graph.HasValue feeds operand.constant operand.tensor.values := by
  have reads := reads_constant_of_constantOperand? isOperand
  obtain ⟨value, has⟩ := all operand.constant (wellFormed.consistent.reads_live reads).1
  rw [← has.eq_of_constant (constantOperand?_eq_some isOperand).2.2.2.2.1]
  exact has

/-- What is made of a product behind a Convert is computed from the data in front of it. -/
theorem exists_combine_converted (commutes : ∀ left right : α, left * right = right * left)
    (wellFormed : graph.WellFormed) (kind : graph.kind? id = some .multiply)
    {found : ConvertedProduct} (present : graph.convertedProduct? id = some found)
    (has : graph.HasValue feeds id result) :
    ∃ operand destination data, graph.constantOperand? id = some operand ∧
      found.constant = operand.constant ∧ graph.op? operand.data.node = some (.convert destination) ∧
      graph.HasValue feeds found.data.node data ∧
      NDArray.combine .multiply (data.map destination.convert) operand.tensor.values = .ok result := by
  obtain ⟨operand, isOperand, isConvert, _, _, _, read, _, constant_eq⟩ :=
    convertedProduct?_eq_some present
  obtain ⟨converted, hasConverted, combined⟩ := exists_combine (wellFormed.exact id)
    (op?_elementwise .multiply kind) isOperand (Or.inr commutes) has
  obtain ⟨op, isOp, op_kind⟩ :=
    Option.map_eq_some_iff.mp ((kind?_eq_map_op? _ _).symm.trans isConvert)
  obtain ⟨destination, rfl⟩ := Op.exists_eq_convert op_kind
  obtain ⟨data, hasData, rfl⟩ := hasConverted.exists_converted (wellFormed.exact _) isOp read
  exact ⟨operand, destination, data, isOperand, constant_eq, isOp, hasData, combined⟩

/-- What is built of nodes with values has the value that the operation makes of them. -/
theorem Adds.hasValue_elementwise {draft : Draft α} {left right : Output} {new : NodeId}
    {leftValue rightValue : NDArray α} (binary : BinaryOp)
    (adds : before.Adds draft [left, right] new after) (isOp : draft.op = Op.elementwise binary)
    (consistent : before.IsConsistent) (hasLeft : before.HasValue feeds left.node leftValue)
    (hasRight : before.HasValue feeds right.node rightValue)
    (combined : NDArray.combine binary leftValue rightValue = .ok result) :
    after.HasValue feeds new result := by
  obtain ⟨type, _, found⟩ := adds.node_new
  refine hasValue_iff.mpr ⟨_, [leftValue, rightValue], found, ?_, ?_⟩
  · rw [adds.inputs_new]
    exact .cons (adds.grows.hasValue consistent hasLeft)
      (.cons (adds.grows.hasValue consistent hasRight) .nil)
  · change draft.op.evaluate _ _ _ = _
    rw [isOp, Op.evaluate_elementwise binary rfl rfl, combined]
    rfl

end Values

/-! ## The values behind the rewrites -/

section Exact

variable {before after : Graph Rat} {feeds values : Assignment Rat} {result : NDArray Rat}
  {branch : Nat} {merged product : NodeId}

private theorem scaled_add (value addend : Rat) {scale : Rat} (nonzero : scale ≠ 0) :
    value * scale + addend = (value + addend / scale) * scale := by
  rw [add_mul, div_mul_cancel₀ _ nonzero]

private theorem shifted_mul (value shift scale : Rat) :
    (value - shift) * scale = value * scale + -shift * scale := by
  ring

/-- `(x * a) * b` and `x * (a * b)`. -/
theorem MergesMultiplies.exists_givesPlace (merges : before.MergesMultiplies multiply merged after)
    (scaled : before.scaledOperand? id = some multiply) (wellFormed : before.WellFormed)
    (kind : before.kind? id = some .multiply) (evaluated : before.evaluate feeds = .ok values)
    (isValue : values id = some result) :
    ∃ data, before.GivesPlace id data merged after feeds values := by
  obtain ⟨found, folded, constant, withConstant, withMerged, present, folds, addsConstant, adds,
    replaces⟩ := merges
  obtain ⟨next_eq, first, second, nests, data_eq, left_eq, right_eq⟩ :=
    exists_nests_of_multiplyPair mul_comm wellFormed kind scaled present
  rw [left_eq, right_eq] at folds
  rw [next_eq] at replaces
  obtain ⟨data, hasData, addressable, spans⟩ :=
    nests.exists_spans wellFormed (hasValue_of_evaluate evaluated isValue)
  obtain ⟨regrouped, combined, spans'⟩ := (NDArray.Spans.single data).exists_combine .multiply
    ((NDArray.Spans.single first.tensor.values).combine (.single second.tensor.values)
      (Tensor.values_of_combine folds)) addressable spans.stretches
  have same : result = regrouped := spans.eq spans' (fun _ => Iff.rfl) fun _ _ => mul_assoc _ _ _
  have grows : before.GrowsWith feeds found.data.node found.data.node data withConstant :=
    (GrowsWith.refl wellFormed (hasValues_of_evaluate evaluated) (data_eq ▸ hasData)).beside
      addsConstant
  have has := adds.hasValue_elementwise .multiply (by cases found.precision <;> rfl)
    grows.wellFormed.consistent grows.has (addsConstant.hasValue_constant feeds) combined
  exact ⟨_, grows.givesPlace_of_adds wellFormed adds ⟨found.data, by simp, rfl⟩ (same ▸ has) replaces
    evaluated isValue⟩

/-- `x * a + b` and `(x + b / a) * a`. -/
theorem SwapsMultiplyAndAdd.exists_givesPlace
    (swaps : before.SwapsMultiplyAndAdd id branch product after)
    (invertible : before.invertibleBranch? id = some branch) (wellFormed : before.WellFormed)
    (kind : before.kind? id = some .add) (evaluated : before.evaluate feeds = .ok values)
    (isValue : values id = some result) :
    ∃ data, before.GivesPlace id data product after feeds values := by
  obtain ⟨found, bias, precision, constant, sum, withConstant, withSum, withProduct, present, folds,
    _, addsConstant, addsSum, addsProduct, replaces⟩ := swaps
  obtain ⟨first, second, nests, rfl, differs⟩ :=
    exists_nests_of_invertibleBranch add_comm mul_comm wellFormed kind invertible
  cases Except.ok.inj (nests.scaledSum_eq.symm.trans present)
  obtain ⟨data, hasData, addressable, spans⟩ :=
    nests.exists_spans wellFormed (hasValue_of_evaluate evaluated isValue)
  obtain ⟨dataStretches, firstStretches, secondStretches⟩ := spans.stretch_three
  obtain ⟨shifted, isShifted, spansShifted⟩ := (NDArray.Spans.single data).exists_combine .add
    ((NDArray.Spans.single second.tensor.values).combine (.single first.tensor.values)
      (Tensor.values_of_combine folds)) addressable
    (by simp [dataStretches, firstStretches, secondStretches])
  obtain ⟨regrouped, combined, spans'⟩ := spansShifted.exists_combine .multiply
    (.single first.tensor.values) addressable
    (by simp [dataStretches, firstStretches, secondStretches])
  have same : result = regrouped := by
    refine spans.eq spans' (fun _ => by simp only [List.cons_append, List.nil_append,
      List.mem_cons, List.not_mem_nil]; tauto) fun index holds => ?_
    have nonzero : first.tensor.values.read index ≠ 0 := by
      have member := NDArray.read_mem_toList firstStretches holds
      exact bne_iff_ne.mp (differs _ member)
    exact scaled_add (data.read index) (second.tensor.values.read index) nonzero
  have all := hasValues_of_evaluate evaluated
  have grows : before.GrowsWith feeds first.data.node first.data.node data withConstant :=
    (GrowsWith.refl wellFormed all hasData).beside addsConstant
  have hasSum := addsSum.hasValue_elementwise .add rfl grows.wellFormed.consistent grows.has
    (addsConstant.hasValue_constant feeds) isShifted
  have growsSum := grows.extend addsSum ⟨first.data, by simp, rfl⟩ hasSum
  have has := addsProduct.hasValue_elementwise .multiply rfl growsSum.wellFormed.consistent
    growsSum.has (growsSum.grows.hasValue wellFormed.consistent
      (hasValue_of_operand wellFormed all nests.isFirst)) combined
  exact ⟨_, growsSum.givesPlace_of_adds wellFormed addsProduct ⟨sum.output, by simp, rfl⟩
    (same ▸ has) replaces evaluated isValue⟩

/-- `(x - z) * s` and `x * s + (-z * s)`. -/
theorem DistributesScale.exists_givesPlace (distributes : before.DistributesScale id after)
    (wellFormed : before.WellFormed) (kind : before.kind? id = some .multiply)
    (evaluated : before.evaluate feeds = .ok values) (isValue : values id = some result) :
    ∃ data tail, before.GivesPlace id data tail after feeds values := by
  obtain ⟨found, bias, scaled, constant, sum, withScaled, withConstant, withSum, present, folds,
    addsScaled, addsConstant, addsSum, replaces⟩ := distributes
  obtain ⟨first, second, nests, data_eq, shift_eq, scale_eq, tensor_eq⟩ :=
    exists_nests_of_shiftedProduct mul_comm kind present
  rw [shift_eq, tensor_eq] at folds
  obtain ⟨data, hasData, addressable, spans⟩ :=
    nests.exists_spans wellFormed (hasValue_of_evaluate evaluated isValue)
  obtain ⟨dataStretches, firstStretches, secondStretches⟩ := spans.stretch_three
  obtain ⟨product, isProduct, spansProduct⟩ := (NDArray.Spans.single data).exists_combine .multiply
    (.single second.tensor.values) addressable (by simp [dataStretches, secondStretches])
  obtain ⟨regrouped, combined, spans'⟩ := spansProduct.exists_combine .add
    ((NDArray.Spans.map first.tensor.values (- ·)).combine (.single second.tensor.values)
      (Tensor.values_of_combine folds)) addressable
    (by simp [dataStretches, firstStretches, secondStretches])
  have same : result = regrouped := by
    refine spans.eq spans' (fun _ => by simp only [List.cons_append, List.nil_append,
      List.mem_cons, List.not_mem_nil]; tauto) fun index _ => ?_
    exact shifted_mul (data.read index) (first.tensor.values.read index)
      (second.tensor.values.read index)
  have all := hasValues_of_evaluate evaluated
  rw [← data_eq] at hasData
  have hasScaled := addsScaled.hasValue_elementwise .multiply rfl wellFormed.consistent hasData
    (scale_eq ▸ hasValue_of_operand wellFormed all nests.isSecond) isProduct
  have growsScaled := ((GrowsWith.refl wellFormed all hasData).extend addsScaled
    ⟨found.data, by simp, rfl⟩ hasScaled).beside addsConstant
  have has := addsSum.hasValue_elementwise .add rfl growsScaled.wellFormed.consistent
    growsScaled.has (addsConstant.hasValue_constant feeds) combined
  exact ⟨_, sum, growsScaled.givesPlace_of_adds wellFormed addsSum ⟨scaled.output, by simp, rfl⟩
    (same ▸ has) replaces evaluated isValue⟩

/-- The Convert on which a product with a constant works converts to real numbers. -/
def ConvertsToReal (graph : Graph Rat) (id : NodeId) : Prop :=
  ∀ operand ∈ graph.constantOperand? id,
    ∀ type ∈ (graph.op? operand.data.node).bind Op.destination?, type.isReal = true

instance (graph : Graph Rat) (id : NodeId) : Decidable (graph.ConvertsToReal id) :=
  inferInstanceAs (Decidable (∀ operand ∈ graph.constantOperand? id,
    ∀ type ∈ (graph.op? operand.data.node).bind Op.destination?, type.isReal = true))

theorem FusesConvert.exists_givesPlace (fuses : before.FusesConvert id after)
    (wellFormed : before.WellFormed) (kind : before.kind? id = some .multiply)
    (real : before.ConvertsToReal id) (evaluated : before.evaluate feeds = .ok values)
    (isValue : values id = some result) :
    ∃ data tail, before.GivesPlace id data tail after feeds values := by
  obtain ⟨found, fused, withFused, present, adds, replaces⟩ := fuses
  obtain ⟨operand, destination, data, isOperand, constant_eq, isConvert, hasData, combined⟩ :=
    exists_combine_converted mul_comm wellFormed kind present (hasValue_of_evaluate evaluated isValue)
  rw [map_convert_of_isReal (real operand isOperand destination (by rw [isConvert]; rfl))] at combined
  have all := hasValues_of_evaluate evaluated
  have has := adds.hasValue_elementwise .multiply rfl wellFormed.consistent hasData
    (constant_eq ▸ hasValue_of_operand wellFormed all isOperand) combined
  exact ⟨_, fused, (GrowsWith.refl wellFormed all hasData).givesPlace_of_adds wellFormed adds
    ⟨found.data, by simp, rfl⟩ has replaces evaluated isValue⟩

end Exact

end Graph

/-! ## Rewrites that do not give up -/

namespace Graph

section Alignment

variable [Scalar α] {graph : Graph α} {feeds values : Assignment α} {id : NodeId}
  {inner outer : BinaryOp} {first second : ConstantOperand α} {result : NDArray α}

theorem HasDeclaredShapes.exists_stretches (declared : graph.HasDeclaredShapes values)
    (evaluated : graph.evaluate feeds = .ok values) {value : NDArray α} {target : Shape}
    (has : graph.HasValue feeds id value) (stretches : value.shape.StretchesTo target) :
    ∃ shape, graph.shape? id = some shape ∧ shape.StretchesTo target :=
  ⟨value.shape, (declared id value (has.value_eq evaluated)).1, stretches⟩

/-- Data and constants of two operations, and what they give, stretch to the shape of the latter. -/
theorem Nests.aligns (nests : graph.Nests id inner outer first second)
    (wellFormed : graph.WellFormed) (evaluated : graph.evaluate feeds = .ok values)
    (declared : graph.HasDeclaredShapes values) (isValue : values id = some result) :
    result.shape.IsAddressable ∧ first.tensor.shape.StretchesTo result.shape ∧
      second.tensor.shape.StretchesTo result.shape ∧
      graph.Aligns result.shape [id, first.data.node, first.constant, second.constant] := by
  have has := hasValue_of_evaluate evaluated isValue
  obtain ⟨data, hasData, addressable, spans⟩ := nests.exists_spans wellFormed has
  obtain ⟨dataStretches, firstStretches, secondStretches⟩ := spans.stretch_three
  refine ⟨addressable, firstStretches, secondStretches, wellFormed, ?_⟩
  simp only [List.forall_mem_cons, List.not_mem_nil, false_imp_iff, implies_true, and_true]
  have all := hasValues_of_evaluate evaluated
  exact ⟨declared.exists_stretches evaluated has (Shape.stretchesTo_refl _),
    declared.exists_stretches evaluated hasData dataStretches,
    declared.exists_stretches evaluated (hasValue_of_operand wellFormed all nests.isFirst)
      firstStretches,
    declared.exists_stretches evaluated (hasValue_of_operand wellFormed all nests.isSecond)
      secondStretches⟩

end Alignment

end Graph

namespace GraphRevision

open QuantGraph.Graph Revision

variable [Scalar α] {graph : Graph α} {feeds values : Assignment α} {id : NodeId}
  {result : NDArray α}

section Succeeding

variable (commutes : ∀ left right : α, left * right = right * left) (wellFormed : graph.WellFormed)
  (evaluated : graph.evaluate feeds = .ok values) (declared : graph.HasDeclaredShapes values)
  (isValue : values id = some result)

include commutes wellFormed evaluated declared isValue

theorem mergeIntoMultiply_succeeds (kind : graph.kind? id = some .multiply) :
    (mergeIntoMultiply id).Ensures graph (fun _ => False) fun _ _ => True := by
  unfold mergeIntoMultiply
  rw [ensures_bind, ensures_get]
  split
  case h_1 => trivial
  case h_2 multiply scaled =>
    unfold mergeMultiplies
    simp only [ensures_bind, ensures_get]
    split
    case h_1 => trivial
    case h_2 found present =>
      obtain ⟨next_eq, first, second, nests, data_eq, left_eq, right_eq⟩ :=
        exists_nests_of_multiplyPair commutes wellFormed kind scaled present
      obtain ⟨addressable, firstStretches, secondStretches, aligns⟩ :=
        nests.aligns wellFormed evaluated declared isValue
      rw [← data_eq] at aligns
      have reads (constant : NodeId) : (((Op.multiply.draft found.name : Draft α).input found.data 0
          |>.input constant.output 1).withPrecision? found.precision).ReadsInOrder
            [found.data, constant.output] :=
        ⟨by cases found.precision <;> rfl, by simp⟩
      simp only [ensures_bind]
      refine ensures_foldedAligned (left_eq ▸ firstStretches) (right_eq ▸ secondStretches)
        addressable fun folded stretches => ?_
      refine ensures_addConstantAligned aligns stretches fun constant withConstant aligns => ?_
      refine ensures_addAligned .multiply aligns (reads constant)
        (by cases found.precision <;> rfl) (by cases found.precision <;> rfl)
        (by simp [NodeId.output]) fun merged withMerged aligns => ?_
      exact ensures_replaceAligned aligns (by simp [next_eq]) (by simp) fun _ => trivial

theorem factorOutScale_succeeds (adds : ∀ left right : α, left + right = right + left)
    (kind : graph.kind? id = some .add) :
    (factorOutScale id).Ensures graph (fun _ => False) fun _ _ => True := by
  unfold factorOutScale
  rw [ensures_bind, ensures_get]
  split
  case h_1 => trivial
  case h_2 branch present =>
    obtain ⟨first, second, nests, rfl, _⟩ :=
      exists_nests_of_invertibleBranch adds commutes wellFormed kind present
    obtain ⟨addressable, firstStretches, secondStretches, aligns⟩ :=
      nests.aligns wellFormed evaluated declared isValue
    obtain ⟨node, found⟩ := contains_eq_true_iff.mp (contains_of_kind? kind)
    have typed : graph.elementType? id = some node.elementType := by
      rw [elementType?, found, Option.map_some]
    unfold swapMultiplyAndAdd
    simp only [ensures_bind, ensures_get, nests.scaledSum_eq, typed]
    change Revision.Ensures _ graph _ _
    refine ensures_foldedAligned secondStretches firstStretches addressable
      fun folded stretches => ?_
    refine ensures_addConstantAligned aligns stretches fun constant withConstant aligns => ?_
    refine ensures_addAligned .add aligns ⟨rfl, by simp⟩ rfl rfl (by simp)
      fun sum withSum aligns => ?_
    refine ensures_addAligned .multiply aligns ⟨rfl, by simp⟩ rfl rfl (by simp)
      fun product withProduct aligns => ?_
    exact ensures_replaceAligned aligns (by simp) (by simp) fun _ => trivial

theorem distributeScale_succeeds (kind : graph.kind? id = some .multiply) :
    (distributeScale id).Ensures graph (fun _ => False) fun _ _ => True := by
  unfold distributeScale
  rw [ensures_bind, ensures_get]
  split
  case h_1 => trivial
  case h_2 found present =>
    obtain ⟨first, second, nests, data_eq, shift_eq, scale_eq, tensor_eq⟩ :=
      exists_nests_of_shiftedProduct commutes kind present
    obtain ⟨addressable, firstStretches, secondStretches, aligns⟩ :=
      nests.aligns wellFormed evaluated declared isValue
    rw [← data_eq, ← scale_eq] at aligns
    have negatedStretches : (found.shift.map (- ·)).shape.StretchesTo result.shape :=
      shift_eq ▸ firstStretches
    simp only [ensures_bind]
    refine ensures_foldedAligned negatedStretches (tensor_eq ▸ secondStretches) addressable
      fun folded stretches => ?_
    refine ensures_addAligned .multiply aligns ⟨rfl, by simp⟩ rfl rfl (by simp)
      fun product withProduct aligns => ?_
    refine ensures_addConstantAligned aligns stretches fun constant withConstant aligns => ?_
    refine ensures_addAligned .add aligns ⟨rfl, by simp⟩ rfl rfl (by simp)
      fun sum withSum aligns => ?_
    exact ensures_replaceAligned aligns (by simp) (by simp) fun _ => trivial

theorem fuseConvert_succeeds (kind : graph.kind? id = some .multiply) :
    (fuseConvert id).Ensures graph (fun _ => False) fun _ _ => True := by
  unfold fuseConvert
  rw [ensures_bind, ensures_get]
  split
  case h_1 => trivial
  case h_2 found present =>
    have has := hasValue_of_evaluate evaluated isValue
    obtain ⟨operand, destination, data, isOperand, constant_eq, _, hasData, combined⟩ :=
      exists_combine_converted commutes wellFormed kind present has
    obtain ⟨dataStretches, constantStretches⟩ := NDArray.stretchesTo_of_combine combined
    have hasConstant := hasValue_of_operand wellFormed (hasValues_of_evaluate evaluated) isOperand
    rw [← constant_eq] at hasConstant
    have aligns : graph.Aligns result.shape [id, found.data.node, found.constant] := by
      refine ⟨wellFormed, ?_⟩
      simp only [List.forall_mem_cons, List.not_mem_nil, false_imp_iff, implies_true, and_true]
      exact ⟨declared.exists_stretches evaluated has (Shape.stretchesTo_refl _),
        declared.exists_stretches evaluated hasData dataStretches,
        declared.exists_stretches evaluated hasConstant constantStretches⟩
    simp only [ensures_bind]
    refine ensures_addAligned .multiply aligns ⟨rfl, by simp⟩ rfl rfl (by simp)
      fun fused withFused aligns => ?_
    exact ensures_replaceAligned aligns (by simp) (by simp) fun _ => trivial

end Succeeding

end GraphRevision

/-! ## The rules -/

namespace Transformation

open QuantGraph.Graph Revision

/-- The rules that regroup operations on constants. -/
def regroupings : List Rule := [.add, .fuseConvert, .multiply, .subtractMultiplyToMultiplyAdd]

section Rules

variable {transformation : Transformation} {registry : Registry} {id : NodeId}
  {state : RunState Rat} {feeds values : Assignment Rat}

theorem apply_succeeds (member : transformation.rule ∈ regroupings)
    (wellFormed : state.graph.WellFormed)
    (kind : state.graph.kind? id = some transformation.matchedKind)
    (evaluated : state.graph.evaluate feeds = .ok values)
    (declared : state.graph.HasDeclaredShapes values) :
    (transformation.apply registry id).Ensures state (fun _ => False) fun _ _ => True := by
  obtain ⟨result, isValue, _⟩ := evaluateNode_of_evaluate evaluated (contains_of_kind? kind)
  obtain ⟨rule, policy⟩ := transformation
  simp only [regroupings, List.mem_cons, List.not_mem_nil, or_false] at member
  rcases member with rfl | rfl | rfl | rfl
  · exact RunRevision.ensures_onGraph.mpr (GraphRevision.factorOutScale_succeeds mul_comm wellFormed
      evaluated declared isValue add_comm kind)
  · exact RunRevision.ensures_onGraph.mpr
      (GraphRevision.fuseConvert_succeeds mul_comm wellFormed evaluated declared isValue kind)
  · exact RunRevision.ensures_onGraph.mpr
      (GraphRevision.mergeIntoMultiply_succeeds mul_comm wellFormed evaluated declared isValue kind)
  · exact RunRevision.ensures_onGraph.mpr
      (GraphRevision.distributeScale_succeeds mul_comm wellFormed evaluated declared isValue kind)

/-- Regrouping operations on constants succeeds wherever shapes are declared as they turn out, with
whatever shapes the constants have and on whichever side they stand. Where something has changed,
what read the node reads the same values behind another. -/
theorem exists_givesPlace_of_regrouping (member : transformation.rule ∈ regroupings)
    (wellFormed : state.graph.WellFormed)
    (kind : state.graph.kind? id = some transformation.matchedKind)
    (real : transformation.rule = .fuseConvert → state.graph.ConvertsToReal id)
    (evaluated : state.graph.evaluate feeds = .ok values)
    (declared : state.graph.HasDeclaredShapes values) :
    ∃ changed after, (transformation.apply registry id).runOn state = (.ok changed, after) ∧
      if changed then ∃ data tail, state.graph.GivesPlace id data tail after.graph feeds values
      else after = state := by
  obtain ⟨changed, after, ran, _⟩ :=
    (apply_succeeds member wellFormed kind evaluated declared).exists_runOn
  refine ⟨changed, after, ran, ?_⟩
  have not_result : transformation.matchedKind ≠ .result := by
    obtain ⟨rule, policy⟩ := transformation
    fin_cases member <;> exact OpKind.noConfusion
  obtain ⟨_, outcome⟩ := (ensures_apply wellFormed .refl kind not_result).of_runOn ran
  cases changed with
  | false => exact outcome
  | true =>
      obtain ⟨result, isValue, _⟩ := evaluateNode_of_evaluate evaluated (contains_of_kind? kind)
      obtain ⟨rule, policy⟩ := transformation
      simp only [regroupings, List.mem_cons, List.not_mem_nil, or_false] at member
      rcases member with rfl | rfl | rfl | rfl
      · obtain ⟨⟨branch, product, invertible, swaps⟩, _⟩ := outcome
        obtain ⟨data, givesPlace⟩ :=
          swaps.exists_givesPlace invertible wellFormed kind evaluated isValue
        exact ⟨data, product, givesPlace⟩
      · obtain ⟨fuses, _⟩ := outcome
        exact fuses.exists_givesPlace wellFormed kind (real rfl) evaluated isValue
      · obtain ⟨⟨multiply, merged, scaled, merges⟩, _⟩ := outcome
        obtain ⟨data, givesPlace⟩ := merges.exists_givesPlace scaled wellFormed kind evaluated isValue
        exact ⟨data, merged, givesPlace⟩
      · obtain ⟨distributes, _⟩ := outcome
        exact distributes.exists_givesPlace wellFormed kind evaluated isValue

end Rules

/-- A column, scaled by a row and shifted by a column. The constants stand on the left. -/
def scaledRows : List (Draft Rat) :=
  let constant (name : String) (values : NDArray Rat) : Draft Rat :=
    (Op.constant ⟨.f32, values⟩).draft name
  [{ op := .parameter, name := "x", declared := some { elementType := .f32, shape := [2, 1] } },
    constant "scale" { shape := [2], data := #[2, 4], size_data := rfl },
    (Op.multiply.draft "scaled").readAll [NodeId.mk 1, NodeId.mk 0],
    constant "bias" { shape := [2, 1], data := #[3, 8], size_data := rfl },
    (Op.add.draft "sum").readAll [NodeId.mk 3, NodeId.mk 2],
    (Op.result.draft "output").readAll [NodeId.mk 4]]

/-- The quotient of a column by a row is a square. -/
theorem exists_givesPlace_scaledRows :
    ∃ (graph : Graph Rat) (feeds values : Assignment Rat) (after : RunState Rat),
      Graph.empty.addAll scaledRows = .ok graph ∧
      let sum : Transformation := ⟨.add, {}⟩
      sum.rule ∈ regroupings ∧ graph.WellFormed ∧
      graph.kind? (NodeId.mk 4) = some sum.matchedKind ∧
      (sum.rule = .fuseConvert → graph.ConvertsToReal (NodeId.mk 4)) ∧
      graph.evaluate feeds = .ok values ∧ graph.HasDeclaredShapes values ∧
      (sum.apply (.all {}) (NodeId.mk 4)).runOn (.ofGraph graph) = (.ok true, after) ∧
      ∃ data tail, graph.GivesPlace (NodeId.mk 4) data tail after.graph feeds values := by
  let feeds : Assignment Rat := Assignment.none.set (NodeId.mk 0) (.replicate [2, 1] 1)
  obtain ⟨graph, values, after, added, wellFormed, kind, _, evaluated, declared, applied⟩ :=
    @exists_run_of_values scaledRows (NodeId.mk 4) .add feeds (fun _ => True) _ (by decide)
      (by decide) (by decide +kernel)
  have real (other : Rule.add = .fuseConvert) : graph.ConvertsToReal (NodeId.mk 4) := by cases other
  obtain ⟨changed, after', ran, outcome⟩ := @exists_givesPlace_of_regrouping ⟨.add, {}⟩ (.all {})
    (NodeId.mk 4) (.ofGraph graph) feeds values (by decide) wellFormed kind real evaluated declared
  obtain ⟨same, rfl⟩ := Prod.mk.injEq .. ▸ applied.symm.trans ran
  cases Except.ok.inj same
  exact ⟨graph, feeds, values, after, added, by decide, wellFormed, kind, real, evaluated, declared,
    applied, outcome⟩

/-- A product that reads two parameters on one slot and a constant on the next, times another
constant. -/
def crowdedProducts (first second : Tensor Rat) : List (Draft Rat) :=
  let real (name : String) : Draft Rat :=
    { op := .parameter, name := name, declared := some { elementType := .f32, shape := [2] } }
  [real "x", real "y", (Op.constant first).draft "first",
    (((Op.multiply.draft "scaled").input (NodeId.mk 1).output 0).input (NodeId.mk 0).output 0).input
      (NodeId.mk 2).output 1,
    (Op.constant second).draft "second",
    (Op.multiply.draft "product").readAll [NodeId.mk 3, NodeId.mk 4],
    (Op.result.draft "output").readAll [NodeId.mk 5]]

/-- A constant added to what a Convert gives. -/
def shiftedIntegers : List (Draft Rat) :=
  [{ op := .parameter, name := "x", declared := some { elementType := .u8, shape := [1] } },
    ((Op.convert .f32).draft "converted").readAll [NodeId.mk 0],
    (Op.constant (.scalar .f32 3)).draft "three",
    (Op.add.draft "sum").readAll [NodeId.mk 1, NodeId.mk 2],
    (Op.result.draft "output").readAll [NodeId.mk 3]]

/-- Shapes are declared as they turn out, and a rule gives up on a node of its kind. -/
def GivesUp (drafts : List (Draft Rat)) (id : NodeId) (rule : Rule) (feeds : Assignment Rat) : Prop :=
  ∃ graph after values error, Graph.empty.addAll drafts = .ok graph ∧
    graph.evaluate feeds = .ok values ∧ graph.HasDeclaredShapes values ∧
    graph.kind? id = some rule.matchedKind ∧
    (Transformation.apply ⟨rule, {}⟩ (.all {}) id).runOn (.ofGraph graph) = (.error error, after)

set_option synthInstance.maxSize 512 in
/-- Where a node reads two outputs on one slot, the constant that is found is not what it computes
with: other results come out, or constants meet whose shapes do not fit. A rule that is tried on a
node of another kind takes it for one of its own. -/
theorem altersResults_crowdedProducts_and_givesUp_and_shiftedIntegers :
    AltersResults (crowdedProducts (.scalar .f32 2) (.scalar .f32 3)) (NodeId.mk 5) .multiply
        (fun graph => graph.kind? (NodeId.mk 5) = some .multiply) (crowdedFeeds [2])
        [[15, 15]] [[6, 6]] ∧
      GivesUp (crowdedProducts ⟨.f32, .replicate [3] 2⟩ ⟨.f32, .replicate [2] 3⟩) (NodeId.mk 5)
        .multiply (crowdedFeeds [2]) ∧
      AltersResults shiftedIntegers (NodeId.mk 3) .fuseConvert
        (fun graph => graph.WellFormed ∧ graph.kind? (NodeId.mk 3) = some .add ∧
          graph.ConvertsToReal (NodeId.mk 3))
        (Assignment.none.set (NodeId.mk 0) (.replicate [1] 1)) [[4]] [[3]] := by
  refine ⟨?_, ?_, ?_⟩
  · exact altersResults_of_values (by decide +kernel) (by decide) (demanded_of_values (by decide +kernel))
  · have made : (Graph.empty.addAll
        (crowdedProducts ⟨.f32, .replicate [3] 2⟩ ⟨.f32, .replicate [2] 3⟩)).map (fun graph =>
          ((graph.evaluate (crowdedFeeds [2])).map (fun values => decide (∀ id ∈ graph.nodeIds,
              ∀ value ∈ values id,
                graph.shape? id = some value.shape ∧ value.shape.IsAddressable)),
            graph.kind? (NodeId.mk 5),
            ((Transformation.apply ⟨.multiply, {}⟩ (.all {}) (NodeId.mk 5)).runOn
              (.ofGraph graph)).1)) =
        .ok (.ok true, some .multiply,
          .error (.graph (.broadcast (.incompatible [3] [2])))) := by decide +kernel
    obtain ⟨graph, added, facts⟩ := Outcome.map_eq_ok.mp made
    simp only [Prod.mk.injEq] at facts
    obtain ⟨valued, kind, failed⟩ := facts
    obtain ⟨values, evaluated, declared⟩ := Outcome.map_eq_ok.mp valued
    exact ⟨graph, _, values, _, added, evaluated,
      (hasDeclaredShapes_iff evaluated).mpr (of_decide_eq_true declared), kind,
      Prod.ext failed rfl⟩
  · exact altersResults_of_values (by decide +kernel) (by decide)
      (wellFormed_and_demanded_of_values (by decide) (by decide +kernel))

end Transformation

end QuantGraph
