import Mathlib
import QuantGraph.Proofs.Rules.MovedValues

/-! The values of a graph in which a dequantization by single numbers has moved past an operation
that moves elements. First the constants lose their axes, which changes no value, and then the chain
moves. -/

namespace QuantGraph

variable [Scalar α]

theorem Tensor.repeats_of_toScalar? {tensor scalar : Tensor α}
    (identical : ∀ left right : α, Scalar.identical left right = true → left = right)
    (found : tensor.toScalar? = some scalar) : tensor.values.Repeats scalar.values := by
  unfold Tensor.toScalar? at found
  split at found
  case isFalse => cases found
  case isTrue uniform =>
    obtain ⟨first, isFirst, rfl⟩ := Option.map_eq_some_iff.mp found
    exact ⟨rfl, fun _ => Tensor.eq_first_of_isUniform identical uniform isFirst⟩

namespace Graph

variable {before after graph : Graph α} {id stage : NodeId} {chain : DequantizationChain}
  {output scaled shifted : Output} {feeds values values' : Assignment α} {value : NDArray α}

/-! ## A constant without axes -/

section Values

variable {operand : ConstantOperand α} {scalar : Tensor α} {collapsed : NodeId}
  {first second : Graph α} {binary : BinaryOp}

/-- A node may read another value where its operation makes the same of it. -/
theorem Resources.hasValue {slot : UInt8} {source : Output} {given : NDArray α}
    (resources : before.Resources stage slot source after)
    (hasSource : after.HasValue feeds source.node given)
    (same : ∀ node inputs result, before.node? stage = some node →
      before.Derives feeds (before.inputs stage) inputs →
      node.op.evaluate node.elementType.isIntegral inputs (feeds stage) = .ok result →
      node.op.evaluate node.elementType.isIntegral (inputs.set slot.toNat given) (feeds stage) =
        .ok result)
    (has : before.HasValue feeds id value) : after.HasValue feeds id value := by
  induction has with
  | @compute id node inputs value found length_eq known computed induction =>
      have derives : after.Derives feeds (before.inputs id) inputs :=
        forall₂_of_getElem? length_eq induction
      have isFound := (resources.node_eq id).trans found
      by_cases equal : id = stage
      · subst equal
        refine hasValue_iff.mpr ⟨node, inputs.set slot.toNat given, isFound, ?_,
          same node inputs value found (forall₂_of_getElem? length_eq known) computed⟩
        rw [resources.inputs_eq, if_pos rfl]
        exact derives.set hasSource
      · refine hasValue_iff.mpr ⟨node, inputs, isFound, ?_, computed⟩
        rw [resources.inputs_eq, if_neg equal]
        exact derives

/-- An operation on a constant that repeats a number gives the same on that number. -/
theorem ReadsOperands.evaluate_set (reads : graph.ReadsOperands stage operand)
    {inputs : List (NDArray α)} {number result : NDArray α} {integral : Bool}
    {feed : Option (NDArray α)} (derives : graph.Derives feeds (graph.inputs stage) inputs)
    (repeats : operand.tensor.values.Repeats number)
    (fits : ∀ given, graph.HasValue feeds operand.data.node given →
      operand.tensor.shape.StretchesTo given.shape)
    (computed : (Op.elementwise binary).evaluate integral inputs feed = .ok result) :
    (Op.elementwise binary).evaluate integral (inputs.set (1 - operand.slot) number) feed =
      .ok result := by
  cases reads with
  | constantLast listed _ isConstant =>
      rw [listed] at derives
      unfold Derives at derives
      obtain _ | ⟨hasData, _ | ⟨hasConstant, _⟩⟩ := derives
      rw [Op.evaluate_elementwise binary rfl rfl, hasConstant.eq_of_constant isConstant] at computed
      refine (Op.evaluate_elementwise binary rfl rfl).trans (Outcome.mapError_eq_ok.mpr ?_)
      exact repeats.combine_right (fits _ hasData) (Outcome.mapError_eq_ok.mp computed)
  | constantFirst listed _ isConstant =>
      rw [listed] at derives
      unfold Derives at derives
      obtain _ | ⟨hasConstant, _ | ⟨hasData, _⟩⟩ := derives
      rw [Op.evaluate_elementwise binary rfl rfl, hasConstant.eq_of_constant isConstant] at computed
      refine (Op.evaluate_elementwise binary rfl rfl).trans (Outcome.mapError_eq_ok.mpr ?_)
      exact repeats.combine_left (fits _ hasData) (Outcome.mapError_eq_ok.mp computed)

namespace LosesAxes

variable (loses : before.LosesAxes stage operand scalar collapsed first second after)

include loses

theorem live_of_ne (live : after.contains id = true) (old : id ≠ collapsed) :
    before.contains id = true := by
  have second_live := loses.sheds.live live
  rw [loses.resources.contains_eq] at second_live
  exact (contains_congr (loses.adds.node_old id old)).symm.trans second_live

theorem hasValue_collapsed : first.HasValue feeds collapsed scalar.values :=
  hasValue_of_constant loses.adds.op?_new loses.adds.inputs_new

/-- The new constant is declared to have no axes. -/
theorem shape?_collapsed (live : after.contains collapsed = true) :
    after.shape? collapsed = some scalar.values.shape := by
  obtain ⟨type, drafted, found⟩ := loses.adds.node_new
  have inferred : (Op.constant scalar).infer (before.typesOf []) = .ok type :=
    infer_of_draftedType ⟨rfl, by simp⟩ rfl drafted
  cases inferred
  rw [shape?, loses.sheds.node_eq collapsed live, loses.resources.node_eq, found]
  rfl

theorem collapsed_live (wellFormed : before.WellFormed)
    (reads : before.ReadsOperands stage operand) (live : after.contains stage = true) :
    after.contains collapsed = true := by
  have stage_live := (wellFormed.consistent.reads_live reads.reads_data).2
  have member := (reads.mem_set collapsed.output).2
  rw [← loses.inputs_stage stage_live live] at member
  exact (loses.wellFormed.consistent.reads_live (reads_of_mem_inputs member)).1

theorem renews (live : after.contains collapsed = true) : before.Renews after := by
  have node_eq {id : NodeId} {node : Node α} (found : after.node? id = some node) :
      first.node? id = some node := by
    rw [← loses.resources.node_eq, ← loses.sheds.node_eq id (contains_of_node? found), found]
  obtain ⟨added, isAdded, uid_eq⟩ := loses.adds.exists_uid
  obtain ⟨node, found⟩ := contains_eq_true_iff.mp live
  cases Option.some.inj ((node_eq found).symm.trans isAdded)
  refine ⟨uid_eq ▸ (loses.wellFormed.consistent.uid_lt_of_node? found).le,
    fun id other isOther => ?_⟩
  exact loses.adds.renews.node? id other (node_eq isOther)

section Preservation

variable (identical : ∀ left right : α, Scalar.identical left right = true → left = right)
  (wellFormed : before.WellFormed) (all : before.HasValues feeds)
  (reads : before.ReadsOperands stage operand)
  (isOp : before.op? stage = some (Op.elementwise binary))
  (fits : ∀ given, before.HasValue feeds operand.data.node given →
    operand.tensor.shape.StretchesTo given.shape)

include identical wellFormed all reads isOp fits

theorem hasValue_second (has : first.HasValue feeds id value) :
    second.HasValue feeds id value := by
  have grows := loses.adds.grows
  obtain ⟨data_live, stage_live⟩ := wellFormed.consistent.reads_live reads.reads_data
  have different : collapsed ≠ stage := fun equal => by
    have fresh := loses.adds.fresh
    rw [equal, stage_live] at fresh
    cases fresh
  have hasCollapsed : second.HasValue feeds collapsed scalar.values := by
    refine hasValue_of_constant ?_ ?_
    · rw [op?_congr (loses.resources.node_eq collapsed)]
      exact loses.adds.op?_new
    · rw [loses.resources.inputs_eq, if_neg different, loses.adds.inputs_new]
  refine loses.resources.hasValue hasCollapsed (fun node inputs result found derives computed => ?_)
    has
  have isNode : first.op? stage = some (Op.elementwise binary) :=
    (op?_congr (grows.node_eq stage stage_live)).trans isOp
  rw [op?, found, Option.map_some, Option.some.injEq] at isNode
  rw [isNode] at computed ⊢
  rw [toNat_constantSlot operand]
  refine (loses.readsOperands_first wellFormed reads).evaluate_set derives
    (Tensor.repeats_of_toScalar? identical loses.toScalar?_eq) (fun given hasGiven => ?_) computed
  obtain ⟨earlier, hasEarlier⟩ := all operand.data.node data_live
  rw [hasGiven.unique (grows.hasValue wellFormed.consistent hasEarlier)]
  exact fits earlier hasEarlier

/-- All that stays has the value that it had. -/
theorem hasValue (has : before.HasValue feeds id value) (live : after.contains id = true) :
    after.HasValue feeds id value :=
  loses.sheds.hasValue (loses.hasValue_second identical wellFormed all reads isOp fits
    (loses.adds.grows.hasValue wellFormed.consistent has)) live

theorem hasValues : after.HasValues feeds := by
  intro id live
  have allFirst := loses.adds.hasValues wellFormed.consistent all loses.hasValue_collapsed
  obtain ⟨value, has⟩ := allFirst id
    ((loses.resources.contains_eq id).symm.trans (loses.sheds.live live))
  exact ⟨value, loses.sheds.hasValue
    (loses.hasValue_second identical wellFormed all reads isOp fits has) live⟩

theorem exists_evaluate (evaluated : before.evaluate feeds = .ok values)
    (declared : before.HasDeclaredShapes values) :
    ∃ values', after.evaluate feeds = .ok values' ∧ after.HasDeclaredShapes values' ∧
      ∀ other, before.contains other = true → after.contains other = true →
        values' other = values other := by
  obtain ⟨values', evaluated'⟩ := exists_evaluate_of_hasValues loses.wellFormed
    (loses.hasValues identical wellFormed all reads isOp fits)
  have same (other : NodeId) (old : before.contains other = true)
      (live : after.contains other = true) : values' other = values other := by
    obtain ⟨value, has⟩ := all other old
    rw [has.value_eq evaluated, (loses.hasValue identical wellFormed all reads isOp fits has
      live).value_eq evaluated']
  refine ⟨values', evaluated', fun id value isValue => ?_, same⟩
  have live := (hasValue_of_evaluate evaluated' isValue).live
  by_cases new : id = collapsed
  · subst new
    have hasNew := loses.sheds.hasValue
      (loses.hasValue_second identical wellFormed all reads isOp fits loses.hasValue_collapsed) live
    cases Option.some.inj (isValue.symm.trans (hasNew.value_eq evaluated'))
    refine ⟨loses.shape?_collapsed live, ?_⟩
    rw [show scalar.values.shape = [] from loses.shape_eq]
    decide
  · have old := loses.live_of_ne live new
    rw [same id old live] at isValue
    rw [shape?_congr (loses.node_eq old live)]
    exact declared id value isValue

end Preservation

end LosesAxes

end Values

/-! ## Chains -/

/-- What a node reads is a chain of real numbers, the constants of which do not widen its data.
The graph has values, of the shapes that are declared. -/
structure ReadsFitting (graph : Graph α) (feeds values : Assignment α) (id : NodeId)
    (output scaled shifted : Output) (chain : DequantizationChain) : Prop
    extends graph.ReadsChain id output scaled shifted chain where
  real : graph.RestoresReal chain
  fits : graph.FitsBehind chain chain.data.node
  evaluated : graph.evaluate feeds = .ok values
  declared : graph.HasDeclaredShapes values

/-- A chain may lose axes of its constants before it moves past a node. -/
structure Readies (before : Graph α) (feeds values : Assignment α) (id : NodeId)
    (output scaled shifted : Output) (chain : DequantizationChain) (after : Graph α)
    (values' : Assignment α) : Prop where
  fitting : after.ReadsFitting feeds values' id output scaled shifted chain
  op?_eq : after.op? id = before.op? id
  inputs_eq : after.inputs id = before.inputs id
  givesWay : ∀ tail final, after.GivesWay id chain.data.node tail final feeds values' →
    before.GivesWay id chain.data.node tail final feeds values

section Chains

omit [Scalar α] in
/-- The chain of a node goes on to convert to real numbers where its stages are as they were. -/
theorem RestoresReal.congr (real : before.RestoresReal chain)
    (same : ∀ stage ∈ chain.stages, after.node? stage = before.node? stage) :
    after.RestoresReal chain := by
  have convert_eq (convert : NodeId) (present : convert ∈ chain.convert) :
      after.node? convert = before.node? convert :=
    same convert (by simp [DequantizationChain.stages, Option.mem_def.mp present])
  have multiply_eq (multiply : NodeId) (present : multiply ∈ chain.multiply) :
      after.node? multiply = before.node? multiply :=
    same multiply (by simp [DequantizationChain.stages, Option.mem_def.mp present])
  refine ⟨fun convert present => ?_, fun convert present => ?_, fun multiply present => ?_⟩
  · rw [op?, convert_eq convert present]
    exact real.destination convert present
  · rw [elementType?, convert_eq convert present]
    exact real.converted convert present
  · rw [elementType?, multiply_eq multiply present]
    exact real.multiplied multiply present

omit [Scalar α] in
/-- What leads to a node that does not depend on the stage stays, and so does its way there. -/
theorem Bares.keeps_of_reaches (bares : before.Bares stage after) (wellFormed : before.WellFormed)
    {target : NodeId} (apart : before.Independent stage target)
    (live : after.contains target = true) (reaches : before.Reaches id target) :
    after.contains id = true ∧ after.Reaches id target := by
  induction reaches using Relation.ReflTransGen.head_induction_on with
  | refl => exact ⟨live, Relation.ReflTransGen.refl⟩
  | @head id reader reads reaches induction =>
      obtain ⟨stays, leads⟩ := induction
      have different : reader ≠ stage := fun equal => apart (equal ▸ reaches)
      have inputs := bares.inputs_eq reader (live_of_reads wellFormed reads) stays different
      have reads' : after.Reads id reader := by
        rw [reads_iff_mem_inputs, inputs, ← reads_iff_mem_inputs]
        exact reads
      exact ⟨(bares.wellFormed.consistent.reads_live reads').1, leads.head reads'⟩

namespace ReadsChain

variable (reads : graph.ReadsChain id output scaled shifted chain)
  (member : chain.subtract = some stage ∨ chain.multiply = some stage)

omit [Scalar α]

include reads member

theorem reaches : graph.Reaches stage id := by
  have last := Relation.ReflTransGen.single (reads_of_mem_inputs reads.reads)
  rcases member with present | present
  · obtain ⟨rfl, _⟩ := reads.isChain.subtract.stage_eq present
    obtain ⟨_, under⟩ := reads.isChain.multiply.stage_eq reads.multiply
    exact last.head (reads_of_underMultiply? under)
  · cases Option.some.inj (present.symm.trans reads.multiply)
    exact last

theorem independent_data : graph.Independent stage chain.data.node := by
  have isChain := reads.isChain
  rcases member with present | present
  · obtain ⟨rfl, under⟩ := isChain.subtract.stage_eq present
    exact isChain.convert.independent (fun _ => reads_of_underConvert?)
      (independent_of_reads reads.wellFormed (reads_of_underSubtract? under))
  · obtain ⟨rfl, under⟩ := isChain.multiply.stage_eq present
    exact isChain.convert.independent (fun _ => reads_of_underConvert?)
      (isChain.subtract.independent (fun _ => reads_of_underSubtract?)
        (independent_of_reads reads.wellFormed (reads_of_underMultiply? under)))

omit reads in
theorem mem_stages : stage ∈ chain.stages := by
  rcases member with present | present <;> simp [DequantizationChain.stages, present]

end ReadsChain

/-- What gives way after a stage has come to read a constant without axes gives way before. -/
theorem CollapsesConstant.givesWay {tail : NodeId} {final : Graph α}
    (collapses : before.CollapsesConstant stage after) (bares : before.Bares stage after)
    (renews : before.Renews after) (reads : before.ReadsChain id output scaled shifted chain)
    (reads' : after.ReadsChain id output scaled shifted chain)
    (member : chain.subtract = some stage ∨ chain.multiply = some stage)
    (same : ∀ other, before.contains other = true → after.contains other = true →
      values' other = values other)
    (givesWay : after.GivesWay id chain.data.node tail final feeds values') :
    before.GivesWay id chain.data.node tail final feeds values := by
  have wellFormed := reads.wellFormed
  have apart := reads.independent member
  have kept {op : NodeId} (live : before.contains op = true) (apart : before.Independent op stage) :
      after.contains op = true :=
    (contains_congr (collapses.keeps wellFormed live apart).1).trans live
  have stays_back {other : NodeId} (stays : after.StaysAt final other)
      (old : before.contains other = true) : before.StaysAt final other := by
    obtain ⟨node, found, isFinal⟩ := stays
    exact ⟨node, (bares.node_eq other old (contains_of_node? found)).symm.trans found, isFinal⟩
  -- A node that is newer than the constant without axes is newer than all that were there before.
  have between {other : NodeId} (stays : before.StaysAt final other) :
      after.StaysAt final other := by
    obtain ⟨node, found, isFinal⟩ := stays
    rcases givesWay.newer other node isFinal with stays | later
    · exact stays
    · have older := wellFormed.consistent.uid_lt_of_node? found
      have le := renews.nextUid_le
      omega
  refine ⟨givesWay.kind_eq, fun stays => givesWay.isNew (between stays),
    fun reader slot index read => ?_, fun other live leadsOn => ?_, fun other node found => ?_, ?_⟩
  · have edge := reads_of_input? read
    have live := live_of_reads wellFormed edge
    have reader_apart : before.Independent reader stage := fun reaches => apart (reaches.head edge)
    have different : reader ≠ stage := fun equal =>
      reader_apart (equal ▸ Relation.ReflTransGen.refl)
    refine givesWay.input?_eq reader slot index ?_
    rw [(bares.wellFormed.exact reader).input?_eq,
      bares.inputs_eq reader live (kept live reader_apart) different,
      ← (wellFormed.exact reader).input?_eq, read]
  · rcases leadsOn with free | leadsOn
    · have other_apart : before.Independent other stage := fun reaches =>
        free (reaches.trans (reads.reaches member))
      exact stays_back (givesWay.stays other (kept live other_apart)
        (Or.inl ((collapses.keeps wellFormed live other_apart).2 id free))) live
    · obtain ⟨stays, leadsOn⟩ :=
        bares.keeps_of_reaches wellFormed (reads.independent_data member) reads'.data_live leadsOn
      exact stays_back (givesWay.stays other stays (Or.inr leadsOn)) live
  · rcases givesWay.newer other node found with ⟨_, isNode, isFinal⟩ | later
    · cases Option.some.inj (found.symm.trans isFinal)
      exact (renews.node? other node isNode).imp_left fun earlier => ⟨node, earlier, found⟩
    · exact Or.inr (renews.nextUid_le.trans later)
  · obtain ⟨final_values, evaluated, tail_eq, stays_eq⟩ := givesWay.values_eq
    refine ⟨final_values, evaluated, tail_eq.trans (same id reads.live.1 reads'.live.1),
      fun other stays => ?_⟩
    rw [stays_eq other (between stays)]
    obtain ⟨_, isNode, _⟩ := between stays
    obtain ⟨_, found, _⟩ := stays
    exact same other (contains_of_node? found) (contains_of_node? isNode)

namespace ReadsFitting

section Shapes

variable (fitting : graph.ReadsFitting feeds values id output scaled shifted chain)

include fitting

/-- All along a chain, values have the shape of the data. -/
theorem shape?_shifted (has : graph.HasValue feeds shifted.node value) :
    graph.shape? chain.data.node = some value.shape := by
  have hasData := fitting.isChain.hasValue_data fitting.wellFormed fitting.real has
  exact (fitting.declared _ _ (hasData.value_eq fitting.evaluated)).1

theorem shape?_scaled (has : graph.HasValue feeds scaled.node value) :
    graph.shape? chain.data.node = some value.shape := by
  obtain ⟨given, hasGiven, isShifted⟩ := fitting.isChain.exists_shifted fitting.wellFormed has
  have isShape := fitting.shape?_shifted hasGiven
  rw [NDArray.shape_eq_of_lessShift (fun constant member => ?_) isShifted]
  · exact isShape
  · obtain ⟨tensor, isShift, rfl⟩ := Option.map_eq_some_iff.mp member
    exact fitting.fits tensor (Or.inr isShift) given.shape isShape

end Shapes

variable {operand : ConstantOperand α} {binary : BinaryOp}

/-- One constant of a chain loses its axes. -/
theorem readies (fitting : before.ReadsFitting feeds values id output scaled shifted chain)
    (identical : ∀ left right : α, Scalar.identical left right = true → left = right)
    (collapses : before.CollapsesConstant stage after)
    (member : chain.subtract = some stage ∨ chain.multiply = some stage)
    (reads : before.ReadsOperands stage operand)
    (isOp : before.op? stage = some (Op.elementwise binary))
    (uniform : operand.tensor.isUniform = true)
    (stretches : ∀ given, before.HasValue feeds operand.data.node given →
      operand.tensor.shape.StretchesTo given.shape)
    (constants : before.Bares stage after → after.ReadsChain id output scaled shifted chain →
      ∀ tensor, chain.scale? after = some tensor ∨ chain.shift? after = some tensor →
        tensor.shape = [] ∨ chain.scale? before = some tensor ∨ chain.shift? before = some tensor) :
    before.Bares stage after ∧
      ∃ values', before.Readies feeds values id output scaled shifted chain after values' := by
  have wellFormed := fitting.wellFormed
  have evaluated := fitting.evaluated
  rcases collapses.eq_or_losesAxes reads uniform with ⟨bare, rfl⟩ | ⟨_, _, _, _, loses⟩
  · have isConstant := reads.constant?_eq
    have live := contains_of_op? (constant?_eq_some_iff.mp isConstant)
    obtain ⟨value, has⟩ := hasValues_of_evaluate evaluated operand.constant live
    have isShape := (fitting.declared _ _ (has.value_eq evaluated)).1
    rw [has.eq_of_constant isConstant] at isShape
    exact ⟨reads.bares_refl wellFormed (Option.some.inj (isShape.symm.trans bare)),
      values, fitting, rfl, rfl, fun _ _ givesWay => givesWay⟩
  · have bares := loses.bares wellFormed reads
    have apart := fitting.independent member
    have notConvert : before.kind? stage ≠ some .convert := by
      rw [kind?_of_op? isOp]
      cases binary <;> exact fun equal => by cases equal
    obtain ⟨old, output_old⟩ := fitting.live
    have node_eq := (collapses.keeps wellFormed old apart).1
    have stays := (contains_congr node_eq).trans old
    have different : id ≠ stage := fun equal => apart (equal ▸ Relation.ReflTransGen.refl)
    have reads' := fitting.bares bares notConvert different stays
    obtain ⟨values', evaluated', declared', same⟩ := loses.exists_evaluate identical wellFormed
      (hasValues_of_evaluate evaluated) reads isOp stretches evaluated fitting.declared
    have real := fitting.real.congr fun node member => bares.node_eq node
      (fitting.isChain.live_of_mem_stages member) (reads'.isChain.live_of_mem_stages member)
    have fits : after.FitsBehind chain chain.data.node := by
      intro tensor used shape isShape
      rw [shape?_congr (bares.node_eq _ fitting.data_live reads'.data_live)] at isShape
      rcases constants bares reads' tensor used with noAxes | used
      · exact noAxes ▸ Shape.nil_stretchesTo shape
      · exact fitting.fits tensor used shape isShape
    have stage_live := reads'.isChain.live_of_mem_stages (ReadsChain.mem_stages member)
    have renews := loses.renews (loses.collapsed_live wellFormed reads stage_live)
    exact ⟨bares, values', ⟨reads', real, fits, evaluated', declared'⟩, op?_congr node_eq,
      bares.inputs_eq id old stays different, fun _ _ givesWay =>
        collapses.givesWay bares renews fitting.toReadsChain reads' member same givesWay⟩

theorem exists_readies_subtract
    (fitting : before.ReadsFitting feeds values id output scaled shifted chain)
    (identical : ∀ left right : α, Scalar.identical left right = true → left = right)
    (collapses : before.CollapsesStage chain.subtract after)
    (uniform : ∀ shift, chain.shift? before = some shift → shift.isUniform = true) :
    ∃ values', before.Readies feeds values id output scaled shifted chain after values' ∧
      chain.scale? after = chain.scale? before ∧
      ∀ shift, chain.shift? after = some shift → shift.shape = [] := by
  cases present : chain.subtract with
  | none =>
      rw [present] at collapses
      cases collapses
      refine ⟨values, ⟨fitting, rfl, rfl, fun _ _ givesWay => givesWay⟩, rfl,
        fun shift isShift => ?_⟩
      rw [shift?_eq_none present] at isShift
      cases isShift
  | some subtract =>
      obtain ⟨rfl, operand, isKind, reads, rfl, shift_eq⟩ :=
        fitting.isChain.exists_subtracted fitting.wellFormed present
      obtain ⟨_, _, isMultiply, _⟩ :=
        fitting.isChain.exists_multiplied fitting.wellFormed fitting.multiply
      rw [present] at collapses
      have different : output.node ≠ scaled.node := fun equal => by
        rw [equal, isKind] at isMultiply
        cases isMultiply
      obtain ⟨bares, values', readies⟩ := fitting.readies identical collapses (Or.inl present) reads
        (op?_elementwise .subtract isKind) (uniform _ shift_eq)
        (fun given has => fitting.fits _ (Or.inr shift_eq) _ (fitting.shape?_shifted has))
        fun bares reads' tensor used => used.elim
          (fun isScale => Or.inr (Or.inl
            ((fitting.scale?_eq reads' bares different).symm.trans isScale)))
          fun isShift => Or.inl (reads'.shift_shape_eq bares tensor isShift)
      exact ⟨values', readies, fitting.scale?_eq readies.fitting.toReadsChain bares different,
        readies.fitting.shift_shape_eq bares⟩

theorem exists_readies_multiply
    (fitting : before.ReadsFitting feeds values id output scaled shifted chain)
    (identical : ∀ left right : α, Scalar.identical left right = true → left = right)
    (collapses : before.CollapsesStage chain.multiply after)
    (uniform : ∀ scale, chain.scale? before = some scale → scale.isUniform = true) :
    ∃ values', before.Readies feeds values id output scaled shifted chain after values' ∧
      chain.shift? after = chain.shift? before ∧
      ∀ scale, chain.scale? after = some scale → scale.shape = [] := by
  obtain ⟨_, operand, isKind, reads, rfl, scale_eq⟩ :=
    fitting.isChain.exists_multiplied fitting.wellFormed fitting.multiply
  rw [fitting.multiply] at collapses
  have different : operand.data.node ≠ output.node := fun equal =>
    fitting.wellFormed.acyclic.not_reaches_of_reads reads.reads_data
      (equal ▸ Relation.ReflTransGen.refl)
  obtain ⟨bares, values', readies⟩ := fitting.readies identical collapses
    (Or.inr fitting.multiply) reads (op?_elementwise .multiply isKind) (uniform _ scale_eq)
    (fun given has => fitting.fits _ (Or.inl scale_eq) _ (fitting.shape?_scaled has))
    fun bares reads' tensor used => used.elim
      (fun isScale => Or.inl (reads'.scale_shape_eq bares tensor isScale))
      fun isShift => Or.inr (Or.inr
        ((fitting.shift?_eq reads' bares different).symm.trans isShift))
  exact ⟨values', readies, fitting.shift?_eq readies.fitting.toReadsChain bares different,
    readies.fitting.scale_shape_eq bares⟩

end ReadsFitting

end Chains

end Graph

namespace Transformation

open QuantGraph.Graph

variable {registry : Registry} {policy : Policy} {id : NodeId} {kind : OpKind}
  {state after : RunState α} {feeds values : Assignment α}

/-- A dequantization by single numbers moves past an operation that moves elements. What is read
behind it is as before, element for element, whatever the arithmetic is in which the two factors of
a product may change places. -/
theorem exists_givesWay_of_layout (layout : kind ∈ Op.layouts)
    (identical : ∀ left right : α, Scalar.identical left right = true → left = right)
    (commutative : ∀ left right : α, left * right = right * left)
    (wellFormed : state.graph.WellFormed) (isKind : state.graph.kind? id = some kind)
    (distinct : ∀ axes, state.graph.op? id = some (.squeeze axes) → axes.Nodup)
    (real : ∀ chain ∈ state.graph.movedChain? (.layout kind) id, state.graph.RestoresReal chain)
    (fits : ∀ chain ∈ state.graph.movedChain? (.layout kind) id,
      state.graph.FitsBehind chain chain.data.node)
    (evaluated : state.graph.evaluate feeds = .ok values)
    (declared : state.graph.HasDeclaredShapes values)
    (applied : (Transformation.apply ⟨.layout kind, policy⟩ registry id).runOn state =
      (.ok true, after)) :
    ∃ chain tail, state.graph.movedChain? (.layout kind) id = some chain ∧
      state.graph.GivesWay id chain.data.node tail after.graph feeds values := by
  have other_kind : kind ≠ .result ∧ kind ≠ .fakeQuantize := by
    constructor <;> (rintro rfl; exact absurd layout (by decide))
  obtain ⟨⟨chain, middle, collapsed, found, first, second, propagates⟩, _⟩ :=
    ((@ensures_apply α _ state registry id ⟨.layout kind, policy⟩ _ wellFormed .refl isKind
      other_kind.1).of_runOn applied).2
  obtain ⟨equal, ⟨scale, isScale, uniformScale⟩, uniformShift⟩ := chainBeforeLayout?_eq_some found
  obtain ⟨output, scaled, shifted, read, reads⟩ :=
    exists_readsChain wellFormed equal (multiply_ne_none_of_scale? isScale)
  have fitting : state.graph.ReadsFitting feeds values id output scaled shifted chain :=
    ⟨reads, real chain found, fits chain found, evaluated, declared⟩
  obtain ⟨_, readied, scale_eq, bareShift⟩ :=
    fitting.exists_readies_subtract identical first uniformShift
  obtain ⟨_, readiedBoth, shift_eq, bareScale⟩ :=
    readied.fitting.exists_readies_multiply identical second fun other isOther => by
      rw [scale_eq, isScale] at isOther
      exact Option.some.inj isOther ▸ uniformScale
  obtain ⟨op, isOp, rfl⟩ := Option.map_eq_some_iff.mp ((kind?_eq_map_op? _ _).symm.trans isKind)
  have readsLast : (collapsed.inputs id)[0]? = some output := by
    rw [readiedBoth.inputs_eq, readied.inputs_eq, read]
  have bareShift : ∀ constant ∈ (chain.shift? collapsed).map Tensor.values,
      constant.shape = [] := by
    intro constant member
    obtain ⟨tensor, isShift, rfl⟩ := Option.map_eq_some_iff.mp member
    exact bareShift tensor (shift_eq ▸ isShift)
  have ready := readiedBoth.fitting
  obtain ⟨plan, copy, tail, moves⟩ := propagates.exists_movesChain fun equal => by cases equal
  have givesWay := moves.givesWay ready.toReadsChain readsLast
    (fun equal => by cases equal) ready.real commutative
    (by rw [readiedBoth.op?_eq, readied.op?_eq, isOp]) other_kind.2
    (fun number none_before scale isScale => by
      rw [Nat.le_zero.mp none_before]
      exact Op.commutesWith_of_layout layout (fun axes squeezes => distinct axes (squeezes ▸ isOp))
        bareShift (bareScale scale isScale))
    ready.evaluated ready.declared
  exact ⟨chain, tail, found, readied.givesWay tail _ (readiedBoth.givesWay tail _ givesWay)⟩

/-- Integers that are shifted and scaled by numbers with axes, which are squeezed after that, and
rectified beside it. -/
def squeezedNumbers : List (Draft Rat) :=
  let filled (name : String) (shape : Shape) (value : Rat) : Draft Rat :=
    (Op.constant { elementType := .f32, values := .replicate shape value }).draft name
  [{ op := .parameter, name := "x"
     declared := some { elementType := .u8, shape := [1, 2, 1, 3] } },
    ((Op.convert .f32).draft "converted").readAll [NodeId.mk 0],
    filled "shift" [1, 1, 1, 1] 128,
    (Op.subtract.draft "shifted").readAll [NodeId.mk 1, NodeId.mk 2],
    filled "scale" [1, 3] 2,
    (Op.multiply.draft "scaled").readAll [NodeId.mk 4, NodeId.mk 3],
    ((Op.squeeze [2, 0]).draft "squeezed").readAll [NodeId.mk 5],
    (Op.result.draft "output").readAll [NodeId.mk 6],
    (Op.relu.draft "rectified").readAll [NodeId.mk 5],
    (Op.result.draft "other").readAll [NodeId.mk 8]]

theorem exists_givesWay_squeezedNumbers :
    ∃ graph feeds values after, Graph.empty.addAll squeezedNumbers = .ok graph ∧
      OpKind.squeeze ∈ Op.layouts ∧
      (∀ left right : Rat, Scalar.identical left right = true → left = right) ∧
      (∀ left right : Rat, left * right = right * left) ∧ graph.WellFormed ∧
      graph.kind? (NodeId.mk 6) = some .squeeze ∧
      (∀ axes, graph.op? (NodeId.mk 6) = some (.squeeze axes) → axes.Nodup) ∧
      (∀ chain ∈ graph.movedChain? (.layout .squeeze) (NodeId.mk 6), graph.RestoresReal chain) ∧
      (∀ chain ∈ graph.movedChain? (.layout .squeeze) (NodeId.mk 6),
        graph.FitsBehind chain chain.data.node) ∧
      graph.evaluate feeds = .ok values ∧ graph.HasDeclaredShapes values ∧
      (Transformation.apply ⟨.layout .squeeze, {}⟩ (.all {}) (NodeId.mk 6)).runOn
        (.ofGraph graph) = (.ok true, after) ∧
      ∃ chain tail, graph.movedChain? (.layout .squeeze) (NodeId.mk 6) = some chain ∧
        graph.GivesWay (NodeId.mk 6) chain.data.node tail after.graph feeds values := by
  let feeds : Assignment Rat := Assignment.none.set (NodeId.mk 0) (.replicate [1, 2, 1, 3] 130)
  obtain ⟨graph, values, after, added, wellFormed, kind, demanded, evaluated, declared, applied⟩ :=
    @exists_applied_of_values squeezedNumbers (NodeId.mk 6) (.layout .squeeze) feeds
      (fun graph chain => graph.RestoresReal chain ∧ graph.FitsBehind chain chain.data.node) _
      (by decide) (by decide) (by decide +kernel)
  have made : (Graph.empty.addAll squeezedNumbers).map (fun graph => graph.op? (NodeId.mk 6)) =
      .ok (some (.squeeze [2, 0])) := by decide +kernel
  have distinct (axes : List Nat) (isOp : graph.op? (NodeId.mk 6) = some (.squeeze axes)) :
      axes.Nodup := by
    rw [added] at made
    cases isOp.symm.trans (Except.ok.inj made)
    decide
  have real := fun chain moves => (demanded chain moves).1
  have fits := fun chain moves => (demanded chain moves).2
  have identical (left right : Rat) (same : Scalar.identical left right = true) : left = right :=
    of_decide_eq_true same
  exact ⟨graph, feeds, values, after, added, by decide, identical, mul_comm, wellFormed, kind,
    distinct, real, fits, evaluated, declared, applied,
    @exists_givesWay_of_layout Rat _ (.all {}) {} (NodeId.mk 6) .squeeze (.ofGraph graph) after
      feeds values (by decide) identical mul_comm wellFormed kind distinct real fits evaluated
      declared applied⟩

set_option synthInstance.maxSize 1024 in
theorem movesAstray_reshape :
    MovesAstray (crowdedProduct [2] ((Op.reshape [2, 1]).draft "column")) (NodeId.mk 4)
        (.layout .reshape) (crowdedFeeds [2]) [[5, 5]] [[2, 2]] ∧
      MovesAstray (mistypedConvert [2] ((Op.reshape [2, 1]).draft "column")) (NodeId.mk 4)
        (.layout .reshape) (Assignment.none.set (NodeId.mk 0) (.replicate [2] 200)) [[400, 400]]
        [[254, 254]] := by
  constructor <;> exact movesAstray_of_values (by decide +kernel) (by decide)

end Transformation

end QuantGraph
