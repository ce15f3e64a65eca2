import QuantGraph.Proofs.Dequantization.Shapes
import QuantGraph.Proofs.Rules.Propagation

/-! Chains whose constants lose their axes. Shapes stay inferred, and the chain is read as it
was. -/

namespace QuantGraph

theorem Tensor.eq_first_of_isUniform [Scalar α] {tensor : Tensor α} {first value : α}
    (identical : ∀ left right : α, Scalar.identical left right = true → left = right)
    (uniform : tensor.isUniform = true) (isFirst : tensor.first? = some first)
    (member : value ∈ tensor.toList) : value = first := by
  obtain ⟨rest, listed⟩ := List.head?_eq_some_iff.mp isFirst
  unfold Tensor.isUniform at uniform
  rw [listed] at uniform member
  rcases List.mem_cons.mp member with rfl | member
  · rfl
  · exact identical _ _ (List.all_eq_true.mp uniform value member)

namespace Graph

variable {before middle after graph : Graph α} {id : NodeId} {op : Op α} {shape : Shape}

/-! ## Constants without axes -/

section Trims

variable {stage collapsed : NodeId} {operand : ConstantOperand α} {scalar : Tensor α}
  {first second : Graph α} {output scaled shifted : Output} {chain : DequantizationChain}

/-- A stage reads another constant, without axes, in place of its own. -/
structure Bares (before : Graph α) (stage : NodeId) (after : Graph α) : Prop where
  wellFormed : after.WellFormed
  node_eq : ∀ id, before.contains id = true → after.contains id = true →
    after.node? id = before.node? id
  inputs_eq : ∀ id, before.contains id = true → after.contains id = true → id ≠ stage →
    after.inputs id = before.inputs id
  operand : after.contains stage = true → ∃ operand trimmed, before.ReadsOperands stage operand ∧
    after.ReadsOperands stage trimmed ∧ trimmed.slot = operand.slot ∧ trimmed.data = operand.data ∧
    trimmed.tensor.shape = []

/-- The same where shapes stay inferred. -/
structure Trims (before : Graph α) (stage : NodeId) (after : Graph α) : Prop
    extends before.Bares stage after where
  inferred : after.IsInferred

variable [Scalar α]

/-- The graphs on the way to one in which a stage reads its constant without axes. -/
structure LosesAxes (before : Graph α) (stage : NodeId) (operand : ConstantOperand α)
    (scalar : Tensor α) (collapsed : NodeId) (first second after : Graph α) : Prop where
  toScalar?_eq : operand.tensor.toScalar? = some scalar
  shape_eq : scalar.shape = []
  adds : before.Adds ((Op.constant scalar).draft "") [] collapsed first
  resources : first.Resources stage (UInt8.ofNat (1 - operand.slot)) collapsed.output second
  sheds : second.Sheds operand.constant after
  wellFormed : after.WellFormed

theorem exists_toScalar? {tensor : Tensor α} (uniform : tensor.isUniform = true) :
    ∃ scalar, tensor.toScalar? = some scalar ∧ scalar.shape = [] := by
  unfold Tensor.toScalar?
  rw [if_pos uniform, Tensor.first?]
  unfold Tensor.isUniform at uniform
  split at uniform
  case h_1 => cases uniform
  case h_2 first rest equal => exact ⟨_, by rw [equal]; rfl, rfl⟩

/-- Of an operation on a constant that is one number, the constant collapses unless it has no
axes. -/
theorem ReadsOperands.collapsibleConstant?_eq (reads : graph.ReadsOperands stage operand)
    (isScalar : operand.tensor.toScalar? = some scalar) :
    graph.collapsibleConstant? stage = if graph.shape? operand.constant = some [] then none
      else some (1 - operand.slot, operand.constant, scalar) := by
  cases reads with
  | constantLast inputs varies isConstant | constantFirst inputs varies isConstant =>
      dsimp only at isScalar ⊢
      simp only [collapsibleConstant?, inputs, Graph.isConstant, varies, isConstant, isScalar,
        List.zipIdx_cons, List.find?_cons, Option.isSome_none, Option.isSome_some,
        Option.bind_eq_bind, Option.bind_some, guard]
      split <;> simp_all

theorem CollapsesConstant.eq_or_losesAxes (collapses : before.CollapsesConstant stage after)
    (reads : before.ReadsOperands stage operand) (uniform : operand.tensor.isUniform = true) :
    before.shape? operand.constant = some [] ∧ after = before ∨
      ∃ scalar collapsed first second,
        before.LosesAxes stage operand scalar collapsed first second after := by
  obtain ⟨scalar, isScalar, noAxes⟩ := exists_toScalar? uniform
  unfold CollapsesConstant at collapses
  rw [reads.collapsibleConstant?_eq isScalar] at collapses
  by_cases bare : before.shape? operand.constant = some []
  · rw [if_pos bare] at collapses
    exact Or.inl ⟨bare, collapses⟩
  · rw [if_neg bare] at collapses
    obtain ⟨collapsed, first, second, adds, resources, sheds, wellFormed⟩ := collapses
    exact Or.inr ⟨scalar, collapsed, first, second, isScalar, noAxes, adds, resources, sheds,
      wellFormed⟩

omit [Scalar α] in
/-- With a constant without axes in place of its own, an operation has the shape of its other
operand. -/
theorem ReadsOperands.infers (reads : graph.ReadsOperands stage operand) {source : Output}
    (elementwise : op.IsElementwise) (isShape : graph.shape? operand.data.node = some shape)
    (noAxes : graph.shape? source.node = some []) :
    op.inferShape (graph.shapesOf ((graph.inputs stage).set (1 - operand.slot) source)) =
      .ok shape := by
  have stretches := Shape.nil_stretchesTo shape
  cases reads with
  | @constantLast data _ _ rest _ inputs =>
      rw [inputs]
      change op.inferShape (graph.shapesOf (data :: source :: rest)) = _
      rw [shapesOf_cons isShape, shapesOf_cons noAxes, Op.inferShape_eq_ok elementwise]
      exact stretches.broadcast_eq
  | @constantFirst data _ _ rest _ inputs =>
      rw [inputs]
      change op.inferShape (graph.shapesOf (source :: data :: rest)) = _
      rw [shapesOf_cons noAxes, shapesOf_cons isShape, Op.inferShape_eq_ok elementwise]
      exact Shape.broadcast_eq_some_iff.mpr
        ⟨stretches, Shape.stretchesTo_refl shape, fun _ _ same => same⟩

omit [Scalar α] in
theorem ReadsOperands.mem_set (reads : graph.ReadsOperands stage operand) (source : Output) :
    operand.data ∈ (graph.inputs stage).set (1 - operand.slot) source ∧
      source ∈ (graph.inputs stage).set (1 - operand.slot) source := by
  cases reads with
  | constantLast inputs | constantFirst inputs => simp [inputs]

omit [Scalar α] in
/-- An operation reads another constant on the slot of its own. -/
theorem ReadsOperands.set {trimmed : NodeId} {tensor : Tensor α}
    (reads : before.ReadsOperands stage operand)
    (inputs : after.inputs stage = (before.inputs stage).set (1 - operand.slot) trimmed.output)
    (varies : after.constant? operand.data.node = none)
    (isConstant : after.constant? trimmed = some tensor) :
    after.ReadsOperands stage
      { slot := operand.slot, data := operand.data, constant := trimmed, tensor := tensor } := by
  cases reads with
  | constantLast read => exact .constantLast (by rw [inputs, read]; rfl) varies isConstant
  | constantFirst read => exact .constantFirst (by rw [inputs, read]; rfl) varies isConstant

omit [Scalar α] in
theorem toNat_constantSlot (operand : ConstantOperand α) :
    (UInt8.ofNat (1 - operand.slot)).toNat = 1 - operand.slot := by
  rw [UInt8.toNat_ofNat']
  omega

namespace LosesAxes

variable (loses : before.LosesAxes stage operand scalar collapsed first second after)

include loses

theorem node_eq (old : before.contains id = true) (live : after.contains id = true) :
    after.node? id = before.node? id := by
  rw [loses.sheds.node_eq id live, loses.resources.node_eq, loses.adds.grows.node_eq id old]

theorem inputs_stage (old : before.contains stage = true) (live : after.contains stage = true) :
    after.inputs stage = (before.inputs stage).set (1 - operand.slot) collapsed.output := by
  rw [loses.sheds.inputs_eq live, loses.resources.inputs_eq, if_pos rfl, toNat_constantSlot operand,
    loses.adds.grows.inputs_eq old]

theorem inputs_eq (old : before.contains id = true) (live : after.contains id = true)
    (different : id ≠ stage) : after.inputs id = before.inputs id := by
  rw [loses.sheds.inputs_eq live, loses.resources.inputs_eq, if_neg different,
    loses.adds.grows.inputs_eq old]

theorem readsOperands (wellFormed : before.WellFormed) (reads : before.ReadsOperands stage operand)
    (live : after.contains stage = true) :
    after.ReadsOperands stage
      { slot := operand.slot, data := operand.data, constant := collapsed, tensor := scalar } := by
  obtain ⟨data_old, stage_old⟩ := wellFormed.consistent.reads_live reads.reads_data
  have inputs := loses.inputs_stage stage_old live
  have read_live {output : Output} (member : output ∈ after.inputs stage) :
      after.contains output.node = true :=
    (loses.wellFormed.consistent.reads_live (reads_of_mem_inputs member)).1
  obtain ⟨readsData, readsCollapsed⟩ := reads.mem_set collapsed.output
  rw [← inputs] at readsData readsCollapsed
  refine reads.set inputs ?_ ?_
  · rw [constant?_congr (loses.node_eq data_old (read_live readsData)), reads.constant?_data]
  · rw [constant?_congr (loses.sheds.node_eq collapsed (read_live readsCollapsed)),
      constant?_congr (loses.resources.node_eq collapsed)]
    exact constant?_eq_some_iff.mpr loses.adds.op?_new

/-- Before it reads another constant, the stage reads its own. -/
theorem readsOperands_first (wellFormed : before.WellFormed)
    (reads : before.ReadsOperands stage operand) : first.ReadsOperands stage operand := by
  have stage_live := (wellFormed.consistent.reads_live reads.reads_data).2
  exact reads.congr (loses.adds.grows.inputs_eq stage_live) fun output member =>
    constant?_congr (loses.adds.grows.node_eq _
      (wellFormed.consistent.reads_live (reads_of_mem_inputs member)).1)

theorem bares (wellFormed : before.WellFormed) (reads : before.ReadsOperands stage operand) :
    before.Bares stage after :=
  ⟨loses.wellFormed, fun _ => loses.node_eq, fun _ => loses.inputs_eq, fun live =>
    ⟨operand, _, reads, loses.readsOperands wellFormed reads live, rfl, rfl, loses.shape_eq⟩⟩

theorem isInferred (wellFormed : before.WellFormed) (inferred : before.IsInferred)
    (reads : before.ReadsOperands stage operand) (isOp : before.op? stage = some op)
    (elementwise : op.IsElementwise)
    (even : before.shape? operand.data.node = before.shape? stage) : after.IsInferred := by
  obtain ⟨data_live, stage_live⟩ := wellFormed.consistent.reads_live reads.reads_data
  have adds := loses.adds
  have first_inferred := inferred.adds wellFormed ⟨rfl, by simp⟩ adds fun _ => rfl
  refine (first_inferred.resources loses.resources fun node found => ?_).sheds loses.sheds
  have same : first.op? stage = some op :=
    (op?_congr (adds.grows.node_eq stage stage_live)).trans isOp
  rw [op?, found] at same
  cases Option.some.inj same
  rw [toNat_constantSlot operand]
  refine (loses.readsOperands_first wellFormed reads).infers elementwise ?_ ?_
  · rw [shape?_congr (adds.grows.node_eq _ data_live), even,
      ← shape?_congr (adds.grows.node_eq stage stage_live), shape?, found, Option.map_some]
  · exact (first_inferred.shape?_constant
      (constant?_eq_some_iff.mpr adds.op?_new)).trans (congrArg some loses.shape_eq)

end LosesAxes

omit [Scalar α] in
/-- A stage whose constant has no axes may stay as it is. -/
theorem ReadsOperands.bares_refl (reads : graph.ReadsOperands stage operand)
    (wellFormed : graph.WellFormed) (noAxes : operand.tensor.shape = []) :
    graph.Bares stage graph :=
  ⟨wellFormed, fun _ _ _ => rfl, fun _ _ _ _ => rfl, fun _ =>
    ⟨operand, operand, reads, reads, rfl, rfl, noAxes⟩⟩

theorem CollapsesConstant.trims (collapses : before.CollapsesConstant stage after)
    (wellFormed : before.WellFormed) (inferred : before.IsInferred)
    (reads : before.ReadsOperands stage operand) (isOp : before.op? stage = some op)
    (elementwise : op.IsElementwise)
    (even : before.shape? operand.data.node = before.shape? stage)
    (uniform : operand.tensor.isUniform = true) : before.Trims stage after := by
  rcases collapses.eq_or_losesAxes reads uniform with ⟨bare, rfl⟩ | ⟨_, _, _, _, loses⟩
  · have known := inferred.shape?_constant reads.constant?_eq
    exact ⟨reads.bares_refl wellFormed (Option.some.inj (known.symm.trans bare)), inferred⟩
  · exact ⟨loses.bares wellFormed reads,
      loses.isInferred wellFormed inferred reads isOp elementwise even⟩

omit [Scalar α]

namespace Bares

variable (bares : before.Bares stage after) (wellFormed : before.WellFormed)
  (old : before.contains id = true) (live : after.contains id = true)

include bares wellFormed old live

theorem readsOperands_iff (other : id ≠ stage) :
    after.ReadsOperands id operand ↔ before.ReadsOperands id operand := by
  have inputs := bares.inputs_eq id old live other
  have constants {output : Output} (member : output ∈ before.inputs id) :
      after.constant? output.node = before.constant? output.node :=
    constant?_congr (bares.node_eq output.node
      (wellFormed.consistent.reads_live (reads_of_mem_inputs member)).1
      (bares.wellFormed.consistent.reads_live (reads_of_mem_inputs (inputs ▸ member))).1)
  exact ⟨fun reads => reads.congr inputs.symm fun output member =>
      (constants (inputs ▸ member)).symm,
    fun reads => reads.congr inputs fun output member => constants member⟩

theorem places_eq : (after.constantOperand? id).map ConstantOperand.place =
    (before.constantOperand? id).map ConstantOperand.place := by
  by_cases equal : id = stage
  · subst equal
    obtain ⟨operand, trimmed, reads, trimmedReads, slot_eq, data_eq, _⟩ := bares.operand live
    rw [(constantOperand?_eq_some_iff (wellFormed.exact id)).mpr reads,
      (constantOperand?_eq_some_iff (bares.wellFormed.exact id)).mpr trimmedReads,
      Option.map_some, Option.map_some, ConstantOperand.place, ConstantOperand.place, slot_eq,
      data_eq]
  · refine congrArg (Option.map ConstantOperand.place) (Option.ext fun operand => ?_)
    rw [constantOperand?_eq_some_iff (wellFormed.exact id),
      constantOperand?_eq_some_iff (bares.wellFormed.exact id)]
    exact bares.readsOperands_iff wellFormed old live equal

end Bares

end Trims

/-! ## Chains without axes -/

/-- What a node reads is the end of a chain with a Multiply. -/
structure ReadsChain (graph : Graph α) (id : NodeId) (output scaled shifted : Output)
    (chain : DequantizationChain) : Prop where
  wellFormed : graph.WellFormed
  reads : output ∈ graph.inputs id
  isChain : graph.IsChain output scaled shifted chain
  multiply : chain.multiply = some output.node

/-- The same where shapes are inferred and the end of the chain has the shape of its data. -/
structure ReadsEvenly (graph : Graph α) (id : NodeId) (output scaled shifted : Output)
    (chain : DequantizationChain) : Prop
    extends graph.ReadsChain id output scaled shifted chain where
  inferred : graph.IsInferred
  even : graph.shape? chain.data.node = graph.shape? output.node

namespace ReadsChain

variable {stage : NodeId} {output scaled shifted : Output} {chain : DequantizationChain}

section Bares

variable (reads : before.ReadsChain id output scaled shifted chain)

include reads

theorem live : before.contains id = true ∧ before.contains output.node = true :=
  (reads.wellFormed.consistent.reads_live (reads_of_mem_inputs reads.reads)).symm

theorem independent {node : NodeId}
    (member : chain.subtract = some node ∨ chain.multiply = some node) :
    before.Independent id node := by
  have independent := reads.isChain.independent
    (independent_of_reads reads.wellFormed (reads_of_mem_inputs reads.reads))
  rcases member with present | present
  · exact independent.subtract node present
  · exact independent.multiply node present

theorem data_live : before.contains chain.data.node = true := by
  have wellFormed := reads.wellFormed
  have isChain := reads.isChain
  have scaled_live := isChain.multiply.live wellFormed reads.live.2
    fun _ => reads_of_underMultiply?
  have shifted_live := isChain.subtract.live wellFormed scaled_live
    fun _ => reads_of_underSubtract?
  exact isChain.convert.live wellFormed shifted_live fun _ => reads_of_underConvert?

theorem bares (bares : before.Bares stage after) (notConvert : before.kind? stage ≠ some .convert)
    (other : id ≠ stage) (stays : after.contains id = true) :
    after.ReadsChain id output scaled shifted chain := by
  obtain ⟨old, output_old⟩ := reads.live
  have member : output ∈ after.inputs id := by
    rw [bares.inputs_eq id old stays other]
    exact reads.reads
  have output_live := (bares.wellFormed.consistent.reads_live (reads_of_mem_inputs member)).1
  have kind_eq {source : Output} (old : before.contains source.node = true)
      (live : after.contains source.node = true) :
      after.kind? source.node = before.kind? source.node :=
    kind?_congr (bares.node_eq source.node old live)
  have wellFormed := reads.wellFormed
  have isChain := reads.isChain
  have multiply := isChain.multiply.congr (underMultiply?_congr (kind_eq output_old output_live)
    (bares.places_eq wellFormed output_old output_live))
  have scaled_old := isChain.multiply.live wellFormed output_old fun _ => reads_of_underMultiply?
  have scaled_live := multiply.live bares.wellFormed output_live fun _ => reads_of_underMultiply?
  have subtract := isChain.subtract.congr (underSubtract?_congr (kind_eq scaled_old scaled_live)
    (bares.places_eq wellFormed scaled_old scaled_live))
  have shifted_old := isChain.subtract.live wellFormed scaled_old fun _ => reads_of_underSubtract?
  have shifted_live := subtract.live bares.wellFormed scaled_live fun _ => reads_of_underSubtract?
  have convert : Peels after.underConvert? shifted chain.convert chain.data := by
    refine isChain.convert.congr (underConvert?_congr (kind_eq shifted_old shifted_live)
      fun isConvert => ?_)
    have different : shifted.node ≠ stage := fun equal => notConvert (equal ▸ isConvert)
    rw [(bares.wellFormed.exact _).input?_eq, (wellFormed.exact _).input?_eq,
      bares.inputs_eq _ shifted_old shifted_live different]
  exact ⟨bares.wellFormed, member, ⟨multiply, subtract, convert⟩, reads.multiply⟩

end Bares

/-! ### Both constants -/

section Constants

variable (reads : before.ReadsChain id output scaled shifted chain)
  (reads' : after.ReadsChain id output scaled shifted chain) (bares : before.Bares stage after)

include reads reads' bares

theorem scale?_eq (different : output.node ≠ stage) : chain.scale? after = chain.scale? before := by
  obtain ⟨_, operand, _, isOperand, _, scale_eq⟩ :=
    reads.isChain.exists_multiplied reads.wellFormed reads.multiply
  obtain ⟨_, operand', _, isOperand', _, scale_eq'⟩ :=
    reads'.isChain.exists_multiplied reads'.wellFormed reads'.multiply
  have kept := (bares.readsOperands_iff reads.wellFormed reads.live.2 reads'.live.2
    different).mpr isOperand
  rw [scale_eq, scale_eq', isOperand'.unique kept]

theorem shift?_eq (different : scaled.node ≠ stage) : chain.shift? after = chain.shift? before := by
  cases present : chain.subtract with
  | none => rw [Graph.shift?_eq_none present, Graph.shift?_eq_none present]
  | some subtract =>
      obtain ⟨_, operand, isKind, isOperand, _, shift_eq⟩ :=
        reads.isChain.exists_subtracted reads.wellFormed present
      obtain ⟨_, operand', isKind', isOperand', _, shift_eq'⟩ :=
        reads'.isChain.exists_subtracted reads'.wellFormed present
      have kept := (bares.readsOperands_iff reads.wellFormed (contains_of_kind? isKind)
        (contains_of_kind? isKind') different).mpr isOperand
      rw [shift_eq, shift_eq', isOperand'.unique kept]

end Constants

/-- The scale has no axes once they are lost. -/
theorem scale_shape_eq (reads : after.ReadsChain id output scaled shifted chain)
    (bares : before.Bares output.node after) :
    ∀ scale, chain.scale? after = some scale → scale.shape = [] := by
  intro scale isScale
  obtain ⟨_, operand, _, isOperand, _, scale_eq⟩ :=
    reads.isChain.exists_multiplied reads.wellFormed reads.multiply
  obtain ⟨_, trimmed, _, isTrimmed, _, _, noAxes⟩ := bares.operand reads.live.2
  rw [← Option.some.inj (scale_eq.symm.trans isScale), isOperand.unique isTrimmed, noAxes]

theorem shift_shape_eq (reads : after.ReadsChain id output scaled shifted chain)
    (bares : before.Bares scaled.node after) :
    ∀ shift, chain.shift? after = some shift → shift.shape = [] := by
  intro shift isShift
  cases present : chain.subtract with
  | none =>
      rw [Graph.shift?_eq_none present] at isShift
      cases isShift
  | some subtract =>
      obtain ⟨_, operand, isKind, isOperand, _, shift_eq⟩ :=
        reads.isChain.exists_subtracted reads.wellFormed present
      obtain ⟨_, trimmed, _, isTrimmed, _, _, noAxes⟩ := bares.operand (contains_of_kind? isKind)
      rw [← Option.some.inj (shift_eq.symm.trans isShift), isOperand.unique isTrimmed, noAxes]

end ReadsChain

namespace ReadsEvenly

variable {stage : NodeId} {output scaled shifted : Output} {chain : DequantizationChain}

theorem even_tail (evenly : graph.ReadsEvenly id output scaled shifted chain) :
    graph.shape? chain.data.node = graph.shape? chain.tail.node := by
  rw [evenly.even, DequantizationChain.tail, evenly.multiply]
  rfl

theorem trims (evenly : before.ReadsEvenly id output scaled shifted chain)
    (trims : before.Trims stage after) (notConvert : before.kind? stage ≠ some .convert)
    (other : id ≠ stage) (stays : after.contains id = true) :
    after.ReadsEvenly id output scaled shifted chain := by
  have reads := evenly.bares trims.toBares notConvert other stays
  refine ⟨reads, trims.inferred, ?_⟩
  rw [shape?_congr (trims.node_eq _ evenly.data_live reads.data_live), evenly.even,
    shape?_congr (trims.node_eq _ evenly.live.2 reads.live.2)]

section Collapses

variable (evenly : before.ReadsEvenly id output scaled shifted chain)

include evenly

variable [Scalar α]

theorem collapses {kind : OpKind} {operand : ConstantOperand α}
    (collapses : before.CollapsesConstant stage after) (apart : before.Independent id stage)
    (isKind : before.kind? stage = some kind) (elementwise : kind = .subtract ∨ kind = .multiply)
    (reads : before.ReadsOperands stage operand)
    (even : before.shape? operand.data.node = before.shape? stage)
    (uniform : operand.tensor.isUniform = true) :
    before.Trims stage after ∧ after.ReadsEvenly id output scaled shifted chain := by
  obtain ⟨op, isOp, isElementwise⟩ := exists_elementwise isKind elementwise
  have trims := collapses.trims evenly.wellFormed evenly.inferred reads isOp isElementwise even
    uniform
  have stays := (collapses.keeps evenly.wellFormed evenly.live.1 apart).1
  refine ⟨trims, evenly.trims trims ?_ ?_ ((contains_congr stays).trans evenly.live.1)⟩
  · rw [isKind]
    rcases elementwise with rfl | rfl <;> exact fun equal => by cases equal
  · rintro rfl
    exact apart Relation.ReflTransGen.refl

theorem collapses_subtract (collapses : before.CollapsesStage chain.subtract after)
    (uniform : ∀ shift, chain.shift? before = some shift → shift.isUniform = true) :
    after.ReadsEvenly id output scaled shifted chain ∧
      chain.scale? after = chain.scale? before ∧
      ∀ shift, chain.shift? after = some shift → shift.shape = [] := by
  cases present : chain.subtract with
  | none =>
      rw [present] at collapses
      cases collapses
      refine ⟨evenly, rfl, fun shift isShift => ?_⟩
      rw [shift?_eq_none present] at isShift
      cases isShift
  | some subtract =>
      obtain ⟨rfl, operand, isKind, reads, rfl, shift_eq⟩ :=
        evenly.isChain.exists_subtracted evenly.wellFormed present
      obtain ⟨_, _, isMultiply, _⟩ :=
        evenly.isChain.exists_multiplied evenly.wellFormed evenly.multiply
      obtain ⟨data_even, even⟩ := evenly.isChain.shape?_eq evenly.inferred evenly.wellFormed
        evenly.live.2 evenly.even
      rw [present] at collapses
      obtain ⟨trims, evenly'⟩ := evenly.collapses collapses (evenly.independent (Or.inl present))
        isKind (Or.inl rfl) reads (data_even.trans even.symm) (uniform _ shift_eq)
      have different : output.node ≠ scaled.node := fun equal => by
        rw [equal, isKind] at isMultiply
        cases isMultiply
      exact ⟨evenly', evenly.scale?_eq evenly'.toReadsChain trims.toBares different,
        evenly'.shift_shape_eq trims.toBares⟩

theorem collapses_multiply (collapses : before.CollapsesStage chain.multiply after)
    (uniform : ∀ scale, chain.scale? before = some scale → scale.isUniform = true) :
    after.ReadsEvenly id output scaled shifted chain ∧
      chain.shift? after = chain.shift? before ∧
      ∀ scale, chain.scale? after = some scale → scale.shape = [] := by
  obtain ⟨_, operand, isKind, reads, rfl, scale_eq⟩ :=
    evenly.isChain.exists_multiplied evenly.wellFormed evenly.multiply
  obtain ⟨_, even⟩ := evenly.isChain.shape?_eq evenly.inferred evenly.wellFormed
    evenly.live.2 evenly.even
  rw [evenly.multiply] at collapses
  obtain ⟨trims, evenly'⟩ := evenly.collapses collapses
    (evenly.independent (Or.inr evenly.multiply)) isKind (Or.inr rfl) reads even
    (uniform _ scale_eq)
  have different : operand.data.node ≠ output.node := fun equal =>
    evenly.wellFormed.acyclic.not_reaches_of_reads reads.reads_data
      (equal ▸ Relation.ReflTransGen.refl)
  exact ⟨evenly', evenly.shift?_eq evenly'.toReadsChain trims.toBares different,
    evenly'.scale_shape_eq trims.toBares⟩

end Collapses

end ReadsEvenly

end Graph

end QuantGraph
