import QuantGraph.Proofs.Dequantization.Move
import QuantGraph.Proofs.Evaluation.Inference
import QuantGraph.Proofs.NDArray.Regrouping

/-! Inferred shapes along a chain. The shape of what a stage reads stretches to that of the
stage, so a chain whose end has the shape of its data has that shape everywhere. -/

namespace QuantGraph

namespace Graph

variable {graph : Graph α} {id : NodeId} {chain : DequantizationChain}

section Stages

variable {left middle right : NodeId} {output scaled shifted data : Output}

/-- The shape of a node stretches to the shape of another. -/
def Widens (graph : Graph α) (left right : NodeId) : Prop :=
  ∃ source target, graph.shape? left = some source ∧ graph.shape? right = some target ∧
    source.StretchesTo target

theorem widens_of_shape?_eq (live : graph.contains right = true)
    (same : graph.shape? left = graph.shape? right) : graph.Widens left right := by
  obtain ⟨node, found⟩ := contains_eq_true_iff.mp live
  have isShape : graph.shape? right = some node.shape := by rw [shape?, found, Option.map_some]
  exact ⟨node.shape, node.shape, same.trans isShape, isShape, Shape.stretchesTo_refl _⟩

theorem Widens.trans (first : graph.Widens left middle) (second : graph.Widens middle right) :
    graph.Widens left right := by
  obtain ⟨source, target, isSource, isTarget, stretches⟩ := first
  obtain ⟨source', target', isSource', isTarget', stretches'⟩ := second
  cases Option.some.inj (isTarget.symm.trans isSource')
  exact ⟨source, target', isSource, isTarget', stretches.trans stretches'⟩

/-- Between two nodes of one shape, all have that shape. -/
theorem Widens.shape?_eq (first : graph.Widens left middle) (second : graph.Widens middle right)
    (same : graph.shape? left = graph.shape? right) : graph.shape? middle = graph.shape? right := by
  obtain ⟨source, target, isSource, isTarget, stretches⟩ := first
  obtain ⟨source', target', isSource', isTarget', stretches'⟩ := second
  rw [isSource, isTarget'] at same
  rw [isTarget] at isSource' ⊢
  cases Option.some.inj isSource'
  cases Option.some.inj same
  rw [isTarget', stretches.antisymm stretches']

/-! ## Stages -/

/-- The shapes of the first two inputs of an elementwise operation broadcast to its shape. -/
theorem IsInferred.broadcast_of_inputs (inferred : graph.IsInferred)
    (consistent : graph.IsConsistent) {op : Op α} {rest : List Output}
    (isOp : graph.op? id = some op) (elementwise : op.IsElementwise)
    (inputs : graph.inputs id = data :: output :: rest) :
    ∃ left right shape, graph.shape? data.node = some left ∧
      graph.shape? output.node = some right ∧ graph.shape? id = some shape ∧
      left.broadcast right = some shape := by
  have shapes (source : Output) (member : source ∈ graph.inputs id) :
      ∃ shape, graph.shape? source.node = some shape := by
    obtain ⟨node, found⟩ := contains_eq_true_iff.mp
      (consistent.reads_live (reads_of_mem_inputs member)).1
    exact ⟨node.shape, by rw [shape?, found, Option.map_some]⟩
  obtain ⟨left, isLeft⟩ := shapes data (by simp [inputs])
  obtain ⟨right, isRight⟩ := shapes output (by simp [inputs])
  obtain ⟨node, found, rfl⟩ := Option.map_eq_some_iff.mp isOp
  have notParameter : node.op.kind ≠ .parameter := by
    rcases elementwise with equal | equal <;> rw [equal] <;> exact fun same => by cases same
  have infers := isInferred_iff.mp inferred id node found notParameter
  rw [inputs, shapesOf_cons isLeft, shapesOf_cons isRight,
    Op.inferShape_eq_ok elementwise] at infers
  exact ⟨left, right, node.shape, isLeft, isRight, by rw [shape?, found, Option.map_some], infers⟩

theorem IsInferred.widens_of_inputs (inferred : graph.IsInferred) (wellFormed : graph.WellFormed)
    {op : Op α} {rest : List Output} (isOp : graph.op? id = some op)
    (elementwise : op.IsElementwise) (inputs : graph.inputs id = data :: output :: rest) :
    graph.Widens data.node id ∧ graph.Widens output.node id := by
  obtain ⟨left, right, shape, isLeft, isRight, isShape, common⟩ :=
    inferred.broadcast_of_inputs wellFormed.consistent isOp elementwise inputs
  obtain ⟨first, second, _⟩ := Shape.broadcast_eq_some_iff.mp common
  exact ⟨⟨left, shape, isLeft, isShape, first⟩, ⟨right, shape, isRight, isShape, second⟩⟩

/-- A Convert has the shape of what it reads. -/
theorem IsInferred.shape?_convert (inferred : graph.IsInferred) (consistent : graph.IsConsistent)
    (isConvert : graph.kind? id = some .convert) (read : graph.input? id 0 = some data) :
    graph.shape? id = graph.shape? data.node := by
  rw [kind?_eq_map_op?] at isConvert
  obtain ⟨op, isOp, isKind⟩ := Option.map_eq_some_iff.mp isConvert
  obtain ⟨rest, inputs⟩ := inputs_eq_cons read
  obtain ⟨node, present⟩ :=
    contains_eq_true_iff.mp (consistent.reads_live (reads_of_input? read)).1
  have isShape : graph.shape? data.node = some node.shape := by
    rw [shape?, present, Option.map_some]
  rw [isShape]
  refine inferred.shape?_eq isOp (fun equal => by rw [isKind] at equal; cases equal) ?_
  rw [inputs, shapesOf_cons isShape]
  cases op <;> cases isKind
  rfl

theorem ReadsOperands.widens {operand : ConstantOperand α} (reads : graph.ReadsOperands id operand)
    (inferred : graph.IsInferred) (wellFormed : graph.WellFormed) {op : Op α}
    (isOp : graph.op? id = some op) (elementwise : op.IsElementwise) :
    graph.Widens operand.data.node id ∧ graph.Widens operand.constant id := by
  cases reads with
  | constantLast inputs => exact inferred.widens_of_inputs wellFormed isOp elementwise inputs
  | constantFirst inputs =>
      exact (inferred.widens_of_inputs wellFormed isOp elementwise inputs).symm

theorem exists_elementwise {kind : OpKind} (found : graph.kind? id = some kind)
    (elementwise : kind = .subtract ∨ kind = .multiply) :
    ∃ op, graph.op? id = some op ∧ op.IsElementwise := by
  rw [kind?_eq_map_op?] at found
  obtain ⟨op, isOp, isKind⟩ := Option.map_eq_some_iff.mp found
  refine ⟨op, isOp, ?_⟩
  rcases elementwise with rfl | rfl
  · cases op <;> cases isKind
    exact Or.inl rfl
  · cases op <;> cases isKind
    exact Or.inr rfl

section Under

variable (inferred : graph.IsInferred) (wellFormed : graph.WellFormed)

include inferred wellFormed

theorem widens_of_constantOperand? {kind : OpKind} {operand : ConstantOperand α}
    (found : graph.constantOperand? id = some operand) (isKind : graph.kind? id = some kind)
    (elementwise : kind = .subtract ∨ kind = .multiply) :
    graph.Widens operand.data.node id ∧ graph.Widens operand.constant id := by
  obtain ⟨op, isOp, isElementwise⟩ := exists_elementwise isKind elementwise
  exact ((constantOperand?_eq_some_iff (wellFormed.exact id)).mp found).widens inferred wellFormed
    isOp isElementwise

theorem widens_of_underMultiply? (found : graph.underMultiply? output = some data) :
    graph.Widens data.node output.node := by
  obtain ⟨isKind, operand, isOperand, rfl⟩ := underMultiply?_eq_some.mp found
  exact (widens_of_constantOperand? inferred wellFormed isOperand isKind (Or.inr rfl)).1

theorem widens_of_underSubtract? (found : graph.underSubtract? output = some data) :
    graph.Widens data.node output.node := by
  obtain ⟨isKind, operand, isOperand, _, rfl⟩ := underSubtract?_eq_some.mp found
  exact (widens_of_constantOperand? inferred wellFormed isOperand isKind (Or.inl rfl)).1

theorem widens_of_underConvert? (found : graph.underConvert? output = some data) :
    graph.Widens data.node output.node := by
  obtain ⟨isConvert, read⟩ := underConvert?_eq_some.mp found
  exact widens_of_shape?_eq (wellFormed.consistent.reads_live (reads_of_input? read)).2
    (inferred.shape?_convert wellFormed.consistent isConvert read).symm

end Under

/-! ## Chains -/

theorem Peels.widens {under : Output → Option Output} {stage : Option NodeId}
    (peels : Peels under output stage data) (live : graph.contains output.node = true)
    (each : ∀ data, under output = some data → graph.Widens data.node output.node) :
    graph.Widens data.node output.node := by
  cases peels with
  | stage found => exact each data found
  | skipped => exact widens_of_shape?_eq live rfl

theorem Peels.shape?_eq {under : Output → Option Output} {stage : Option NodeId}
    (peels : Peels under output stage data)
    (each : ∀ data, under output = some data →
      graph.shape? output.node = graph.shape? data.node) :
    graph.shape? output.node = graph.shape? data.node := by
  cases peels with
  | stage found => exact each data found
  | skipped => rfl

theorem Peels.eq_of_none {under : Output → Option Output} {stage : Option NodeId}
    (peels : Peels under output stage data) (skips : stage = none) : data = output := by
  cases peels with
  | stage => cases skips
  | skipped => rfl

theorem Widens.live (widens : graph.Widens left right) : graph.contains left = true := by
  obtain ⟨_, _, isShape, _⟩ := widens
  obtain ⟨node, found, _⟩ := Option.map_eq_some_iff.mp isShape
  exact contains_of_node? found

theorem shift?_eq_none (unshifted : chain.subtract = none) : chain.shift? graph = none := by
  simp [DequantizationChain.shift?, DequantizationChain.subtractConstant?, unshifted]

namespace IsChain

theorem exists_multiplied (isChain : graph.IsChain output scaled shifted chain)
    (wellFormed : graph.WellFormed) {multiply : NodeId} (present : chain.multiply = some multiply) :
    multiply = output.node ∧ ∃ operand, graph.kind? output.node = some .multiply ∧
      graph.ReadsOperands output.node operand ∧ operand.data = scaled ∧
      chain.scale? graph = some operand.tensor := by
  have once := (wellFormed.exact multiply).hasDistinctSlots.readsOnce 0
  obtain ⟨rfl, isKind, operand, isOperand, data_eq, _, scale_eq⟩ := isChain.exists_scale present once
  exact ⟨rfl, operand, isKind, readsOperands_of_constantOperand? once isOperand, data_eq, scale_eq⟩

theorem exists_subtracted (isChain : graph.IsChain output scaled shifted chain)
    (wellFormed : graph.WellFormed) {subtract : NodeId} (present : chain.subtract = some subtract) :
    subtract = scaled.node ∧ ∃ operand, graph.kind? scaled.node = some .subtract ∧
      graph.ReadsOperands scaled.node operand ∧ operand.data = shifted ∧
      chain.shift? graph = some operand.tensor := by
  have once := (wellFormed.exact subtract).hasDistinctSlots.readsOnce 0
  obtain ⟨rfl, isKind, operand, isOperand, _, data_eq, _, shift_eq⟩ := isChain.exists_shift present
  exact ⟨rfl, operand, isKind, readsOperands_of_constantOperand? once isOperand, data_eq, shift_eq⟩

variable (isChain : graph.IsChain output scaled shifted chain) (inferred : graph.IsInferred)
  (wellFormed : graph.WellFormed) (live : graph.contains output.node = true)

include isChain inferred wellFormed live

theorem widens : graph.Widens chain.data.node shifted.node ∧
    graph.Widens shifted.node scaled.node ∧ graph.Widens scaled.node output.node := by
  have third := isChain.multiply.widens live fun _ => widens_of_underMultiply? inferred wellFormed
  have second := isChain.subtract.widens third.live fun _ =>
    widens_of_underSubtract? inferred wellFormed
  have first := isChain.convert.widens second.live fun _ =>
    widens_of_underConvert? inferred wellFormed
  exact ⟨first, second, third⟩

/-- A chain whose end has the shape of its data has that shape at every stage. -/
theorem shape?_eq (even : graph.shape? chain.data.node = graph.shape? output.node) :
    graph.shape? shifted.node = graph.shape? output.node ∧
      graph.shape? scaled.node = graph.shape? output.node := by
  obtain ⟨first, second, third⟩ := isChain.widens inferred wellFormed live
  exact ⟨first.shape?_eq (second.trans third) even, (first.trans second).shape?_eq third even⟩

end IsChain

end Stages

/-! ## Behind an operation -/

/-- The constants of a chain stretch to the shape of a node. -/
def FitsBehind (graph : Graph α) (chain : DequantizationChain) (id : NodeId) : Prop :=
  ∀ tensor, chain.scale? graph = some tensor ∨ chain.shift? graph = some tensor →
    ∀ shape, graph.shape? id = some shape → tensor.shape.StretchesTo shape

instance (graph : Graph α) (chain : DequantizationChain) (id : NodeId) :
    Decidable (graph.FitsBehind chain id) :=
  decidable_of_iff ((∀ scale ∈ chain.scale? graph, ∀ shape ∈ graph.shape? id,
      scale.shape.StretchesTo shape) ∧
      ∀ shift ∈ chain.shift? graph, ∀ shape ∈ graph.shape? id, shift.shape.StretchesTo shape)
    ⟨fun fits tensor used => used.elim (fits.1 tensor) (fits.2 tensor),
      fun fits => ⟨fun scale isScale => fits scale (Or.inl isScale),
        fun shift isShift => fits shift (Or.inr isShift)⟩⟩

/-- The shape that a node has once it reads the data of a chain in place of its end. -/
def shapePast? (graph : Graph α) (chain : DequantizationChain) (id : NodeId) : Option Shape := do
  let multiply ← chain.multiply
  let slot ← (graph.slotReading multiply id).toOption
  let op ← graph.op? id
  (op.inferShape (graph.shapesOf ((graph.inputs id).set slot chain.data))).toOption

theorem shapePast?_eq_some_iff {past : Shape} :
    graph.shapePast? chain id = some past ↔
      ∃ multiply slot op, chain.multiply = some multiply ∧
        graph.slotReading multiply id = .ok slot ∧ graph.op? id = some op ∧
        op.inferShape (graph.shapesOf ((graph.inputs id).set slot chain.data)) = .ok past := by
  have toOption {ε β : Type} {outcome : Except ε β} {value : β} :
      outcome.toOption = some value ↔ outcome = .ok value := by
    cases outcome <;> simp [Except.toOption]
  simp only [shapePast?, Option.bind_eq_bind, Option.bind_eq_some_iff, toOption]
  simp only [exists_and_left]

/-- The shapes of the constants of a chain. -/
def constantShapes (graph : Graph α) (chain : DequantizationChain) : List Shape :=
  ((chain.scale? graph).toList ++ (chain.shift? graph).toList).map Tensor.shape

/-- A node has the least shape to which stretch the one that it has past a chain and those of the
constants of the chain. -/
def FitsPast (graph : Graph α) (chain : DequantizationChain) (id : NodeId) : Prop :=
  ∃ past shape, graph.shapePast? chain id = some past ∧ graph.shape? id = some shape ∧
    Shape.IsLeastCommon (graph.constantShapes chain ++ [past]) shape

theorem mem_constantShapes {shape : Shape} :
    shape ∈ graph.constantShapes chain ↔
      ∃ tensor, (chain.scale? graph = some tensor ∨ chain.shift? graph = some tensor) ∧
        tensor.shape = shape := by
  simp [constantShapes, or_and_right, exists_or]

theorem ReadsOperands.exists_isLeastCommon {operand : ConstantOperand α} {dataShape : Shape}
    {shapes : List Shape} (reads : graph.ReadsOperands id operand) (inferred : graph.IsInferred)
    (wellFormed : graph.WellFormed) {op : Op α} (isOp : graph.op? id = some op)
    (elementwise : op.IsElementwise) (isData : graph.shape? operand.data.node = some dataShape)
    (least : Shape.IsLeastCommon shapes dataShape) :
    ∃ shape, graph.shape? id = some shape ∧
      Shape.IsLeastCommon (operand.tensor.shape :: shapes) shape := by
  have isConstant := inferred.shape?_constant reads.constant?_eq
  cases reads with
  | constantLast inputs =>
      obtain ⟨left, right, shape, isLeft, isRight, isShape, common⟩ :=
        inferred.broadcast_of_inputs wellFormed.consistent isOp elementwise inputs
      cases Option.some.inj (isLeft.symm.trans isData)
      cases Option.some.inj (isRight.symm.trans isConstant)
      exact ⟨shape, isShape, least.broadcast_iff.mp common⟩
  | constantFirst inputs =>
      obtain ⟨left, right, shape, isLeft, isRight, isShape, common⟩ :=
        inferred.broadcast_of_inputs wellFormed.consistent isOp elementwise inputs
      cases Option.some.inj (isLeft.symm.trans isConstant)
      cases Option.some.inj (isRight.symm.trans isData)
      rw [Shape.broadcast_comm] at common
      exact ⟨shape, isShape, least.broadcast_iff.mp common⟩

/-- The end of a chain has the least shape to which stretch that of its data and those of its
constants. -/
theorem IsChain.exists_isLeastCommon {output scaled shifted : Output}
    (isChain : graph.IsChain output scaled shifted chain) (inferred : graph.IsInferred)
    (wellFormed : graph.WellFormed) (present : chain.multiply = some output.node)
    (live : graph.contains output.node = true) :
    ∃ dataShape shape, graph.shape? chain.data.node = some dataShape ∧
      graph.shape? output.node = some shape ∧
      Shape.IsLeastCommon (graph.constantShapes chain ++ [dataShape]) shape := by
  obtain ⟨toShifted, _, _⟩ := isChain.widens inferred wellFormed live
  obtain ⟨dataShape, _, isData, _⟩ := toShifted
  have isShifted : graph.shape? shifted.node = some dataShape := by
    rw [isChain.convert.shape?_eq fun data found => ?_, isData]
    obtain ⟨isConvert, read⟩ := underConvert?_eq_some.mp found
    exact inferred.shape?_convert wellFormed.consistent isConvert read
  obtain ⟨between, isScaled, least⟩ : ∃ between, graph.shape? scaled.node = some between ∧
      Shape.IsLeastCommon ((chain.shift? graph).toList.map Tensor.shape ++ [dataShape]) between := by
    have start := Shape.isLeastCommon_singleton dataShape
    cases subtracts : chain.subtract with
    | none =>
        rw [shift?_eq_none subtracts, ← isChain.subtract.eq_of_none subtracts]
        exact ⟨dataShape, isShifted, start⟩
    | some subtract =>
        obtain ⟨_, operand, isKind, reads, rfl, shift_eq⟩ :=
          isChain.exists_subtracted wellFormed subtracts
        obtain ⟨op, isOp, elementwise⟩ := exists_elementwise isKind (Or.inl rfl)
        rw [shift_eq]
        exact reads.exists_isLeastCommon inferred wellFormed isOp elementwise isShifted start
  obtain ⟨_, operand, isKind, reads, rfl, scale_eq⟩ := isChain.exists_multiplied wellFormed present
  obtain ⟨op, isOp, elementwise⟩ := exists_elementwise isKind (Or.inr rfl)
  obtain ⟨shape, isShape, least⟩ :=
    reads.exists_isLeastCommon inferred wellFormed isOp elementwise isScaled least
  refine ⟨dataShape, shape, isData, isShape, ?_⟩
  rw [constantShapes, scale_eq]
  exact least

/-- A node that has its shape past a chain as well has room for constants that stretch to it, and
for no others. -/
theorem fitsPast_iff_fitsBehind {shape : Shape} (isShape : graph.shape? id = some shape)
    (same : graph.shapePast? chain id = some shape) :
    graph.FitsPast chain id ↔ graph.FitsBehind chain id := by
  constructor
  · rintro ⟨_, shape', _, isShape', least⟩ tensor used other isOther
    cases Option.some.inj (isShape'.symm.trans isOther)
    exact least.stretches tensor.shape
      (List.mem_append_left _ (mem_constantShapes.mpr ⟨tensor, used, rfl⟩))
  · intro fits
    refine ⟨shape, shape, same, isShape, fun other member => ?_, fun target all => ?_⟩
    · rcases List.mem_append.mp member with listed | own
      · obtain ⟨tensor, used, rfl⟩ := mem_constantShapes.mp listed
        exact fits tensor used shape isShape
      · exact List.mem_singleton.mp own ▸ Shape.stretchesTo_refl shape
    · exact all shape (List.mem_append_right _ (List.mem_singleton_self shape))

/-- A Multiply has taken the place of a node. -/
structure MovesBehind (before : Graph α) (id tail : NodeId) (after : Graph α) : Prop where
  kind_eq : after.kind? tail = some .multiply
  input?_eq : ∀ reader slot index, before.input? reader slot = some ⟨id, index⟩ →
    after.input? reader slot = some ⟨tail, index⟩

/-- The Multiply has the shape of the node as well, and all shapes are inferred. -/
structure MovesEvenly (before : Graph α) (id tail : NodeId) (after : Graph α) : Prop
    extends before.MovesBehind id tail after where
  inferred : after.IsInferred
  shape_eq : after.shape? tail = before.shape? id

section Moves

variable {before middle after : Graph α} {plan : ChainMove} {shape : Shape} {name : String}
  {copy last converted shifted tail : NodeId} {updatePrecision moveSubtract : Bool}

theorem chainMove_constants (planned : before.chainMove id chain moveSubtract = .ok plan) :
    (∃ tensor, before.constant? plan.scale = some tensor ∧ chain.scale? before = some tensor) ∧
      ∀ shift, plan.shift = some shift →
        ∃ tensor, before.constant? shift = some tensor ∧ chain.shift? before = some tensor := by
  obtain ⟨_, _, isScale, _, _, _, _, shift_eq⟩ := chainMove_eq_ok planned
  constructor
  · obtain ⟨multiply, _, found⟩ := DequantizationChain.multiplyConstant?_eq_some isScale
    obtain ⟨tensor, isTensor⟩ := isConstant_iff.mp (List.find?_some found)
    exact ⟨tensor, isTensor, by
      rw [DequantizationChain.scale?, isScale, Option.bind_some, isTensor]⟩
  · intro shift isShift
    rw [shift_eq] at isShift
    split at isShift
    case isTrue =>
      obtain ⟨_, _, _, isConstant⟩ := DequantizationChain.subtractConstant?_eq_some isShift
      obtain ⟨tensor, isTensor⟩ := isConstant_iff.mp isConstant
      exact ⟨tensor, isTensor, by
        rw [DequantizationChain.shift?, isShift, Option.bind_some, isTensor]⟩
    case isFalse => cases isShift

theorem GrowsTo.convertsLike (grows : before.GrowsTo shape last middle)
    (converts : middle.ConvertsLike last chain plan converted after) :
    before.GrowsTo shape converted after := by
  obtain ⟨multiplyType, _, converts⟩ := converts
  split at converts
  case isTrue =>
    obtain ⟨rfl, rfl⟩ := converts
    exact grows
  case isFalse =>
    refine grows.adds converts ⟨rfl, by simp⟩ rfl (fun equal => by cases equal) ?_
    rw [shapesOf_cons grows.last_shape]
    exact Op.inferShape_convert

theorem GrowsTo.exists_shiftsBy {shift : Option NodeId} {shapes : List Shape}
    (grows : before.GrowsTo shape last middle) (least : Shape.IsLeastCommon shapes shape)
    (shifts : middle.ShiftsBy last shift name shifted after)
    (known : ∀ node, shift = some node → ∃ constantShape,
      before.shape? node = some constantShape) :
    ∃ grown, before.GrowsTo grown shifted after ∧
      Shape.IsLeastCommon ((shift.bind before.shape?).toList ++ shapes) grown := by
  cases shift with
  | none =>
      obtain ⟨rfl, rfl⟩ := shifts
      exact ⟨shape, grows, least⟩
  | some node =>
      obtain ⟨constantShape, isShape⟩ := known node rfl
      obtain ⟨grown, grows', common⟩ := grows.exists_adds_elementwise (Or.inl rfl) shifts isShape
      rw [Option.bind_some, isShape]
      exact ⟨grown, grows', least.broadcast_iff.mp common⟩

/-- The constants that a chain takes along when its Subtract, if there is one, moves too. -/
theorem constantShapes_of_chainMove (inferred : before.IsInferred)
    (planned : before.chainMove id chain moveSubtract = .ok plan)
    (together : moveSubtract = false → chain.subtract = none) :
    ∃ scaleShape, before.shape? plan.scale = some scaleShape ∧
      (∀ shift, plan.shift = some shift → ∃ shape, before.shape? shift = some shape) ∧
      before.constantShapes chain = scaleShape :: (plan.shift.bind before.shape?).toList := by
  obtain ⟨⟨scale, isScale, scale_eq⟩, shifts⟩ := chainMove_constants planned
  have shape_of {constant : NodeId} {tensor : Tensor α}
      (isTensor : before.constant? constant = some tensor) :
      before.shape? constant = some tensor.shape := inferred.shape?_constant isTensor
  refine ⟨scale.shape, shape_of isScale, fun shift isShift => ?_, ?_⟩
  · obtain ⟨tensor, isTensor, _⟩ := shifts shift isShift
    exact ⟨tensor.shape, shape_of isTensor⟩
  · rw [constantShapes, scale_eq]
    refine congrArg (List.cons scale.shape) ?_
    cases isShift : plan.shift with
    | some shift =>
        obtain ⟨tensor, isTensor, shift_eq⟩ := shifts shift isShift
        rw [shift_eq, Option.bind_some, shape_of isTensor]
        rfl
    | none =>
        obtain ⟨_, _, _, _, _, _, _, shift_eq⟩ := chainMove_eq_ok planned
        rw [isShift] at shift_eq
        have unshifted : chain.subtractConstant? before = none := by
          cases moved : moveSubtract with
          | true => rw [shift_eq, moved, if_pos rfl]
          | false => rw [DequantizationChain.subtractConstant?, together moved]; rfl
        rw [DequantizationChain.shift?, unshifted]
        rfl

/-- A copy that reads past a chain has the shape that the node has past the chain. -/
theorem MovesChain.exists_growsTo_copied {node : Node α} {copied : Graph α}
    (wellFormed : before.WellFormed) (inferred : before.IsInferred)
    (planned : before.chainMove id chain moveSubtract = .ok plan)
    (together : moveSubtract = false → chain.subtract = none)
    (found : before.node? id = some node)
    (adds : before.Adds (copyDraft node plan.inputs) plan.inputs copy copied) :
    ∃ past, before.GrowsTo past copy copied ∧ before.shapePast? chain id = some past := by
  obtain ⟨slot, isMultiply, _, read, _, source_eq, inputs_eq, _⟩ := chainMove_eq_ok planned
  obtain ⟨op_eq, undeclared, _⟩ := GraphRevision.copyDraft_eq node plan.inputs
  have bound : plan.inputs.length ≤ 256 := by
    rw [inputs_eq, List.length_set, length_inputs]
    exact (wellFormed.exact id).inputCount_le
  have start : before.GrowsTo node.shape id before :=
    .refl wellFormed inferred (by rw [shape?, found, Option.map_some])
  obtain ⟨past, grows, infers⟩ := start.exists_adds adds
    (GraphRevision.copyDraft_readsInOrder node bound) undeclared
  rw [op_eq, inputs_eq, source_eq, sourcePast_eq_data together] at infers
  exact ⟨past, grows, shapePast?_eq_some_iff.mpr
    ⟨_, slot, node.op, isMultiply, read, by rw [op?, found, Option.map_some], infers⟩⟩

namespace MovesChain

section Moved

variable (moves : before.MovesChain id chain updatePrecision moveSubtract plan copy tail after)
  (wellFormed : before.WellFormed) (inferred : before.IsInferred)

include moves wellFormed inferred

/-- A node has its shape past a chain as well when the chain keeps that of its data. -/
theorem exists_shapePast?_eq
    (even : before.shape? chain.data.node = before.shape? chain.tail.node) :
    ∃ shape, before.shape? id = some shape ∧ before.shapePast? chain id = some shape := by
  obtain ⟨node, _, _, _, _, _, _, _, found, addsCopy, _⟩ := moves.steps
  obtain ⟨op_eq, undeclared, _⟩ := GraphRevision.copyDraft_eq node plan.inputs
  have notParameter : node.op.kind ≠ .parameter := op_eq ▸ addsCopy.kind_ne_parameter undeclared
  obtain ⟨slot, isMultiply, _, read, _⟩ := chainMove_eq_ok moves.planned
  obtain ⟨edge, member, source, target, rfl⟩ := slotReading_eq_ok read
  have reads : (before.inputs id)[edge.inputSlot.toNat]? = some edge.source :=
    (wellFormed.exact id).getElem?_inputs.mpr ⟨edge, member, rfl, target, rfl⟩
  have same : before.shape? chain.data.node = before.shape? edge.source.node := by
    rw [even, DequantizationChain.tail, isMultiply, source]
    rfl
  have infers := isInferred_iff.mp inferred id node found notParameter
  rw [← shapesOf_set reads same] at infers
  exact ⟨node.shape, by rw [shape?, found, Option.map_some], shapePast?_eq_some_iff.mpr
    ⟨_, _, node.op, isMultiply, read, by rw [op?, found, Option.map_some], infers⟩⟩

variable (together : moveSubtract = false → chain.subtract = none)

include together

/-- The Multiply behind a chain that has moved past a node has the least shape to which stretch the
one that the node has past the chain and those of the constants. -/
theorem exists_shape : before.MovesBehind id tail after ∧
    ∃ past shape, before.shapePast? chain id = some past ∧ after.shape? tail = some shape ∧
      Shape.IsLeastCommon (before.constantShapes chain ++ [past]) shape ∧
      (before.shape? id = some shape → after.IsInferred) := by
  obtain ⟨node, copied, declared, converted, withConvert, shifted, withShift, withTail, found,
    addsCopy, declares, converts, shifts, addsTail, replaces⟩ := moves.steps
  obtain ⟨scaleShape, isScale, isShift, constants⟩ :=
    constantShapes_of_chainMove inferred moves.planned together
  obtain ⟨past, growsCopied, isPast⟩ :=
    exists_growsTo_copied wellFormed inferred moves.planned together found addsCopy
  have growsDeclared : before.GrowsTo past copy declared := by
    split at declares
    case isTrue =>
      obtain ⟨precision, _, _, declares⟩ := declares
      exact growsCopied.declares declares fun _ => ⟨rfl, rfl, rfl, rfl⟩
    case isFalse => exact declares ▸ growsCopied
  obtain ⟨_, growsShifted, leastShifted⟩ := (growsDeclared.convertsLike converts).exists_shiftsBy
    (Shape.isLeastCommon_singleton past) shifts isShift
  obtain ⟨shape, grows, common⟩ :=
    growsShifted.exists_adds_elementwise (Or.inr rfl) addsTail isScale
  have live : before.contains id = true := contains_of_node? found
  have tail_live : after.contains tail = true :=
    replaces.keeps grows.wellFormed.acyclic replaces.new_live
      (addsTail.grows.independent growsShifted.wellFormed.consistent addsTail.fresh
        (growsShifted.live id live))
  refine ⟨⟨?_, fun reader slot index reads => ?_⟩, past, shape, isPast, ?_, ?_, fun same => ?_⟩
  · rw [kind?_congr (replaces.node_eq tail_live), kind?_of_op? addsTail.op?_new]
    rfl
  · have reader_live := live_of_reads wellFormed (reads_of_input? reads)
    refine replaces.input?_eq grows.wellFormed
      (addsTail.ne_of_live (growsShifted.live reader reader_live)) ?_
    rw [(grows.wellFormed.exact reader).input?_eq, grows.inputs_eq reader reader_live,
      ← (wellFormed.exact reader).input?_eq, reads]
  · rw [shape?_congr (replaces.node_eq tail_live), grows.last_shape]
  · rw [constants, List.cons_append]
    exact leastShifted.broadcast_iff.mp common
  · refine grows.inferred.replaces grows.wellFormed replaces ?_
    rw [grows.last_shape, grows.shape_eq id live, same]

theorem movesEvenly_iff : before.MovesEvenly id tail after ↔ before.FitsPast chain id := by
  obtain ⟨behind, past, shape, isPast, isShape, least, infers⟩ :=
    moves.exists_shape wellFormed inferred together
  constructor
  · intro evenly
    exact ⟨past, shape, isPast, evenly.shape_eq.symm.trans isShape, least⟩
  · rintro ⟨past', shape', isPast', isShape', least'⟩
    cases Option.some.inj (isPast'.symm.trans isPast)
    obtain rfl := least.unique least'
    exact ⟨behind, infers isShape', isShape.trans isShape'.symm⟩

end Moved

end MovesChain

end Moves

end Graph

end QuantGraph
