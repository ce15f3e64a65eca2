import Mathlib
import QuantGraph.Proofs.Evaluation.Commutation
import QuantGraph.Proofs.Rules.FusedValues
import QuantGraph.Proofs.Rules.Shapes

/-! The values of a graph in which a dequantization has moved from the input of an operation to its
output. The operation is copied onto the data, the chain is built anew behind the copy, and what is
computed at its end is what the operation gave, when the operation commutes with the chain. -/

namespace QuantGraph

/-- What a Convert converts to. -/
def Op.destination? : Op α → Option ElementType
  | .convert type => some type
  | _ => none

namespace Graph

variable {before middle after graph : Graph α} {id : NodeId} {chain : DequantizationChain}

/-! ## Chains -/

/-- A chain converts to real numbers and gives real numbers. -/
structure RestoresReal (graph : Graph α) (chain : DequantizationChain) : Prop where
  destination : ∀ convert ∈ chain.convert, ∀ type ∈ (graph.op? convert).bind Op.destination?,
    type.isReal = true
  converted : ∀ convert ∈ chain.convert, ∀ type ∈ graph.elementType? convert, type.isReal = true
  multiplied : ∀ multiply ∈ chain.multiply, ∀ type ∈ graph.elementType? multiply,
    type.isReal = true

instance (graph : Graph α) (chain : DequantizationChain) : Decidable (graph.RestoresReal chain) :=
  decidable_of_iff ((∀ convert ∈ chain.convert,
      (∀ type ∈ (graph.op? convert).bind Op.destination?, type.isReal = true) ∧
        ∀ type ∈ graph.elementType? convert, type.isReal = true) ∧
      ∀ multiply ∈ chain.multiply, ∀ type ∈ graph.elementType? multiply, type.isReal = true)
    ⟨fun real => ⟨fun convert present => (real.1 convert present).1,
      fun convert present => (real.1 convert present).2, real.2⟩,
    fun real => ⟨fun convert present => ⟨real.destination convert present,
      real.converted convert present⟩, real.multiplied⟩⟩

theorem IsChain.live_of_mem_stages {output scaled shifted : Output} {stage : NodeId}
    (isChain : graph.IsChain output scaled shifted chain) (member : stage ∈ chain.stages) :
    graph.contains stage = true := by
  simp only [DequantizationChain.stages, List.mem_append, Option.mem_toList] at member
  rcases member with (present | present) | present
  · obtain ⟨rfl, under⟩ := isChain.convert.stage_eq present
    exact contains_of_kind? (underConvert?_eq_some.mp under).1
  · obtain ⟨rfl, under⟩ := isChain.subtract.stage_eq present
    exact contains_of_kind? (underSubtract?_eq_some.mp under).1
  · obtain ⟨rfl, under⟩ := isChain.multiply.stage_eq present
    exact contains_of_kind? (underMultiply?_eq_some.mp under).1

section Values

variable [Scalar α] {feeds : Assignment α} {output scaled shifted : Output} {value : NDArray α}

theorem HasValue.exists_converted {destination : ElementType} {data : Output}
    (has : graph.HasValue feeds id value) (exact : graph.HasExactSlots id)
    (isOp : graph.op? id = some (.convert destination)) (read : graph.input? id 0 = some data) :
    ∃ given, graph.HasValue feeds data.node given ∧ value = given.map destination.convert := by
  obtain ⟨node, inputs, found, derives, computed⟩ := hasValue_iff.mp has
  rw [op?, found, Option.map_some, Option.some.injEq] at isOp
  rw [exact.input?_eq] at read
  obtain ⟨given, isGiven⟩ := exists_getElem?_of_length_eq derives.length_eq.symm read
  rw [isOp, Op.evaluate_convert destination isGiven] at computed
  exact ⟨given, related_of_getElem? derives read isGiven, (Except.ok.inj computed).symm⟩

omit [Scalar α] in
theorem op?_elementwise (binary : BinaryOp)
    (isKind : graph.kind? id = some (Op.elementwise binary : Op α).kind) :
    graph.op? id = some (Op.elementwise binary) := by
  obtain ⟨node, found, kind⟩ := Option.map_eq_some_iff.mp isKind
  rw [op?, found, Option.map_some, Op.eq_elementwise binary kind]

namespace IsChain

variable (isChain : graph.IsChain output scaled shifted chain)

include isChain

/-- What the Convert of a chain gives is its data. -/
theorem hasValue_data (wellFormed : graph.WellFormed) (real : graph.RestoresReal chain)
    (has : graph.HasValue feeds shifted.node value) :
    graph.HasValue feeds chain.data.node value := by
  cases present : chain.convert with
  | none =>
      have same := isChain.convert
      rw [present] at same
      generalize chain.data = data at same ⊢
      cases same
      exact has
  | some convert =>
      obtain ⟨rfl, under⟩ := isChain.convert.stage_eq present
      obtain ⟨isConvert, read⟩ := underConvert?_eq_some.mp under
      obtain ⟨node, found, kind⟩ := Option.map_eq_some_iff.mp isConvert
      obtain ⟨destination, op_eq⟩ := Op.exists_eq_convert kind
      have isOp : graph.op? shifted.node = some (.convert destination) := by
        rw [op?, found, Option.map_some, op_eq]
      have isDestination : destination ∈ (graph.op? shifted.node).bind Op.destination? := by
        rw [isOp]
        rfl
      obtain ⟨given, hasGiven, rfl⟩ := has.exists_converted (wellFormed.exact _) isOp read
      rw [map_convert_of_isReal (real.destination _ present _ isDestination)]
      exact hasGiven

/-- What the Subtract of a chain gives is what it reads, less the shift. -/
theorem exists_shifted (wellFormed : graph.WellFormed)
    (has : graph.HasValue feeds scaled.node value) :
    ∃ given, graph.HasValue feeds shifted.node given ∧
      given.lessShift ((chain.shift? graph).map Tensor.values) = .ok value := by
  cases present : chain.subtract with
  | none =>
      have same := isChain.subtract
      rw [present] at same
      cases same
      exact ⟨value, has, by rw [shift?_eq_none present]; rfl⟩
  | some subtract =>
      obtain ⟨_, operand, isKind, reads, rfl, shift_eq⟩ :=
        isChain.exists_subtracted wellFormed present
      have isOperand := (constantOperand?_eq_some_iff (wellFormed.exact _)).mpr reads
      obtain ⟨_, under⟩ := isChain.subtract.stage_eq present
      obtain ⟨_, other, isOther, first, _⟩ := underSubtract?_eq_some.mp under
      cases Option.some.inj (isOperand.symm.trans isOther)
      obtain ⟨given, hasGiven, isShifted⟩ := exists_combine (wellFormed.exact _)
        (op?_elementwise .subtract isKind) isOperand (Or.inl first) has
      exact ⟨given, hasGiven, by rw [shift_eq]; exact isShifted⟩

/-- What a chain gives is its data, dequantized. -/
theorem exists_dequantize (wellFormed : graph.WellFormed)
    (isMultiply : chain.multiply = some output.node)
    (commutes : ∀ left right : α, left * right = right * left) (real : graph.RestoresReal chain)
    (has : graph.HasValue feeds output.node value) :
    ∃ data scale, graph.HasValue feeds chain.data.node data ∧ chain.scale? graph = some scale ∧
      data.dequantize ((chain.shift? graph).map Tensor.values) scale.values = .ok value := by
  obtain ⟨_, operand, isKind, reads, rfl, scale_eq⟩ :=
    isChain.exists_multiplied wellFormed isMultiply
  have isOperand := (constantOperand?_eq_some_iff (wellFormed.exact _)).mpr reads
  obtain ⟨scaledValue, hasScaled, isScaled⟩ := exists_combine (wellFormed.exact _)
    (op?_elementwise .multiply isKind) isOperand (Or.inr commutes) has
  obtain ⟨data, hasShifted, isShifted⟩ := isChain.exists_shifted wellFormed hasScaled
  exact ⟨data, operand.tensor, isChain.hasValue_data wellFormed real hasShifted, scale_eq,
    NDArray.dequantize_eq_ok.mpr ⟨scaledValue, isShifted, isScaled⟩⟩

end IsChain

end Values

/-! ## Growth -/

section Growth

variable {new other last : NodeId} {draft : Draft α} {outputs : List Output}
  {change : Node α → Node α}

/-- Every node of a later graph was there before or is newer than all that were. -/
structure Renews (before after : Graph α) : Prop where
  nextUid_le : before.nextUid ≤ after.nextUid
  node? : ∀ id node, after.node? id = some node →
    before.node? id = some node ∨ before.nextUid ≤ node.uid

namespace Renews

theorem refl (graph : Graph α) : graph.Renews graph := ⟨le_rfl, fun _ _ => Or.inl⟩

theorem trans (left : before.Renews middle) (right : middle.Renews after) :
    before.Renews after := by
  refine ⟨left.nextUid_le.trans right.nextUid_le, fun id node found => ?_⟩
  rcases right.node? id node found with earlier | later
  · exact left.node? id node earlier
  · exact Or.inr (left.nextUid_le.trans later)

end Renews

theorem IsConsistent.uid_lt_of_node? {node : Node α} (consistent : graph.IsConsistent)
    (found : graph.node? id = some node) : node.uid < graph.nextUid :=
  consistent.uid_lt id node.uid (by rw [uid?, found, Option.map_some])

theorem Adds.exists_uid (adds : before.Adds draft outputs new after) :
    ∃ node, after.node? new = some node ∧ node.uid = before.nextUid := by
  obtain ⟨type, _, found⟩ := adds.node_new
  exact ⟨_, found, rfl⟩

theorem Adds.renews (adds : before.Adds draft outputs new after) : before.Renews after := by
  obtain ⟨added, isAdded, uid_eq⟩ := adds.exists_uid
  refine ⟨uid_eq ▸ (adds.wellFormed.consistent.uid_lt_of_node? isAdded).le,
    fun id node found => ?_⟩
  by_cases equal : id = new
  · subst equal
    cases Option.some.inj (isAdded.symm.trans found)
    exact Or.inr uid_eq.ge
  · exact Or.inl ((adds.node_old id equal).symm.trans found)

/-- A declaration for a new node leaves all nodes that were there before as they are. -/
theorem Adds.renews_of_declares (adds : before.Adds draft outputs new middle)
    (declares : middle.Declares new change after)
    (redeclared : ∀ node, IsRedeclared node (change node)) : before.Renews after := by
  obtain ⟨added, isAdded, uid_eq⟩ := adds.exists_uid
  have isChanged : after.node? new = some (change added) := by
    rw [declares.node_eq, if_pos rfl, isAdded, Option.map_some]
  have changed_uid : (change added).uid = before.nextUid := (redeclared added).uid_eq.trans uid_eq
  refine ⟨changed_uid ▸ (declares.wellFormed.consistent.uid_lt_of_node? isChanged).le,
    fun id node found => ?_⟩
  by_cases equal : id = new
  · subst equal
    cases Option.some.inj (isChanged.symm.trans found)
    exact Or.inr changed_uid.ge
  · rw [declares.node_eq, if_neg equal] at found
    exact Or.inl ((adds.node_old id equal).symm.trans found)

/-- A declaration for a new node leaves all that was there before as it is. -/
theorem Adds.grows_of_declares (adds : before.Adds draft outputs new middle)
    (declares : middle.Declares new change after) : before.Grows after := by
  refine ⟨fun id live => ?_, declares.edges_eq ▸ adds.grows.edges_eq⟩
  rw [declares.node_eq, if_neg (adds.ne_of_live live), adds.node_old id (adds.ne_of_live live)]

variable [Scalar α] {feeds : Assignment α} {value result : NDArray α}

/-- A declared precision matters only to the value of a fake quantization. -/
theorem Declares.hasValue_of_kind (declares : before.Declares id change after)
    (redeclared : ∀ node, IsRedeclared node (change node))
    (different : before.kind? id ≠ some .fakeQuantize) (has : before.HasValue feeds other value) :
    after.HasValue feeds other value := by
  induction has with
  | @compute other node inputs value found length_eq known computed induction =>
      have inputs_eq := (declares.sameAt redeclared other).2
      have derives : after.Derives feeds (after.inputs other) inputs := by
        rw [inputs_eq]
        exact forall₂_of_getElem? length_eq induction
      by_cases equal : other = id
      · subst equal
        refine hasValue_iff.mpr ⟨change node, inputs, ?_, derives, ?_⟩
        · rw [declares.node_eq, if_pos rfl, found, Option.map_some]
        · have other_kind : node.op.kind ≠ .fakeQuantize := fun isKind =>
            different (by rw [kind?, found, Option.map_some, Node.kind, isKind])
          rw [(redeclared node).op_eq, Op.evaluate_integral_congr other_kind]
          exact computed
      · refine hasValue_iff.mpr ⟨node, inputs, ?_, derives, computed⟩
        rw [declares.node_eq, if_neg equal, found]

/-- A graph has grown, all nodes have values, and the last node, which is built on a source, has a
given one. -/
structure GrowsWith (before : Graph α) (feeds : Assignment α) (source last : NodeId)
    (value : NDArray α) (after : Graph α) : Prop where
  grows : before.Grows after
  renews : before.Renews after
  wellFormed : after.WellFormed
  all : after.HasValues feeds
  has : after.HasValue feeds last value
  rests : after.Reaches source last

theorem GrowsWith.refl (wellFormed : graph.WellFormed) (all : graph.HasValues feeds)
    (has : graph.HasValue feeds last value) : graph.GrowsWith feeds last last value graph :=
  ⟨.refl graph, .refl graph, wellFormed, all, has, Relation.ReflTransGen.refl⟩

/-- What is built on the last node, with a value of its own, becomes the last. -/
theorem GrowsWith.extend {source : NodeId}
    (grows : before.GrowsWith feeds source last value middle)
    (adds : middle.Adds draft outputs new after) (reads : ∃ output ∈ outputs, output.node = last)
    (has : after.HasValue feeds new result) : before.GrowsWith feeds source new result after := by
  have edge : after.Reads last new := by
    rw [reads_iff_mem_inputs, adds.inputs_new]
    exact reads
  exact ⟨grows.grows.trans adds.grows, grows.renews.trans adds.renews, adds.wellFormed,
    adds.hasValues grows.wellFormed.consistent grows.all has, has,
    (grows.rests.mono fun _ member => adds.grows.mem_edges member).tail edge⟩

theorem GrowsWith.adds {source : NodeId} (grows : before.GrowsWith feeds source last value middle)
    (adds : middle.Adds draft outputs new after) {inputs : List (NDArray α)}
    (reads : ∃ output ∈ outputs, output.node = last) (derives : middle.Derives feeds outputs inputs)
    (computes : ∀ integral feed, draft.op.evaluate integral inputs feed = .ok result) :
    before.GrowsWith feeds source new result after := by
  refine grows.extend adds reads ?_
  obtain ⟨type, _, found⟩ := adds.node_new
  refine hasValue_iff.mpr ⟨_, inputs, found, ?_, computes _ _⟩
  rw [adds.inputs_new]
  exact derives.imp fun _ _ has => adds.grows.hasValue grows.wellFormed.consistent has

/-- A constant that is added aside leaves the last node the last. -/
theorem GrowsWith.beside {source : NodeId} {tensor : Tensor α} {name : String}
    (grows : before.GrowsWith feeds source last value middle)
    (adds : middle.Adds ((Op.constant tensor).draft name) [] new after) :
    before.GrowsWith feeds source last value after := by
  have consistent := grows.wellFormed.consistent
  exact ⟨grows.grows.trans adds.grows, grows.renews.trans adds.renews, adds.wellFormed,
    adds.hasValues consistent grows.all (adds.hasValue_constant feeds),
    adds.grows.hasValue consistent grows.has,
    grows.rests.mono fun _ member => adds.grows.mem_edges member⟩

end Growth

/-! ## Moves -/

section Moves

variable [Scalar α] {feeds : Assignment α} {plan : ChainMove} {node : Node α}
  {copied declared : Graph α} {source copy last converted shifted tail : NodeId} {name : String}
  {updatePrecision moveSubtract : Bool} {inputs : List (NDArray α)}
  {data value moved result : NDArray α}

theorem growsWith_copied (wellFormed : before.WellFormed) (all : before.HasValues feeds)
    (has : before.HasValue feeds plan.source.node data)
    (adds : before.Adds (copyDraft node plan.inputs) plan.inputs copy copied)
    (declares : if updatePrecision then copied.AdoptsPrecision copy plan.source declared
      else declared = copied)
    (reads : plan.source ∈ plan.inputs) (derives : before.Derives feeds plan.inputs inputs)
    (computes : ∀ integral feed, node.op.evaluate integral inputs feed = .ok moved)
    (different : node.op.kind ≠ .fakeQuantize) :
    before.GrowsWith feeds plan.source.node copy moved declared := by
  have op_eq := (GraphRevision.copyDraft_eq node plan.inputs).1
  have grows : before.GrowsWith feeds plan.source.node copy moved copied :=
    (GrowsWith.refl wellFormed all has).adds adds ⟨plan.source, reads, rfl⟩ derives
      (by rw [op_eq]; exact computes)
  split at declares
  case isFalse =>
    subst declares
    exact grows
  case isTrue =>
    obtain ⟨precision, _, _, declares⟩ := declares
    have redeclared (node : Node α) : IsRedeclared node { node with precision := some precision } :=
      ⟨rfl, rfl, rfl, rfl⟩
    have kept {other : NodeId} {value : NDArray α} (has : copied.HasValue feeds other value) :
        declared.HasValue feeds other value := by
      refine declares.hasValue_of_kind redeclared ?_ has
      rw [kind?_of_op? adds.op?_new, op_eq]
      exact fun equal => different (Option.some.inj equal)
    refine ⟨adds.grows_of_declares declares, adds.renews_of_declares declares redeclared,
      declares.wellFormed, fun other live => ?_, kept grows.has, ?_⟩
    · obtain ⟨value, has⟩ := grows.all other ((declares.contains_eq other).symm.trans live)
      exact ⟨value, kept has⟩
    · exact grows.rests.mono fun _ member => declares.edges_eq ▸ member

theorem GrowsWith.convertsLike (grows : before.GrowsWith feeds source last value middle)
    (converts : middle.ConvertsLike last chain plan converted after)
    (real : before.RestoresReal chain) (isMultiply : chain.multiply = some plan.multiply)
    (live : ∀ stage ∈ chain.stages, before.contains stage = true) :
    before.GrowsWith feeds source converted value after := by
  have type_eq {stage : NodeId} (member : stage ∈ chain.stages) :
      middle.elementType? stage = before.elementType? stage := by
    rw [elementType?, grows.grows.node_eq stage (live stage member), elementType?]
  obtain ⟨multiplyType, typed, converts⟩ := converts
  split at converts
  case isTrue =>
    obtain ⟨rfl, rfl⟩ := converts
    exact grows
  case isFalse =>
    refine grows.adds converts ⟨last.output, List.mem_singleton_self _, rfl⟩ (.cons grows.has .nil)
      fun integral feed => ?_
    refine (Op.evaluate_convert _ rfl).trans (congrArg Except.ok (map_convert_of_isReal ?_ value))
    cases isConvert : chain.convert.bind middle.elementType? with
    | none =>
        rw [type_eq (by simp [DequantizationChain.stages, isMultiply])] at typed
        exact real.multiplied _ isMultiply _ typed
    | some type =>
        obtain ⟨convert, present, isType⟩ := Option.bind_eq_some_iff.mp isConvert
        rw [type_eq (by simp [DequantizationChain.stages, present])] at isType
        exact real.converted _ present _ isType

theorem GrowsWith.hasValue_constant (grows : before.GrowsWith feeds source last value middle)
    (wellFormed : before.WellFormed) (all : before.HasValues feeds) {constant : NodeId}
    {tensor : Tensor α} (isConstant : before.constant? constant = some tensor) :
    middle.HasValue feeds constant tensor.values := by
  obtain ⟨value, has⟩ := all constant (contains_of_op? (constant?_eq_some_iff.mp isConstant))
  rw [← has.eq_of_constant isConstant]
  exact grows.grows.hasValue wellFormed.consistent has

theorem GrowsWith.shiftsBy {shift : Option NodeId} {constant : Option (Tensor α)}
    (grows : before.GrowsWith feeds source last value middle)
    (shifts : middle.ShiftsBy last shift name shifted after) (wellFormed : before.WellFormed)
    (all : before.HasValues feeds)
    (known : Option.Rel (fun node tensor => before.constant? node = some tensor) shift constant)
    (isShifted : value.lessShift (constant.map Tensor.values) = .ok result) :
    before.GrowsWith feeds source shifted result after := by
  cases known with
  | none =>
      obtain ⟨rfl, rfl⟩ := shifts
      cases isShifted
      exact grows
  | some isConstant =>
      refine grows.adds shifts ⟨last.output, List.mem_cons_self, rfl⟩
        (.cons grows.has (.cons (grows.hasValue_constant wellFormed all isConstant) .nil))
        fun integral feed => ?_
      exact (Op.evaluate_elementwise .subtract rfl rfl).trans (Outcome.mapError_eq_ok.mpr isShifted)

omit [Scalar α] in
theorem rel_shift_of_chainMove (planned : before.chainMove id chain moveSubtract = .ok plan)
    (together : moveSubtract = false → chain.subtract = none) :
    Option.Rel (fun node tensor => before.constant? node = some tensor) plan.shift
      (chain.shift? before) := by
  obtain ⟨_, shiftUsed⟩ := chainMove_constants planned
  obtain ⟨_, _, _, _, _, _, _, shift_eq⟩ := chainMove_eq_ok planned
  cases found : plan.shift with
  | some shift =>
      obtain ⟨tensor, isTensor, isShift⟩ := shiftUsed shift found
      rw [isShift]
      exact .some isTensor
  | none =>
      have unshifted : chain.subtractConstant? before = none := by
        cases moveSubtract with
        | true => exact shift_eq.symm.trans found
        | false => simp [DequantizationChain.subtractConstant?, together rfl]
      rw [DequantizationChain.shift?, unshifted]
      exact .none

end Moves

/-! ## What is read before and after -/

/-- The same node stands at a place in both graphs. -/
def StaysAt (before after : Graph α) (id : NodeId) : Prop :=
  ∃ node, before.node? id = some node ∧ after.node? id = some node

/-- Shapes are declared as they turn out, and what turns out can be addressed. -/
def HasDeclaredShapes (graph : Graph α) (values : Assignment α) : Prop :=
  ∀ id value, values id = some value →
    graph.shape? id = some value.shape ∧ value.shape.IsAddressable

/-- A node has given way to a new Multiply: what read the one reads the other on the same slot,
where it finds the same value. What does not lead to the node stays, and so does what leads to the
data of the Multiply. All that stays has the value it had, and all that does not is newer. -/
structure GivesWay [Scalar α] (before : Graph α) (id data tail : NodeId) (after : Graph α)
    (feeds values : Assignment α) : Prop where
  kind_eq : after.kind? tail = some .multiply
  isNew : ¬ before.StaysAt after tail
  input?_eq : ∀ reader slot index, before.input? reader slot = some ⟨id, index⟩ →
    after.input? reader slot = some ⟨tail, index⟩
  stays : ∀ other, before.contains other = true →
    ¬ before.Reaches other id ∨ before.Reaches other data → before.StaysAt after other
  newer : ∀ other node, after.node? other = some node →
    before.StaysAt after other ∨ before.nextUid ≤ node.uid
  values_eq : ∃ values', after.evaluate feeds = .ok values' ∧ values' tail = values id ∧
    ∀ other, before.StaysAt after other → values' other = values other

/-- A node has given its place to a new one, of whatever kind: what read the one reads the other on
the same slot, where it finds the same value. What does not lead to the node stays, and so does what
leads to the data. All that stays has the value it had, and all that does not is newer. -/
structure GivesPlace [Scalar α] (before : Graph α) (id data tail : NodeId) (after : Graph α)
    (feeds values : Assignment α) : Prop where
  isNew : ¬ before.StaysAt after tail
  input?_eq : ∀ reader slot index, before.input? reader slot = some ⟨id, index⟩ →
    after.input? reader slot = some ⟨tail, index⟩
  stays : ∀ other, before.contains other = true →
    ¬ before.Reaches other id ∨ before.Reaches other data → before.StaysAt after other
  newer : ∀ other node, after.node? other = some node →
    before.StaysAt after other ∨ before.nextUid ≤ node.uid
  values_eq : ∃ values', after.evaluate feeds = .ok values' ∧ values' tail = values id ∧
    ∀ other, before.StaysAt after other → values' other = values other

section Declared

variable [Scalar α] {feeds values : Assignment α}

theorem hasDeclaredShapes_iff (evaluated : graph.evaluate feeds = .ok values) :
    graph.HasDeclaredShapes values ↔ ∀ id ∈ graph.nodeIds, ∀ value ∈ values id,
      graph.shape? id = some value.shape ∧ value.shape.IsAddressable :=
  ⟨fun declared id _ value isValue => declared id value isValue, fun declared id value isValue =>
    declared id (mem_nodeIds.mpr (hasValue_of_evaluate evaluated isValue).live) value isValue⟩

/-- Shapes that are inferred turn out as they are declared. -/
theorem IsInferred.exists_hasDeclaredShapes (inferred : graph.IsInferred)
    (wellFormed : graph.WellFormed) (evaluable : graph.IsEvaluable) (fed : graph.IsFed feeds) :
    ∃ values, graph.evaluate feeds = .ok values ∧ graph.HasDeclaredShapes values := by
  obtain ⟨values, evaluated, each⟩ := inferred.exists_evaluate wellFormed evaluable fed
  refine ⟨values, evaluated, fun id value isValue => ?_⟩
  have live := (hasValue_of_evaluate evaluated isValue).live
  obtain ⟨found, isFound, isShape⟩ := each id live
  cases Option.some.inj (isValue.symm.trans isFound)
  obtain ⟨node, present, shape⟩ := Option.map_eq_some_iff.mp isShape
  exact ⟨isShape, shape ▸ (evaluable id (mem_nodeIds.mpr live) node present).1⟩

end Declared

section Replacement

variable [Scalar α] {feeds values : Assignment α} {source tail old new : NodeId} {value : NDArray α}

omit [Scalar α] in
/-- What leads to the node that comes in place of another stays. -/
theorem Replaces.keeps_of_reaches (replaces : graph.Replaces old new after)
    (live : after.contains new = true) (reaches : graph.Reaches id new) :
    after.contains id = true := by
  induction reaches using Relation.ReflTransGen.head_induction_on with
  | refl => exact live
  | @head id middle reads reaches induction =>
      refine replaces.sheds.keeps_sources induction ?_
      obtain ⟨edge, member, rfl, rfl⟩ := reads
      refine ⟨edge, mem_edges_redirect.mpr (Or.inr ⟨member, fun moves => ?_⟩), rfl, rfl⟩
      exact replaces.apart (Relation.ReflTransGen.head ⟨edge, member, moves.1, rfl⟩ reaches)

theorem GrowsWith.tail_live (grows : before.GrowsWith feeds source tail value middle)
    (wellFormed : before.WellFormed) (replaces : middle.Replaces id tail after)
    (fresh : before.contains tail = false) (live : before.contains id = true) :
    after.contains tail = true :=
  replaces.new_live_of_grows grows.grows wellFormed grows.wellFormed fresh live

theorem GrowsWith.givesPlace (grows : before.GrowsWith feeds source tail value middle)
    (wellFormed : before.WellFormed) (replaces : middle.Replaces id tail after)
    (fresh : before.contains tail = false) (live : before.contains id = true)
    (evaluated : before.evaluate feeds = .ok values) (isValue : values id = some value) :
    before.GivesPlace id source tail after feeds values := by
  have consistent := wellFormed.consistent
  have tail_live := grows.tail_live wellFormed replaces fresh live
  have carried {other : NodeId} {value : NDArray α} (has : before.HasValue feeds other value) :
      middle.HasValue feeds other value := grows.grows.hasValue consistent has
  have hasOld := carried (hasValue_of_evaluate evaluated isValue)
  have preserved {other : NodeId} {value : NDArray α} (has : middle.HasValue feeds other value)
      (live : after.contains other = true) : after.HasValue feeds other value :=
    replaces.hasValue_of_same grows.wellFormed hasOld grows.has has live
  have same {other : NodeId} {node : Node α} (found : before.node? other = some node)
      (live : after.contains other = true) : after.node? other = some node := by
    rw [replaces.node_eq live, grows.grows.node_eq other (contains_of_node? found), found]
  refine ⟨fun ⟨_, found, _⟩ => ?_, fun _ _ _ =>
    replaces.input?_eq_of_grows grows.grows wellFormed grows.wellFormed fresh,
    fun other isLive leads => ?_, fun other node found => ?_, ?_⟩
  · rw [contains_of_node? found] at fresh
    cases fresh
  · obtain ⟨node, found⟩ := contains_eq_true_iff.mp isLive
    refine ⟨node, found, same found ?_⟩
    rcases leads with free | leads
    · exact replaces.keeps grows.wellFormed.acyclic (grows.grows.live isLive) fun reaches =>
        free ((grows.grows.reaches_iff consistent live).mp reaches)
    · exact replaces.keeps_of_reaches tail_live
        ((leads.mono fun _ => grows.grows.mem_edges).trans grows.rests)
  · have earlier := (replaces.node_eq (contains_of_node? found)).symm.trans found
    exact (grows.renews.node? other node earlier).imp_left fun known => ⟨node, known, found⟩
  · have all : after.HasValues feeds := fun other isLive => by
      obtain ⟨value, has⟩ := grows.all other (replaces.live isLive)
      exact ⟨value, preserved has isLive⟩
    obtain ⟨values', evaluated'⟩ := exists_evaluate_of_hasValues replaces.wellFormed all
    refine ⟨values', evaluated', ?_, fun other stays => ?_⟩
    · rw [isValue]
      exact (preserved grows.has tail_live).value_eq evaluated'
    · obtain ⟨node, found, found'⟩ := stays
      obtain ⟨value, isValue, _⟩ := evaluateNode_of_evaluate evaluated (contains_of_node? found)
      rw [isValue]
      exact (preserved (carried (hasValue_of_evaluate evaluated isValue))
        (contains_of_node? found')).value_eq evaluated'

/-- The node that is built last, with the value of the one for which it was built, takes its place. -/
theorem GrowsWith.givesPlace_of_adds {last : NodeId} {result : NDArray α}
    {withTail : Graph α} {draft : Draft α} {outputs : List Output}
    (grows : before.GrowsWith feeds source last value middle) (wellFormed : before.WellFormed)
    (adds : middle.Adds draft outputs tail withTail) (reads : ∃ output ∈ outputs, output.node = last)
    (has : withTail.HasValue feeds tail result) (replaces : withTail.Replaces id tail after)
    (evaluated : before.evaluate feeds = .ok values) (isValue : values id = some result) :
    before.GivesPlace id source tail after feeds values :=
  (grows.extend adds reads has).givesPlace wellFormed replaces (grows.grows.fresh adds.fresh)
    (hasValue_of_evaluate evaluated isValue).live evaluated isValue

theorem Refits.givesPlace {lowest highest : Tensor α} {draft : Draft α} {outputs : List Output}
    {low high : NodeId} {withLow withHigh withNew : Graph α} {result : NDArray α}
    (refits : before.Refits id lowest highest draft outputs low high new withLow withHigh withNew
      after) (wellFormed : before.WellFormed) (reads : ∃ output ∈ outputs, output.node = source)
    (hasSource : before.HasValue feeds source value) (has : withNew.HasValue feeds new result)
    (evaluated : before.evaluate feeds = .ok values) (isValue : values id = some result) :
    before.GivesPlace id source new after feeds values := by
  have grows : before.GrowsWith feeds source source value withHigh :=
    ((GrowsWith.refl wellFormed (hasValues_of_evaluate evaluated) hasSource).beside
      refits.addsLow).beside refits.addsHigh
  exact grows.givesPlace_of_adds wellFormed refits.adds reads has refits.replaces evaluated isValue

theorem GrowsWith.givesWay (grows : before.GrowsWith feeds source tail value middle)
    (wellFormed : before.WellFormed) (replaces : middle.Replaces id tail after)
    (kind : middle.kind? tail = some .multiply)
    (fresh : before.contains tail = false) (live : before.contains id = true)
    (evaluated : before.evaluate feeds = .ok values) (isValue : values id = some value) :
    before.GivesWay id source tail after feeds values := by
  have tail_live := grows.tail_live wellFormed replaces fresh live
  obtain ⟨isNew, input?_eq, stays, newer, values_eq⟩ :=
    grows.givesPlace wellFormed replaces fresh live evaluated isValue
  exact ⟨(kind?_congr (replaces.node_eq tail_live)).trans kind, isNew, input?_eq, stays, newer,
    values_eq⟩

end Replacement

section Chains

variable [Scalar α] {feeds values : Assignment α} {plan : ChainMove} {copy tail : NodeId}
  {updatePrecision moveSubtract : Bool} {output scaled shifted : Output} {outputs : List Output}
  {inputs : List (NDArray α)} {value : NDArray α} {slot : Nat} {op : Op α}

theorem Derives.set (derives : graph.Derives feeds outputs inputs) {source : Output}
    (has : graph.HasValue feeds source.node value) :
    graph.Derives feeds (outputs.set slot source) (inputs.set slot value) := by
  refine forall₂_of_getElem? (by simp [derives.length_eq]) fun position first second isFirst
    isSecond => ?_
  by_cases equal : slot = position
  · subst equal
    have inside := (List.getElem?_eq_some_iff.mp isFirst).1
    have inside' := (List.getElem?_eq_some_iff.mp isSecond).1
    rw [List.length_set] at inside inside'
    rw [List.getElem?_set_self inside] at isFirst
    rw [List.getElem?_set_self inside'] at isSecond
    cases isFirst
    cases isSecond
    exact has
  · rw [List.getElem?_set_ne equal] at isFirst isSecond
    exact related_of_getElem? derives isFirst isSecond

/-- The shapes of what is read are those of the values. -/
theorem HasDeclaredShapes.shapesOf_eq (declared : graph.HasDeclaredShapes values)
    (evaluated : graph.evaluate feeds = .ok values)
    (derives : graph.Derives feeds outputs inputs) :
    graph.shapesOf outputs = inputs.map NDArray.shape := by
  induction derives with
  | nil => rfl
  | @cons output input outputs inputs has _ induction =>
      rw [shapesOf_cons (declared _ _ (has.value_eq evaluated)).1, induction, List.map_cons]

omit [Scalar α] in
/-- A copy is only added where the operation accepts the shapes of what it reads. -/
theorem Adds.exists_inferShape {node : Node α}
    (adds : before.Adds (copyDraft node outputs) outputs copy after)
    (bound : outputs.length ≤ 256) :
    ∃ shape, node.op.inferShape (before.shapesOf outputs) = .ok shape := by
  obtain ⟨op_eq, undeclared, _⟩ := GraphRevision.copyDraft_eq node outputs
  obtain ⟨type, drafted, _⟩ := adds.node_new
  have inferred := infer_of_draftedType (GraphRevision.copyDraft_readsInOrder node bound) undeclared
    drafted
  refine ⟨type.shape, ?_⟩
  rw [← map_shape_typesOf, ← Op.map_shape_infer, ← op_eq, inferred]
  rfl

/-- Where the copy reads the data, the operation reads the data dequantized. -/
theorem exists_dequantized_input (planned : before.chainMove id chain moveSubtract = .ok plan)
    (reads : before.ReadsChain id output scaled shifted chain)
    (read : (before.inputs id)[slot]? = some output) (real : before.RestoresReal chain)
    (commutative : ∀ left right : α, left * right = right * left)
    (derives : before.Derives feeds (before.inputs id) inputs) :
    ∃ number data dequantized scale, number ≤ slot ∧ inputs[number]? = some dequantized ∧
      before.HasValue feeds chain.data.node data ∧ chain.scale? before = some scale ∧
      data.dequantize ((chain.shift? before).map Tensor.values) scale.values = .ok dequantized ∧
      number < (before.inputs id).length ∧
      plan.inputs = (before.inputs id).set number plan.source := by
  obtain ⟨number, isMultiply', _, slotRead, _, _, inputs_eq, _⟩ := chainMove_eq_ok planned
  have multiply_eq : plan.multiply = output.node :=
    Option.some.inj (isMultiply'.symm.trans reads.multiply)
  have exact := reads.wellFormed.exact id
  have first := slotReading_le exact read multiply_eq.symm slotRead
  obtain ⟨edge, member, fromMultiply, target, rfl⟩ := slotReading_eq_ok slotRead
  have readFirst : (before.inputs id)[edge.inputSlot.toNat]? = some edge.source :=
    exact.getElem?_inputs.mpr ⟨edge, member, rfl, target, rfl⟩
  obtain ⟨dequantized, isDequantized⟩ :=
    exists_getElem?_of_length_eq derives.length_eq.symm readFirst
  have hasDequantized := related_of_getElem? derives readFirst isDequantized
  rw [fromMultiply, multiply_eq] at hasDequantized
  obtain ⟨data, scale, hasData, isScale, dequantizes⟩ := reads.isChain.exists_dequantize
    reads.wellFormed reads.multiply commutative real hasDequantized
  exact ⟨_, data, dequantized, scale, first, isDequantized, hasData, isScale, dequantizes,
    (List.getElem?_eq_some_iff.mp readFirst).1, inputs_eq⟩

/-- Behind the copy, its result is dequantized. -/
theorem MovesChain.exists_growsWith
    (moves : before.MovesChain id chain updatePrecision moveSubtract plan copy tail after)
    (wellFormed : before.WellFormed) (all : before.HasValues feeds)
    (together : moveSubtract = false → chain.subtract = none) (real : before.RestoresReal chain)
    (live : ∀ stage ∈ chain.stages, before.contains stage = true)
    (isOp : before.op? id = some op) (different : op.kind ≠ .fakeQuantize)
    (reads : plan.source ∈ plan.inputs) {data moved : NDArray α} {scale : Tensor α}
    (hasData : before.HasValue feeds plan.source.node data)
    (derives : before.Derives feeds plan.inputs inputs)
    (computes : ∀ integral feed, op.evaluate integral inputs feed = .ok moved)
    (isScale : chain.scale? before = some scale)
    (dequantizes : moved.dequantize ((chain.shift? before).map Tensor.values) scale.values =
      .ok value) :
    ∃ withTail, before.GrowsWith feeds plan.source.node tail value withTail ∧
      withTail.kind? tail = some .multiply ∧ before.contains tail = false ∧
      withTail.Replaces id tail after := by
  obtain ⟨node, copied, declared, converted, withConvert, shiftedNode, withShift, withTail, found,
    addsCopy, declares, converts, shifts, addsTail, replaces⟩ := moves.steps
  rw [op?, found, Option.map_some, Option.some.injEq] at isOp
  subst isOp
  obtain ⟨⟨tensor, isTensor, isScale'⟩, _⟩ := chainMove_constants moves.planned
  cases Option.some.inj (isScale.symm.trans isScale')
  obtain ⟨_, isMultiply, _⟩ := chainMove_eq_ok moves.planned
  obtain ⟨movedShifted, isShifted, isScaled⟩ := NDArray.dequantize_eq_ok.mp dequantizes
  have grows : before.GrowsWith feeds plan.source.node shiftedNode movedShifted withShift :=
    ((growsWith_copied wellFormed all hasData addsCopy declares reads derives computes
      different).convertsLike converts real isMultiply live).shiftsBy shifts wellFormed all
        (rel_shift_of_chainMove moves.planned together) isShifted
  refine ⟨withTail, grows.adds addsTail ⟨shiftedNode.output, List.mem_cons_self, rfl⟩
    (.cons grows.has (.cons (grows.hasValue_constant wellFormed all isTensor) .nil))
    (fun integral feed => ?_), kind?_of_op? addsTail.op?_new, ?_, replaces⟩
  · exact (Op.evaluate_elementwise .multiply rfl rfl).trans (Outcome.mapError_eq_ok.mpr isScaled)
  · exact grows.grows.fresh addsTail.fresh

/-- The operation accepts the shapes of what its copy reads. -/
theorem MovesChain.exists_inferShape
    (moves : before.MovesChain id chain updatePrecision moveSubtract plan copy tail after)
    (isOp : before.op? id = some op) (bound : plan.inputs.length ≤ 256)
    (evaluated : before.evaluate feeds = .ok values) (declared : before.HasDeclaredShapes values)
    (derives : before.Derives feeds plan.inputs inputs) :
    ∃ shape, op.inferShape (inputs.map NDArray.shape) = .ok shape := by
  obtain ⟨node, copied, _, _, _, _, _, _, found, addsCopy, _⟩ := moves.steps
  rw [op?, found, Option.map_some, Option.some.injEq] at isOp
  obtain ⟨shape, accepted⟩ := addsCopy.exists_inferShape bound
  rw [isOp, declared.shapesOf_eq evaluated derives] at accepted
  exact ⟨shape, accepted⟩

/-- A chain moves past an operation that commutes with it, and only the way to the values has
changed. -/
theorem MovesChain.givesWay
    (moves : before.MovesChain id chain updatePrecision moveSubtract plan copy tail after)
    (reads : before.ReadsChain id output scaled shifted chain)
    (read : (before.inputs id)[slot]? = some output)
    (together : moveSubtract = false → chain.subtract = none) (real : before.RestoresReal chain)
    (commutative : ∀ left right : α, left * right = right * left)
    (isOp : before.op? id = some op) (different : op.kind ≠ .fakeQuantize)
    (commutes : ∀ number ≤ slot, ∀ scale, chain.scale? before = some scale →
      op.CommutesWith number ((chain.shift? before).map Tensor.values) scale.values)
    (evaluated : before.evaluate feeds = .ok values) (declared : before.HasDeclaredShapes values) :
    before.GivesWay id chain.data.node tail after feeds values := by
  have wellFormed := reads.wellFormed
  have live : before.contains id = true := contains_of_op? isOp
  obtain ⟨value, isValue, _⟩ := evaluateNode_of_evaluate evaluated live
  obtain ⟨node, inputs, found, derives, computed⟩ :=
    hasValue_iff.mp (hasValue_of_evaluate evaluated isValue)
  have isNode := isOp
  rw [op?, found, Option.map_some, Option.some.injEq] at isNode
  rw [isNode] at computed
  obtain ⟨number, data, dequantized, scale, first, isDequantized, hasData, isScale, dequantizes,
    inside, inputs_eq⟩ := exists_dequantized_input moves.planned reads read real commutative derives
  have source_eq : plan.source = chain.data := by
    obtain ⟨_, _, _, _, _, source_eq, _⟩ := chainMove_eq_ok moves.planned
    rw [source_eq, sourcePast_eq_data together]
  rw [← source_eq] at hasData
  have derivesMoved : before.Derives feeds plan.inputs (inputs.set number data) := by
    rw [inputs_eq]
    exact derives.set hasData
  have bound : plan.inputs.length ≤ 256 := by
    rw [inputs_eq, List.length_set, length_inputs]
    exact (wellFormed.exact id).inputCount_le
  obtain ⟨shape, accepted⟩ := moves.exists_inferShape isOp bound evaluated declared derivesMoved
  obtain ⟨moved, computes, isMoved⟩ := commutes number first scale isScale inputs data dequantized
    value shape _ _ isDequantized dequantizes accepted computed (declared id value isValue).2
  obtain ⟨withTail, grows, kind, fresh, replaces⟩ := moves.exists_growsWith wellFormed
    (hasValues_of_evaluate evaluated) together real (fun _ => reads.isChain.live_of_mem_stages) isOp
    different (by rw [inputs_eq]; exact List.mem_set inside _) hasData derivesMoved computes isScale
    isMoved
  rw [← source_eq]
  exact grows.givesWay wellFormed replaces kind fresh live evaluated isValue

theorem Propagates.exists_givesWay
    (propagates : before.Propagates id chain updatePrecision moveSubtract after)
    (wellFormed : before.WellFormed) (equal : chain = before.dequantization id slot)
    (present : chain.multiply ≠ none) (together : moveSubtract = false → chain.subtract = none)
    (real : before.RestoresReal chain) (commutative : ∀ left right : α, left * right = right * left)
    (isOp : before.op? id = some op) (different : op.kind ≠ .fakeQuantize)
    (commutes : ∀ number ≤ slot, ∀ scale, chain.scale? before = some scale →
      op.CommutesWith number ((chain.shift? before).map Tensor.values) scale.values)
    (evaluated : before.evaluate feeds = .ok values) (declared : before.HasDeclaredShapes values) :
    ∃ tail, before.GivesWay id chain.data.node tail after feeds values := by
  obtain ⟨plan, copy, tail, moves⟩ := propagates.exists_movesChain together
  obtain ⟨output, scaled, shifted, read, reads⟩ := exists_readsChain wellFormed equal present
  exact ⟨tail, moves.givesWay reads read together real commutative isOp different commutes evaluated
    declared⟩

end Chains

/-! ## Chains that cannot move -/

/-- The Convert of a chain goes to real numbers, its Multiply gives real numbers, and its constants
have no axes. -/
def IsPlain (graph : Graph α) (chain : DequantizationChain) : Prop :=
  (∀ convert ∈ chain.convert, ∀ type ∈ (graph.op? convert).bind Op.destination?,
      type.isReal = true) ∧
    (∀ multiply ∈ chain.multiply, ∀ type ∈ graph.elementType? multiply, type.isReal = true) ∧
    (∀ scale ∈ chain.scale? graph, scale.shape = []) ∧
    ∀ shift ∈ chain.shift? graph, shift.shape = []

instance (graph : Graph α) (chain : DequantizationChain) : Decidable (graph.IsPlain chain) :=
  inferInstanceAs (Decidable (_ ∧ _ ∧ _ ∧ _))

end Graph

namespace Transformation

/-- A product that reads two parameters on one slot, and a constant on the next. -/
def crowdedProduct (shape : Shape) (moved : Draft Rat) : List (Draft Rat) :=
  let real (name : String) : Draft Rat :=
    { op := .parameter, name := name, declared := some { elementType := .f32, shape := shape } }
  [real "x", real "y", (Op.constant (.scalar .f32 2)).draft "two",
    (((Op.multiply.draft "scaled").input (NodeId.mk 1).output 0).input (NodeId.mk 0).output 0).input
      (NodeId.mk 2).output 1,
    moved.readAll [NodeId.mk 3], (Op.result.draft "output").readAll [NodeId.mk 4]]

/-- Ones, and fives. -/
def crowdedFeeds (shape : Shape) : Assignment Rat :=
  (Assignment.none.set (NodeId.mk 0) (.replicate shape 1)).set (NodeId.mk 1) (.replicate shape 5)

/-- A product that reads a Convert to real numbers, which is declared to give integers. -/
def mistypedConvert (shape : Shape) (moved : Draft Rat) : List (Draft Rat) :=
  [{ op := .parameter, name := "x", declared := some { elementType := .u8, shape := shape } },
    { ((Op.convert .f32).draft "converted").readAll [NodeId.mk 0] with
      declared := some { elementType := .i8, shape := shape } },
    (Op.constant (.scalar .f32 2)).draft "two",
    (Op.multiply.draft "scaled").readAll [NodeId.mk 2, NodeId.mk 1],
    moved.readAll [NodeId.mk 3], (Op.result.draft "output").readAll [NodeId.mk 4]]

/-- Shapes are declared as they turn out, and a rule moves a plain chain past a node. After that
the results are others. -/
def MovesAstray (drafts : List (Draft Rat)) (id : NodeId) (rule : Rule) (feeds : Assignment Rat)
    (earlier later : List (List Rat)) : Prop :=
  ∃ graph after values chain, Graph.empty.addAll drafts = .ok graph ∧
    graph.evaluate feeds = .ok values ∧ graph.HasDeclaredShapes values ∧
    graph.kind? id = some rule.matchedKind ∧ graph.movedChain? rule id = some chain ∧
    graph.IsPlain chain ∧
    (Transformation.apply ⟨rule, {}⟩ (.all {}) id).runOn (.ofGraph graph) = (.ok true, after) ∧
    (graph.evaluateResults feeds).map (List.map NDArray.toList) = .ok earlier ∧
    (after.graph.evaluateResults feeds).map (List.map NDArray.toList) = .ok later ∧ earlier ≠ later

theorem movesAstray_of_values {drafts : List (Draft Rat)} {id : NodeId} {rule : Rule}
    {feeds : Assignment Rat} {earlier later : List (List Rat)}
    (made : (Graph.empty.addAll drafts).map (fun graph =>
      let applied := (Transformation.apply ⟨rule, {}⟩ (.all {}) id).runOn (.ofGraph graph)
      ((graph.evaluate feeds).map fun values => decide (∀ id ∈ graph.nodeIds,
          ∀ value ∈ values id, graph.shape? id = some value.shape ∧ value.shape.IsAddressable),
        graph.kind? id, (graph.movedChain? rule id).map fun chain => decide (graph.IsPlain chain),
        applied.1, (graph.evaluateResults feeds).map (List.map NDArray.toList),
        (applied.2.graph.evaluateResults feeds).map (List.map NDArray.toList))) =
      .ok (.ok true, some rule.matchedKind, some true, .ok true, .ok earlier, .ok later))
    (different : earlier ≠ later) : MovesAstray drafts id rule feeds earlier later := by
  obtain ⟨graph, added, facts⟩ := Outcome.map_eq_ok.mp made
  simp only [Prod.mk.injEq] at facts
  obtain ⟨valued, kind, moves, changed, before, after⟩ := facts
  obtain ⟨values, evaluated, declared⟩ := Outcome.map_eq_ok.mp valued
  obtain ⟨chain, moves, plain⟩ := Option.map_eq_some_iff.mp moves
  exact ⟨graph, _, values, chain, added, evaluated,
    (Graph.hasDeclaredShapes_iff evaluated).mpr (of_decide_eq_true declared), kind, moves,
    of_decide_eq_true plain, Prod.ext changed rfl, before, after, different⟩

/-- What is asked of a graph before a rule is tried on a node that it changes, when it is read off the
graph itself. -/
theorem exists_run_of_values {drafts : List (Draft Rat)} {id : NodeId} {rule : Rule}
    {feeds : Assignment Rat} {demands : Graph Rat → Prop} [DecidablePred demands]
    (ordered : ∀ draft ∈ drafts, draft.IsInOrder)
    (undeclared : ∀ draft ∈ drafts, draft.op.kind ≠ .parameter → draft.declared = none)
    (made : (Graph.empty.addAll drafts).map (fun graph =>
      (decide graph.IsEvaluable, decide (graph.IsFed feeds), graph.kind? id, decide (demands graph),
        ((Transformation.apply ⟨rule, {}⟩ (.all {}) id).runOn (.ofGraph graph)).1)) =
      .ok (true, true, some rule.matchedKind, true, .ok true)) :
    ∃ graph values after, Graph.empty.addAll drafts = .ok graph ∧ graph.WellFormed ∧
      graph.kind? id = some rule.matchedKind ∧ demands graph ∧
      graph.evaluate feeds = .ok values ∧ graph.HasDeclaredShapes values ∧
      (Transformation.apply ⟨rule, {}⟩ (.all {}) id).runOn (.ofGraph graph) =
        (.ok true, after) := by
  obtain ⟨graph, added, facts⟩ := Outcome.map_eq_ok.mp made
  simp only [Prod.mk.injEq] at facts
  obtain ⟨evaluable, fed, kind, demanded, changed⟩ := facts
  have wellFormed := Graph.wellFormed_empty.addAll ordered added
  have inferred := Graph.isInferred_empty.addAll Graph.wellFormed_empty ordered undeclared added
  obtain ⟨values, evaluated, declared⟩ := inferred.exists_hasDeclaredShapes wellFormed
    (of_decide_eq_true evaluable) (of_decide_eq_true fed)
  exact ⟨graph, values, _, added, wellFormed, kind, of_decide_eq_true demanded, evaluated, declared,
    Prod.ext changed rfl⟩

/-- What is asked of a graph before a rule moves chains past a node. -/
theorem exists_applied_of_values {drafts : List (Draft Rat)} {id : NodeId} {rule : Rule}
    {feeds : Assignment Rat} {demands : Graph Rat → DequantizationChain → Prop}
    [∀ graph chain, Decidable (demands graph chain)]
    (ordered : ∀ draft ∈ drafts, draft.IsInOrder)
    (undeclared : ∀ draft ∈ drafts, draft.op.kind ≠ .parameter → draft.declared = none)
    (made : (Graph.empty.addAll drafts).map (fun graph =>
      (decide graph.IsEvaluable, decide (graph.IsFed feeds), graph.kind? id,
        decide (∀ chain ∈ graph.movedChain? rule id, demands graph chain),
        ((Transformation.apply ⟨rule, {}⟩ (.all {}) id).runOn (.ofGraph graph)).1)) =
      .ok (true, true, some rule.matchedKind, true, .ok true)) :
    ∃ graph values after, Graph.empty.addAll drafts = .ok graph ∧ graph.WellFormed ∧
      graph.kind? id = some rule.matchedKind ∧
      (∀ chain ∈ graph.movedChain? rule id, demands graph chain) ∧
      graph.evaluate feeds = .ok values ∧ graph.HasDeclaredShapes values ∧
      (Transformation.apply ⟨rule, {}⟩ (.all {}) id).runOn (.ofGraph graph) =
        (.ok true, after) :=
  exists_run_of_values ordered undeclared made

/-- Shapes are declared as they turn out, and a rule tells of a change to a node. After that the
results are others, although the graph has what is demanded of it. -/
def AltersResults (drafts : List (Draft Rat)) (id : NodeId) (rule : Rule)
    (demands : Graph Rat → Prop) (feeds : Assignment Rat) (earlier later : List (List Rat)) : Prop :=
  ∃ graph after values, Graph.empty.addAll drafts = .ok graph ∧
    graph.evaluate feeds = .ok values ∧ graph.HasDeclaredShapes values ∧ demands graph ∧
    (Transformation.apply ⟨rule, {}⟩ (.all {}) id).runOn (.ofGraph graph) = (.ok true, after) ∧
    (graph.evaluateResults feeds).map (List.map NDArray.toList) = .ok earlier ∧
    (after.graph.evaluateResults feeds).map (List.map NDArray.toList) = .ok later ∧ earlier ≠ later

theorem demanded_of_values {drafts : List (Draft Rat)} {demands : Graph Rat → Prop}
    [DecidablePred demands]
    (made : (Graph.empty.addAll drafts).map (fun graph => decide (demands graph)) = .ok true) :
    ∀ graph, Graph.empty.addAll drafts = .ok graph → demands graph := by
  intro graph added
  rw [added] at made
  exact of_decide_eq_true (Except.ok.inj made)

theorem wellFormed_and_demanded_of_values {drafts : List (Draft Rat)} {demands : Graph Rat → Prop}
    [DecidablePred demands] (ordered : ∀ draft ∈ drafts, draft.IsInOrder)
    (made : (Graph.empty.addAll drafts).map (fun graph => decide (demands graph)) = .ok true) :
    ∀ graph, Graph.empty.addAll drafts = .ok graph → graph.WellFormed ∧ demands graph :=
  fun graph added =>
    ⟨Graph.wellFormed_empty.addAll ordered added, demanded_of_values made graph added⟩

theorem altersResults_of_values {drafts : List (Draft Rat)} {id : NodeId} {rule : Rule}
    {demands : Graph Rat → Prop} {feeds : Assignment Rat} {earlier later : List (List Rat)}
    (made : (Graph.empty.addAll drafts).map (fun graph =>
      let applied := (Transformation.apply ⟨rule, {}⟩ (.all {}) id).runOn (.ofGraph graph)
      ((graph.evaluate feeds).map fun values => decide (∀ id ∈ graph.nodeIds,
          ∀ value ∈ values id, graph.shape? id = some value.shape ∧ value.shape.IsAddressable),
        applied.1, (graph.evaluateResults feeds).map (List.map NDArray.toList),
        (applied.2.graph.evaluateResults feeds).map (List.map NDArray.toList))) =
      .ok (.ok true, .ok true, .ok earlier, .ok later))
    (different : earlier ≠ later)
    (demanded : ∀ graph, Graph.empty.addAll drafts = .ok graph → demands graph) :
    AltersResults drafts id rule demands feeds earlier later := by
  obtain ⟨graph, added, facts⟩ := Outcome.map_eq_ok.mp made
  simp only [Prod.mk.injEq] at facts
  obtain ⟨valued, changed, before, after⟩ := facts
  obtain ⟨values, evaluated, declared⟩ := Outcome.map_eq_ok.mp valued
  exact ⟨graph, _, values, added, evaluated,
    (Graph.hasDeclaredShapes_iff evaluated).mpr (of_decide_eq_true declared), demanded graph added,
    Prod.ext changed rfl, before, after, different⟩

end Transformation

end QuantGraph
