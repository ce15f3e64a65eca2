import QuantGraph.Proofs.Dequantization.Attachment

/-! Chains that restore an output: what they consist of, what they read, and that
attaching a dequantization makes one. -/

namespace QuantGraph

namespace DequantizationChain

/-- The nodes of a chain in the order of the data. -/
def stages (chain : DequantizationChain) : List NodeId :=
  chain.convert.toList ++ chain.subtract.toList ++ chain.multiply.toList

end DequantizationChain

namespace Graph

/-! ## A chain in a graph -/

/-- A node applies an operation to an output and a constant. -/
def AppliesConstant (graph : Graph α) (op : Op α) (data : Output) (tensor : Tensor α)
    (id : NodeId) : Prop :=
  graph.op? id = some op ∧ ∃ constant, graph.inputs id = [data, constant.output] ∧
    graph.op? constant = some (.constant tensor) ∧ graph.inputs constant = []

/-- The Convert of a chain. -/
def HoldsConvert (graph : Graph α) (values : Dequantization α) (data : Output)
    (withConvert : Bool) (convert : Option NodeId) : Prop :=
  if withConvert then ∃ node, convert = some node ∧
    graph.op? node = some (.convert values.restoredType) ∧ graph.inputs node = [data]
  else convert = none

/-- The Subtract of a chain. -/
def HoldsSubtract (graph : Graph α) (values : Dequantization α) (data : Output)
    (subtract : Option NodeId) : Prop :=
  match values.shift with
  | some shift => ∃ node, subtract = some node ∧ graph.AppliesConstant .subtract data shift node
  | none => subtract = none

/-- A chain restores an output. -/
structure HoldsChain (graph : Graph α) (values : Dequantization α) (data : Output)
    (withConvert : Bool) (chain : DequantizationChain) : Prop where
  data_eq : chain.data = data
  convert : graph.HoldsConvert values data withConvert chain.convert
  subtract : graph.HoldsSubtract values (stageOutput chain.convert data) chain.subtract
  multiply : ∃ node, chain.multiply = some node ∧
    graph.AppliesConstant .multiply (stageOutput chain.subtract (stageOutput chain.convert data))
      values.scale node

variable {before middle after graph : Graph α} {values : Dequantization α} {data : Output}
  {name : String} {withConvert : Bool} {chain : DequantizationChain} {id : NodeId}

/-- Nodes that are stages or constants keep a chain. -/
theorem AppliesConstant.congr {op : Op α} {tensor : Tensor α}
    (applies : before.AppliesConstant op data tensor id) (same : before.SameAt after id)
    (constants : ∀ node tensor, before.op? node = some (.constant tensor) →
      before.inputs node = [] → before.SameAt after node) :
    after.AppliesConstant op data tensor id := by
  obtain ⟨isOp, constant, inputs, isConstant, none_in⟩ := applies
  have kept := constants constant tensor isConstant none_in
  exact ⟨same.1.trans isOp, constant, same.2.trans inputs, kept.1.trans isConstant,
    kept.2.trans none_in⟩

theorem HoldsConvert.congr {convert : Option NodeId}
    (holds : before.HoldsConvert values data withConvert convert)
    (same : ∀ node ∈ convert.toList, before.contains node = true → before.SameAt after node) :
    after.HoldsConvert values data withConvert convert := by
  unfold HoldsConvert at holds ⊢
  split at holds
  case isTrue asked =>
    obtain ⟨node, rfl, isOp, inputs⟩ := holds
    have kept := same node (by simp) (contains_of_op? isOp)
    rw [if_pos asked]
    exact ⟨node, rfl, kept.1.trans isOp, kept.2.trans inputs⟩
  case isFalse unasked =>
    rw [if_neg unasked]
    exact holds

theorem HoldsSubtract.congr {subtract : Option NodeId}
    (holds : before.HoldsSubtract values data subtract)
    (same : ∀ node ∈ subtract.toList, before.contains node = true → before.SameAt after node)
    (constants : ∀ node tensor, before.op? node = some (.constant tensor) →
      before.inputs node = [] → before.SameAt after node) :
    after.HoldsSubtract values data subtract := by
  unfold HoldsSubtract at holds ⊢
  cases shift : values.shift with
  | none =>
      rw [shift] at holds
      exact holds
  | some tensor =>
      rw [shift] at holds
      obtain ⟨node, rfl, applies⟩ := holds
      exact ⟨node, rfl,
        applies.congr (same node (by simp) (contains_of_op? applies.1)) constants⟩

theorem HoldsChain.congr (holds : before.HoldsChain values data withConvert chain)
    (stages : ∀ node ∈ chain.stages, before.contains node = true → before.SameAt after node)
    (constants : ∀ node tensor, before.op? node = some (.constant tensor) →
      before.inputs node = [] → before.SameAt after node) :
    after.HoldsChain values data withConvert chain where
  data_eq := holds.data_eq
  convert := holds.convert.congr fun node member =>
    stages node (List.mem_append_left _ (List.mem_append_left _ member))
  subtract := holds.subtract.congr (fun node member =>
    stages node (List.mem_append_left _ (List.mem_append_right _ member))) constants
  multiply := by
    obtain ⟨node, present, applies⟩ := holds.multiply
    exact ⟨node, present, applies.congr
      (stages node (by simp [DequantizationChain.stages, present]) (contains_of_op? applies.1))
      constants⟩

/-! ## Attaching a chain -/

/-- Nodes have been added: those in a list, and constants. -/
structure Extends (before : Graph α) (new : List NodeId) (after : Graph α) : Prop where
  grows : before.Grows after
  wellFormed : after.WellFormed
  fresh : ∀ node ∈ new, before.contains node = false
  cover : ∀ node, after.contains node = true → before.contains node = true ∨ node ∈ new ∨
    ∃ tensor, after.op? node = some (.constant tensor) ∧ after.inputs node = []

theorem Grows.sameAt (grows : before.Grows after) (live : before.contains id = true) :
    before.SameAt after id :=
  ⟨op?_congr (grows.node_eq id live), grows.inputs_eq live⟩

theorem Adds.extends {draft : Draft α} {outputs : List Output}
    (adds : before.Adds draft outputs id after) : before.Extends [id] after where
  grows := adds.grows
  wellFormed := adds.wellFormed
  fresh := fun node member => List.mem_singleton.mp member ▸ adds.fresh
  cover := by
    intro node live
    rcases adds.contains_iff.mp live with rfl | live
    · exact Or.inr (Or.inl List.mem_cons_self)
    · exact Or.inl live

theorem Adds.extends_constant {tensor : Tensor α}
    (adds : before.Adds ((Op.constant tensor).draft name) [] id after) :
    before.Extends [] after where
  grows := adds.grows
  wellFormed := adds.wellFormed
  fresh := by simp
  cover := by
    intro node live
    rcases adds.contains_iff.mp live with rfl | live
    · exact Or.inr (Or.inr ⟨tensor, adds.op?_new, adds.inputs_new⟩)
    · exact Or.inl live

namespace Extends

theorem refl (wellFormed : graph.WellFormed) : graph.Extends [] graph :=
  ⟨.refl graph, wellFormed, by simp, fun _ live => Or.inl live⟩

theorem trans {first second : List NodeId} (left : before.Extends first middle)
    (right : middle.Extends second after) : before.Extends (first ++ second) after where
  grows := left.grows.trans right.grows
  wellFormed := right.wellFormed
  fresh := by
    intro node member
    rcases List.mem_append.mp member with member | member
    · exact left.fresh node member
    · refine Bool.eq_false_iff.mpr fun live => ?_
      have dead := right.fresh node member
      rw [left.grows.live live] at dead
      cases dead
  cover := by
    intro node live
    rcases right.cover node live with live | member | constant
    · rcases left.cover node live with earlier | member | ⟨tensor, isOp, none_in⟩
      · exact Or.inl earlier
      · exact Or.inr (Or.inl (List.mem_append_left second member))
      · have same := right.grows.sameAt live
        exact Or.inr (Or.inr ⟨tensor, same.1.trans isOp, same.2.trans none_in⟩)
    · exact Or.inr (Or.inl (List.mem_append_right first member))
    · exact Or.inr (Or.inr constant)

end Extends

theorem AttachesConvert.extends {convert : Option NodeId} (wellFormed : before.WellFormed)
    (attaches : before.AttachesConvert values data name withConvert convert after) :
    before.Extends convert.toList after ∧
      after.HoldsConvert values data withConvert convert := by
  unfold AttachesConvert at attaches
  unfold HoldsConvert
  split at attaches
  case isTrue asked =>
    obtain ⟨node, rfl, adds⟩ := attaches
    rw [if_pos asked]
    exact ⟨adds.extends, node, rfl, adds.op?_new, adds.inputs_new⟩
  case isFalse unasked =>
    obtain ⟨rfl, rfl⟩ := attaches
    rw [if_neg unasked]
    exact ⟨.refl wellFormed, rfl⟩

/-- An operation on an output and on a constant that was added before. -/
theorem appliesConstant_of_gains {tensor : Tensor α} {constant : NodeId} {draft : Draft α}
    {constantName : String}
    (gainsConstant : before.Gains ((Op.constant tensor).draft constantName) [] constant middle)
    (gains : middle.Gains draft [data, constant.output] id after) :
    after.AppliesConstant draft.op data tensor id := by
  have same := gains.grows.sameAt gainsConstant.live
  exact ⟨gains.op?_new, constant, gains.inputs_new, same.1.trans gainsConstant.op?_new,
    same.2.trans gainsConstant.inputs_new⟩

theorem appliesConstant_of_adds {tensor : Tensor α} {constant : NodeId} {draft : Draft α}
    {constantName : String}
    (addsConstant : before.Adds ((Op.constant tensor).draft constantName) [] constant middle)
    (adds : middle.Adds draft [data, constant.output] id after) :
    before.Extends [id] after ∧ after.AppliesConstant draft.op data tensor id :=
  ⟨addsConstant.extends_constant.trans adds.extends,
    appliesConstant_of_gains addsConstant.gains adds.gains⟩

theorem AttachesSubtract.extends {subtract : Option NodeId} (wellFormed : before.WellFormed)
    (attaches : before.AttachesSubtract values data name subtract after) :
    before.Extends subtract.toList after ∧ after.HoldsSubtract values data subtract := by
  unfold AttachesSubtract at attaches
  unfold HoldsSubtract
  cases shift : values.shift with
  | none =>
      rw [shift] at attaches
      obtain ⟨rfl, rfl⟩ := attaches
      exact ⟨.refl wellFormed, rfl⟩
  | some tensor =>
      rw [shift] at attaches
      obtain ⟨constant, middle, node, rfl, addsConstant, adds⟩ := attaches
      obtain ⟨extension, applies⟩ := appliesConstant_of_adds addsConstant adds
      exact ⟨extension, node, rfl, applies⟩

theorem Attaches.extends (wellFormed : before.WellFormed)
    (attaches : before.Attaches values data name withConvert chain after) :
    before.Extends chain.stages after ∧ after.HoldsChain values data withConvert chain := by
  obtain ⟨converted, shifted, constant, multiply, withConstant, attachesConvert, attachesSubtract,
    addsConstant, addsMultiply, data_eq, isMultiply⟩ := attaches
  obtain ⟨converts, holdsConvert⟩ := attachesConvert.extends wellFormed
  obtain ⟨subtracts, holdsSubtract⟩ := attachesSubtract.extends converts.wellFormed
  obtain ⟨multiplies, applies⟩ := appliesConstant_of_adds addsConstant addsMultiply
  have later := (subtracts.trans multiplies).grows
  refine ⟨?_, data_eq, ?_, ?_, multiply, isMultiply, applies⟩
  · have whole := (converts.trans subtracts).trans multiplies
    rw [DequantizationChain.stages, isMultiply]
    exact whole
  · exact holdsConvert.congr fun node _ live => later.sameAt live
  · exact holdsSubtract.congr (fun node _ live => multiplies.grows.sameAt live)
      fun node tensor isOp _ => multiplies.grows.sameAt (contains_of_op? isOp)

theorem HoldsChain.kind_stage (holds : graph.HoldsChain values data withConvert chain)
    (member : id ∈ chain.stages) :
    ∃ kind ∈ [OpKind.convert, .subtract, .multiply], graph.kind? id = some kind := by
  rw [DequantizationChain.stages, List.mem_append, List.mem_append, Option.mem_toList,
    Option.mem_toList, Option.mem_toList] at member
  rcases member with (isConvert | isSubtract) | isMultiply
  · have convert := holds.convert
    unfold HoldsConvert at convert
    rw [isConvert] at convert
    split at convert
    case isTrue =>
      obtain ⟨node, equal, isOp, _⟩ := convert
      cases equal
      exact ⟨.convert, by simp, kind?_of_op? isOp⟩
    case isFalse => cases convert
  · have subtract := holds.subtract
    unfold HoldsSubtract at subtract
    rw [isSubtract] at subtract
    split at subtract
    case h_1 =>
      obtain ⟨node, equal, isOp, _⟩ := subtract
      cases equal
      exact ⟨.subtract, by simp, kind?_of_op? isOp⟩
    case h_2 => cases subtract
  · obtain ⟨node, present, isOp, _⟩ := holds.multiply
    cases present.symm.trans isMultiply
    exact ⟨.multiply, by simp, kind?_of_op? isOp⟩

theorem HoldsChain.tail_eq (holds : graph.HoldsChain values data withConvert chain) :
    ∃ node ∈ chain.stages, chain.tail = node.output := by
  obtain ⟨node, present, _⟩ := holds.multiply
  exact ⟨node, by simp [DequantizationChain.stages, present],
    by simp [DequantizationChain.tail, present]⟩

theorem stageOutput_mem (stage : Option NodeId) (data : Output) :
    (∃ node, stage = some node ∧ stageOutput stage data = node.output) ∨
      stage = none ∧ stageOutput stage data = data := by
  cases stage with
  | none => exact Or.inr ⟨rfl, rfl⟩
  | some node => exact Or.inl ⟨node, rfl, rfl⟩

theorem AppliesConstant.reads {op : Op α} {tensor : Tensor α} {source : NodeId}
    (applies : graph.AppliesConstant op data tensor id) (reads : graph.Reads source id) :
    source = data.node ∨ ∃ tensor, graph.op? source = some (.constant tensor) := by
  obtain ⟨_, constant, inputs, isConstant, _⟩ := applies
  obtain ⟨output, member, rfl⟩ := reads_iff_mem_inputs.mp reads
  rw [inputs, List.mem_pair] at member
  rcases member with rfl | rfl
  · exact Or.inl rfl
  · exact Or.inr ⟨tensor, isConstant⟩

/-- Only the first stage of a chain reads what is restored. -/
theorem HoldsChain.reads_stage (holds : graph.HoldsChain values data withConvert chain)
    {source node : NodeId} (member : node ∈ chain.stages) (reads : graph.Reads source node) :
    source = data.node ∧ chain.stages.head? = some node ∨ source ∈ chain.stages ∨
      ∃ tensor, graph.op? source = some (.constant tensor) := by
  unfold DequantizationChain.stages at member ⊢
  rcases List.mem_append.mp member with listed | listed
  · rcases List.mem_append.mp listed with isConvert | isSubtract
    · have convert := holds.convert
      unfold HoldsConvert at convert
      split at convert
      case isTrue =>
        obtain ⟨stage, present, _, inputs⟩ := convert
        rw [present, Option.mem_toList] at isConvert
        cases isConvert
        obtain ⟨output, read, rfl⟩ := reads_iff_mem_inputs.mp reads
        rw [inputs, List.mem_singleton] at read
        exact Or.inl ⟨congrArg Output.node read, by simp [present]⟩
      case isFalse => simp [convert] at isConvert
    · have subtract := holds.subtract
      unfold HoldsSubtract at subtract
      cases shift : values.shift with
      | none => simp [show chain.subtract = none by simpa [shift] using subtract] at isSubtract
      | some tensor =>
          rw [shift] at subtract
          obtain ⟨stage, present, applies⟩ := subtract
          rw [present, Option.mem_toList] at isSubtract
          cases isSubtract
          rcases applies.reads reads with rfl | constant
          · rcases stageOutput_mem chain.convert data with
              ⟨earlier, isEarlier, _⟩ | ⟨missing, equal⟩
            · exact Or.inr (Or.inl (by simp [stageOutput, isEarlier, NodeId.output]))
            · exact Or.inl ⟨congrArg Output.node equal, by simp [missing, present]⟩
          · exact Or.inr (Or.inr constant)
  · obtain ⟨stage, present, applies⟩ := holds.multiply
    rw [present, Option.mem_toList] at listed
    cases listed
    rcases applies.reads reads with rfl | constant
    · rcases stageOutput_mem chain.subtract (stageOutput chain.convert data) with
        ⟨earlier, isEarlier, _⟩ | ⟨missing, equal⟩
      · exact Or.inr (Or.inl (by simp [stageOutput, isEarlier, NodeId.output]))
      · rcases stageOutput_mem chain.convert data with
          ⟨earlier, isEarlier, _⟩ | ⟨absent, same⟩
        · exact Or.inr (Or.inl (by simp [stageOutput, missing, isEarlier, NodeId.output]))
        · exact Or.inl ⟨by rw [equal, same], by simp [missing, absent, present]⟩
    · exact Or.inr (Or.inr constant)

end Graph

end QuantGraph
