import Mathlib
import QuantGraph.Proofs.Dequantization.Restoration
import QuantGraph.Proofs.Graph.Construction

/-! A chain that was attached to an output is found again by whatever reads its end, with the
nodes, the shift and the scale that it was made from. The stages are told apart by their kinds
and by their constants, so without a Convert of its own a chain must not start from a node that
could be a stage itself. -/

namespace QuantGraph

namespace Graph

variable {before middle after graph : Graph α} {values : Dequantization α} {data : Output}
  {chain : DequantizationChain} {withConvert : Bool} {id : NodeId} {op : Op α} {tensor : Tensor α}

/-! ## Nodes that are added -/

/-- Nodes have been added, and those in a list use each of their slots once. -/
structure Appends (before : Graph α) (new : List NodeId) (after : Graph α) : Prop where
  grows : before.Grows after
  consistent : after.IsConsistent
  live : ∀ node ∈ new, after.contains node = true
  exact : ∀ node ∈ new, after.HasExactSlots node

theorem Grows.hasExactSlots (grows : before.Grows after) (live : before.contains id = true)
    (exact : before.HasExactSlots id) : after.HasExactSlots id := by
  unfold HasExactSlots inputCount
  rw [grows.incoming_eq live]
  exact exact

theorem Gains.appends {draft : Draft α} {outputs : List Output}
    (gains : before.Gains draft outputs id after) : before.Appends [id] after where
  grows := gains.grows
  consistent := gains.consistent
  live := by simp [gains.live]
  exact := by simp [gains.exact_new]

namespace Appends

theorem refl (consistent : graph.IsConsistent) : graph.Appends [] graph :=
  ⟨.refl graph, consistent, by simp, by simp⟩

theorem trans {first second : List NodeId} (left : before.Appends first middle)
    (right : middle.Appends second after) : before.Appends (first ++ second) after where
  grows := left.grows.trans right.grows
  consistent := right.consistent
  live := by
    intro node member
    rcases List.mem_append.mp member with member | member
    · exact right.grows.live (left.live node member)
    · exact right.live node member
  exact := by
    intro node member
    rcases List.mem_append.mp member with member | member
    · exact right.grows.hasExactSlots (left.live node member) (left.exact node member)
    · exact right.exact node member

end Appends

theorem Gains.appends_next {draft draft' : Draft α} {outputs outputs' : List Output}
    {id' : NodeId} (first : before.Gains draft outputs id middle)
    (second : middle.Gains draft' outputs' id' after) : before.Appends [id'] after :=
  ⟨first.grows.trans second.grows, second.consistent, second.appends.live, second.appends.exact⟩

/-! ## Reading a chain back -/

/-- A node takes a constant away from something that varies. -/
def SubtractsConstant (graph : Graph α) (id : NodeId) : Prop :=
  graph.kind? id = some .subtract ∧ ∃ left right, graph.input? id 0 = some left ∧
    graph.input? id 1 = some right ∧ graph.isConstant left.node = false ∧
    graph.isConstant right.node = true

/-- An output is no stage of a chain that is attached to it without a Convert. -/
structure IsBare (graph : Graph α) (values : Dequantization α) (data : Output) : Prop where
  varies : graph.isConstant data.node = false
  not_convert : graph.kind? data.node ≠ some .convert
  not_difference : values.shift = none → ¬ graph.SubtractsConstant data.node

theorem subtractsConstant_of_underSubtract? {output : Output}
    (found : graph.underSubtract? output = some data) : graph.SubtractsConstant output.node := by
  obtain ⟨isSubtract, operand, present, first, _⟩ := underSubtract?_eq_some.mp found
  obtain ⟨_, _, left, ⟨_, right⟩, isConstant, varies⟩ := constantOperand?_eq_some present
  rw [first] at left right
  refine ⟨isSubtract, _, _, left, right, ?_, isConstant_iff.mpr ⟨_, isConstant⟩⟩
  simp [Graph.isConstant, varies]

theorem Grows.isBare (grows : before.Grows after) (consistent : before.IsConsistent)
    (live : before.contains data.node = true) (bare : before.IsBare values data) :
    after.IsBare values data := by
  have kept {node : NodeId} (live : before.contains node = true) :
      after.isConstant node = before.isConstant node := by
    rw [Graph.isConstant, Graph.isConstant, constant?_congr (grows.node_eq node live)]
  constructor
  case varies => exact (kept live).trans bare.varies
  case not_convert =>
    rw [kind?_congr (grows.node_eq _ live)]
    exact bare.not_convert
  case not_difference =>
    rintro unshifted ⟨isSubtract, left, right, readsLeft, readsRight, varies, isConstant⟩
    rw [kind?_congr (grows.node_eq _ live)] at isSubtract
    rw [grows.input?_eq live] at readsLeft readsRight
    rw [kept (consistent.reads_live (reads_of_input? readsLeft)).1] at varies
    rw [kept (consistent.reads_live (reads_of_input? readsRight)).1] at isConstant
    exact bare.not_difference unshifted
      ⟨isSubtract, left, right, readsLeft, readsRight, varies, isConstant⟩

/-- What a stage applies its constant to, and the constant, are found again. -/
theorem AppliesConstant.exists_constantOperand? (applies : graph.AppliesConstant op data tensor id)
    (exact : graph.HasExactSlots id) (varies : graph.constant? data.node = none) :
    ∃ operand, graph.constantOperand? id = some operand ∧ operand.slot = 0 ∧
      operand.data = data ∧ graph.inputNode? id 1 = some operand.constant ∧
      graph.constantInput? id = some operand.constant ∧
      graph.constant? operand.constant = some tensor := by
  obtain ⟨_, constant, inputs, isConstant, _⟩ := applies
  have isTensor := constant?_eq_some_iff.mpr isConstant
  have reads : graph.ReadsOperands id
      { slot := 0, data := data, constant := constant, tensor := tensor } :=
    .constantLast inputs varies isTensor
  exact ⟨_, (constantOperand?_eq_some_iff exact).mpr reads, rfl, rfl, reads.inputNode?_eq exact rfl,
    reads.constantInput?_eq, isTensor⟩

theorem peel_stageOutput {under : Output → Option Output} {stage : Option NodeId}
    (found : ∀ node, stage = some node → under node.output = some data)
    (missing : stage = none → under data = none) :
    peel under (stageOutput stage data) = (stage, data) := by
  unfold peel
  cases stage with
  | none => simp [stageOutput, missing rfl]
  | some node =>
      simp only [stageOutput, Option.map_some, Option.getD_some, found node rfl]
      rfl

namespace HoldsConvert

variable {convert : Option NodeId} (holds : graph.HoldsConvert values data withConvert convert)

include holds

theorem converts {node : NodeId} (isConvert : convert = some node) :
    graph.op? node = some (.convert values.restoredType) ∧ graph.inputs node = [data] := by
  unfold HoldsConvert at holds
  split at holds
  case isTrue =>
    obtain ⟨other, equal, facts⟩ := holds
    cases isConvert.symm.trans equal
    exact facts
  case isFalse => cases isConvert.symm.trans holds

theorem unasked (missing : convert = none) : withConvert = false := by
  unfold HoldsConvert at holds
  split at holds
  case isTrue =>
    obtain ⟨_, equal, _⟩ := holds
    cases missing.symm.trans equal
  case isFalse unasked => exact Bool.not_eq_true _ ▸ unasked

variable (bare : withConvert = false → graph.IsBare values data)

include bare

/-- What a Convert makes is no constant, and neither is what a bare chain starts from. -/
theorem varies : graph.constant? (stageOutput convert data).node = none := by
  cases equal : convert with
  | none => simpa [Graph.isConstant, stageOutput] using (bare (holds.unasked equal)).varies
  | some node => exact constant?_of_op? (holds.converts equal).1

theorem peel_eq (exact : ∀ node ∈ convert.toList, graph.HasExactSlots node) :
    peel graph.underConvert? (stageOutput convert data) = (convert, data) := by
  apply peel_stageOutput
  · intro node isConvert
    obtain ⟨isOp, inputs⟩ := holds.converts isConvert
    refine underConvert?_eq_some.mpr ⟨kind?_of_op? isOp, ?_⟩
    have exact := exact node (by simp [isConvert])
    exact (exact.input?_eq 0).trans (by rw [inputs]; rfl)
  · intro missing
    apply Option.eq_none_iff_forall_ne_some.mpr
    intro other found
    exact (bare (holds.unasked missing)).not_convert (underConvert?_eq_some.mp found).1

/-- Without a shift, what the chain multiplies is no difference of its own. -/
theorem underSubtract?_eq_none (unshifted : values.shift = none) :
    graph.underSubtract? (stageOutput convert data) = none := by
  apply Option.eq_none_iff_forall_ne_some.mpr
  intro other found
  cases equal : convert with
  | none =>
      rw [equal] at found
      exact (bare (holds.unasked equal)).not_difference unshifted
        (subtractsConstant_of_underSubtract? found)
  | some node =>
      rw [equal] at found
      have isSubtract : graph.kind? node = some .subtract := (underSubtract?_eq_some.mp found).1
      rw [kind?_of_op? (holds.converts equal).1] at isSubtract
      cases isSubtract

end HoldsConvert

namespace HoldsSubtract

variable {subtract : Option NodeId} (holds : graph.HoldsSubtract values data subtract)

include holds

theorem applies {node : NodeId} (isSubtract : subtract = some node) :
    ∃ shift, values.shift = some shift ∧ graph.AppliesConstant .subtract data shift node := by
  unfold HoldsSubtract at holds
  split at holds
  case h_1 shift isShift =>
    obtain ⟨other, equal, applies⟩ := holds
    cases isSubtract.symm.trans equal
    exact ⟨shift, isShift, applies⟩
  case h_2 => cases isSubtract.symm.trans holds

theorem unshifted (missing : subtract = none) : values.shift = none := by
  unfold HoldsSubtract at holds
  split at holds
  case h_1 =>
    obtain ⟨_, equal, _⟩ := holds
    cases missing.symm.trans equal
  case h_2 unshifted => exact unshifted

theorem varies (varies : graph.constant? data.node = none) :
    graph.constant? (stageOutput subtract data).node = none := by
  cases equal : subtract with
  | none => exact varies
  | some node =>
      obtain ⟨_, _, isOp, _⟩ := holds.applies equal
      exact constant?_of_op? isOp

theorem peel_eq (exact : ∀ node ∈ subtract.toList, graph.HasExactSlots node)
    (varies : graph.constant? data.node = none)
    (apart : values.shift = none → graph.underSubtract? data = none) :
    peel graph.underSubtract? (stageOutput subtract data) = (subtract, data) := by
  apply peel_stageOutput
  · intro node isSubtract
    obtain ⟨shift, _, applies⟩ := holds.applies isSubtract
    obtain ⟨operand, present, first, isData, _⟩ :=
      applies.exists_constantOperand? (exact node (by simp [isSubtract])) varies
    exact underSubtract?_eq_some.mpr ⟨kind?_of_op? applies.1, operand, present, first, isData⟩
  · intro missing
    exact apart (holds.unshifted missing)

end HoldsSubtract

namespace HoldsChain

variable (holds : graph.HoldsChain values data withConvert chain)
  (exact : ∀ node ∈ chain.stages, graph.HasExactSlots node)
  (bare : withConvert = false → graph.IsBare values data)

include holds bare

/-- What the Multiply of a chain scales is no constant. -/
theorem varies :
    graph.constant? (stageOutput chain.subtract (stageOutput chain.convert data)).node = none :=
  holds.subtract.varies (holds.convert.varies bare)

include exact

theorem shift?_eq : chain.shift? graph = values.shift := by
  unfold DequantizationChain.shift? DequantizationChain.subtractConstant?
  cases equal : chain.subtract with
  | none => simp [holds.subtract.unshifted equal]
  | some subtract =>
      obtain ⟨shift, isShift, applies⟩ := holds.subtract.applies equal
      obtain ⟨_, _, _, _, isConstant, _, isTensor⟩ := applies.exists_constantOperand?
        (exact subtract (by simp [DequantizationChain.stages, equal])) (holds.convert.varies bare)
      simp [isConstant, Graph.isConstant, isTensor, isShift]

theorem scale?_eq : chain.scale? graph = some values.scale := by
  obtain ⟨multiply, isMultiply, applies⟩ := holds.multiply
  obtain ⟨_, _, _, _, _, isFirst, isTensor⟩ := applies.exists_constantOperand?
    (exact multiply (by simp [DequantizationChain.stages, isMultiply])) (holds.varies bare)
  simp [DequantizationChain.scale?, DequantizationChain.multiplyConstant?, isMultiply, isFirst,
    isTensor]

/-- A chain is found again from its end. -/
theorem dequantization_eq {slot : Nat} (reads : graph.input? id slot = some chain.tail) :
    graph.dequantization id slot = chain := by
  obtain ⟨multiply, isMultiply, applies⟩ := holds.multiply
  have tail : chain.tail = stageOutput (some multiply)
      (stageOutput chain.subtract (stageOutput chain.convert data)) := by
    simp [DequantizationChain.tail, isMultiply, stageOutput]
  have unscaled : peel graph.underMultiply? chain.tail =
      (some multiply, stageOutput chain.subtract (stageOutput chain.convert data)) := by
    rw [tail]
    apply peel_stageOutput
    · rintro node ⟨⟩
      obtain ⟨operand, present, _, isData, _⟩ := applies.exists_constantOperand?
        (exact multiply (by simp [DequantizationChain.stages, isMultiply])) (holds.varies bare)
      exact underMultiply?_eq_some.mpr ⟨kind?_of_op? applies.1, operand, present, isData⟩
    · rintro ⟨⟩
  have unshifted := holds.subtract.peel_eq
    (fun node member => exact node (by simp_all [DequantizationChain.stages]))
    (holds.convert.varies bare) (holds.convert.underSubtract?_eq_none bare)
  have unconverted := holds.convert.peel_eq bare fun node member =>
    exact node (by simp_all [DequantizationChain.stages])
  unfold dequantization
  simp only [reads, unscaled, unshifted, unconverted]
  rw [← isMultiply, ← holds.data_eq]

end HoldsChain

end Graph

/-! ## Attaching and reading back -/

namespace Dequantization

open QuantGraph.Graph Revision GraphRevision

variable {graph attached after : Graph α} {values : Dequantization α} {data : Output}
  {name : String} {withConvert : Bool}

theorem ensures_attachConvert_appends (consistent : graph.IsConsistent) :
    (values.attachConvert data name withConvert).Ensures graph (fun _ => True)
      fun convert after => graph.Appends convert.toList after ∧
        after.HoldsConvert values data withConvert convert := by
  unfold attachConvert HoldsConvert
  cases withConvert with
  | false => exact ⟨.refl consistent, rfl⟩
  | true =>
      apply ensures_bind.mpr
      apply ensures_gain consistent [data] ⟨rfl, by simp⟩ trivial
      intro convert after gains
      exact ⟨gains.appends, convert, rfl, gains.op?_new, gains.inputs_new⟩

theorem ensures_attachSubtract_appends (consistent : graph.IsConsistent) :
    (values.attachSubtract data name).Ensures graph (fun _ => True)
      fun subtract after => graph.Appends subtract.toList after ∧
        after.HoldsSubtract values data subtract := by
  unfold attachSubtract HoldsSubtract
  cases values.shift with
  | none => exact ⟨.refl consistent, rfl⟩
  | some shift =>
      apply ensures_gainWithConstant consistent data (fun _ => ⟨rfl, by simp⟩) fun _ => trivial
      intro constant middle subtract after gainsConstant gains
      exact ⟨gainsConstant.appends_next gains, subtract, rfl,
        appliesConstant_of_gains gainsConstant gains⟩

/-- Attaching a dequantization gives a chain whose stages use each of their slots once. -/
theorem ensures_attach_appends (consistent : graph.IsConsistent) :
    (values.attach data name withConvert).Ensures graph (fun _ => True) fun chain after =>
      graph.Appends chain.stages after ∧ after.HoldsChain values data withConvert chain := by
  unfold attach
  apply ensures_bind.mpr
  refine (ensures_attachConvert_appends consistent).mono (fun _ bad => bad) ?_
  rintro convert converted ⟨converts, holdsConvert⟩
  apply ensures_bind.mpr
  refine (ensures_attachSubtract_appends converts.consistent).mono (fun _ bad => bad) ?_
  rintro subtract shifted ⟨subtracts, holdsSubtract⟩
  apply ensures_gainWithConstant subtracts.consistent
    (stageOutput subtract (stageOutput convert data)) (fun _ => ⟨rfl, by simp⟩) fun _ => trivial
  intro constant withConstant multiply after gainsConstant gains
  have multiplies := gainsConstant.appends_next gains
  constructor
  · exact (converts.trans subtracts).trans multiplies
  · exact
      { data_eq := rfl
        convert := holdsConvert.congr fun node _ live =>
          (subtracts.trans multiplies).grows.sameAt live
        subtract := holdsSubtract.congr (fun node _ live => multiplies.grows.sameAt live)
          fun node tensor isOp _ => multiplies.grows.sameAt (contains_of_op? isOp)
        multiply := ⟨multiply, rfl, appliesConstant_of_gains gainsConstant gains⟩ }

/-- A chain that was attached to an output is found again by every node that is added afterwards
and reads its end, with the shift and the scale that it was made from. Without a Convert, the
output must not come from a constant or a Convert, nor, without a shift, from a difference of
something that varies and a constant. -/
theorem dequantization_attach {chain : DequantizationChain} {drafts : List (Draft α)}
    {reader : NodeId} {slot : Nat} (consistent : graph.IsConsistent)
    (live : graph.contains data.node = true)
    (bare : withConvert = false → graph.IsBare values data)
    (ran : (values.attach data name withConvert).runOn graph = (.ok chain, attached))
    (added : attached.addAll drafts = .ok after)
    (reads : after.input? reader slot = some chain.tail) :
    after.dequantization reader slot = chain ∧ chain.shift? after = values.shift ∧
      chain.scale? after = some values.scale := by
  obtain ⟨appends, holds⟩ := (ensures_attach_appends consistent).of_runOn ran
  obtain ⟨_, later⟩ := appends.consistent.addAll added
  have holds := holds.congr (fun node _ present => later.sameAt present)
    fun node tensor isOp _ => later.sameAt (contains_of_op? isOp)
  have exact : ∀ node ∈ chain.stages, after.HasExactSlots node := fun node member =>
    later.hasExactSlots (appends.live node member) (appends.exact node member)
  have bare : withConvert = false → after.IsBare values data := fun unasked =>
    (appends.grows.trans later).isBare consistent live (bare unasked)
  exact ⟨holds.dequantization_eq exact bare reads, holds.shift?_eq exact bare,
    holds.scale?_eq exact bare⟩

/-- What is left of three when a parameter is taken away. -/
def remainder : List (Draft Rat) :=
  [{ op := .parameter, name := "x", declared := some { elementType := .f32, shape := [2] } },
    (Op.constant (.scalar .f32 3)).draft "three",
    (Op.subtract.draft "remainder").readAll [NodeId.mk 1, NodeId.mk 0]]

set_option synthInstance.maxSize 512 in
/-- A chain without a Convert or a shift is told apart from the difference under it, which takes
something away from a constant. -/
theorem dequantization_attach_remainder :
    ∃ (graph attached after : Graph Rat) (chain : DequantizationChain),
      let values : Dequantization Rat :=
        { restoredType := .f32, precision := .u8, shift := none, scale := .scalar .f32 2 }
      let data := (NodeId.mk 2).output
      let readers : List (Draft Rat) := [(Op.add.draft "sum").readAll [NodeId.mk 0, NodeId.mk 4]]
      Graph.empty.addAll remainder = .ok graph ∧ graph.IsConsistent ∧
        graph.contains data.node = true ∧ graph.IsBare values data ∧
        (values.attach data "restored" false).runOn graph = (.ok chain, attached) ∧
        attached.addAll readers = .ok after ∧ after.input? (NodeId.mk 5) 1 = some chain.tail ∧
        after.dequantization (NodeId.mk 5) 1 = chain ∧ chain.shift? after = values.shift ∧
        chain.scale? after = some values.scale := by
  let values : Dequantization Rat :=
    { restoredType := .f32, precision := .u8, shift := none, scale := .scalar .f32 2 }
  let data := (NodeId.mk 2).output
  let readers : List (Draft Rat) := [(Op.add.draft "sum").readAll [NodeId.mk 0, NodeId.mk 4]]
  let chain : DequantizationChain :=
    { data := data, convert := none, subtract := none, multiply := some (NodeId.mk 4) }
  have made : (Graph.empty.addAll remainder).map (fun graph =>
      let attachment := (values.attach data "restored" false).runOn graph
      (graph.isConstant data.node, graph.kind? data.node,
        (graph.input? data.node 0).map (fun output => graph.isConstant output.node), attachment.1,
        (attachment.2.addAll readers).map fun after => after.input? (NodeId.mk 5) 1)) =
        .ok (false, some .subtract, some true, .ok chain, .ok (some chain.tail)) := by decide +kernel
  obtain ⟨graph, added, facts⟩ := Outcome.map_eq_ok.mp made
  simp only [Prod.mk.injEq] at facts
  obtain ⟨varies, kind, first, attached, read⟩ := facts
  obtain ⟨after, extended, reads⟩ := Outcome.map_eq_ok.mp read
  have consistent := (Graph.wellFormed_empty.consistent.addAll added).1
  have live : graph.contains data.node = true := contains_of_kind? kind
  have bare : graph.IsBare values data :=
    { varies := varies
      not_convert := by simp [kind]
      not_difference := by
        rintro _ ⟨_, left, _, isLeft, _, leftVaries, _⟩
        rw [isLeft, Option.map_some, leftVaries] at first
        cases first }
  have ran : (values.attach data "restored" false).runOn graph = (.ok chain, _) :=
    Prod.ext attached rfl
  exact ⟨graph, _, after, chain, added, consistent, live, bare, ran, extended, reads,
    dequantization_attach consistent live (fun _ => bare) ran extended reads⟩

end Dequantization

end QuantGraph
