import QuantGraph.Dequantization.Move
import QuantGraph.Proofs.Dequantization.Simplify

/-! Moving a chain from the input of an operation to its output, as a relation between
the graph before and the graph after. -/

namespace QuantGraph

namespace Graph

section Plans

variable {graph : Graph α} {id : NodeId} {chain : DequantizationChain} {moveSubtract : Bool}

theorem slotReading_eq_ok {parent child : NodeId} {slot : Nat}
    (found : graph.slotReading parent child = .ok slot) :
    ∃ edge ∈ graph.edges, edge.source.node = parent ∧ edge.target = child ∧
      edge.inputSlot.toNat = slot := by
  unfold slotReading at found
  split at found
  case h_1 consumer number present =>
    have member := List.mem_of_find?_eq_some present
    have reader := List.find?_some present
    obtain ⟨edge, listed, source, target, slotEq⟩ := mem_consumers.mp member
    cases Except.ok.inj found
    exact ⟨edge, listed, source, target.trans (by simpa using reader), congrArg UInt8.toNat slotEq⟩
  case h_2 => cases found

/-- Of the slots on which a node reads another, the first is found. -/
theorem slotReading_le {parent child : NodeId} {slot number : Nat} {output : Output}
    (exact : graph.HasExactSlots child) (read : (graph.inputs child)[slot]? = some output)
    (isParent : output.node = parent) (found : graph.slotReading parent child = .ok number) :
    number ≤ slot := by
  obtain ⟨edge, member, source, target, rfl⟩ := exact.getElem?_inputs.mp read
  have listed : (child, edge.inputSlot) ∈ graph.consumers parent :=
    mem_consumers.mpr ⟨edge, member, by rw [source, isParent], target, rfl⟩
  have sorted := StableSort.pairwise_sortBy
    (fun consumer : NodeId × UInt8 => consumer.1.index * 256 + consumer.2.toNat)
    ((graph.outgoing parent).map fun edge => (edge.target, edge.inputSlot))
  unfold slotReading at found
  split at found
  case h_1 consumer first present =>
    cases Except.ok.inj found
    obtain ⟨isChild, earlier, later, split_eq, none_earlier⟩ :=
      List.find?_eq_some_iff_append.mp present
    obtain rfl : consumer = child := by simpa using isChild
    rw [split_eq] at listed
    rw [show StableSort.sortBy _ _ = _ from split_eq] at sorted
    rcases List.mem_append.mp listed with member | member
    · simpa using none_earlier _ member
    · rcases List.mem_cons.mp member with equal | member
      · rw [(Prod.mk.inj equal).2]
      · have order := (List.pairwise_cons.mp (List.pairwise_append.mp sorted).2.1).1 _ member
        dsimp only at order
        omega
  case h_2 => cases found

/-- The output that an operation reads once a chain has moved past it. -/
def sourcePast (chain : DequantizationChain) (moveSubtract : Bool) : Output :=
  match moveSubtract, chain.subtract with
  | false, some subtract => subtract.output
  | _, _ => chain.data

theorem sourcePast_eq_data (together : moveSubtract = false → chain.subtract = none) :
    sourcePast chain moveSubtract = chain.data := by
  unfold sourcePast
  split
  case h_1 subtract found =>
    rw [together rfl] at found
    cases found
  case h_2 => rfl

theorem chainMove_eq_ok {plan : ChainMove} (found : graph.chainMove id chain moveSubtract = .ok plan) :
    ∃ slot, chain.multiply = some plan.multiply ∧
      chain.multiplyConstant? graph = some plan.scale ∧
      graph.slotReading plan.multiply id = .ok slot ∧ plan.name = graph.name id ∧
      plan.source = sourcePast chain moveSubtract ∧
      plan.inputs = (graph.inputs id).set slot plan.source ∧
      plan.shift = if moveSubtract then chain.subtractConstant? graph else none := by
  unfold chainMove at found
  dsimp only at found
  split at found
  case h_1 multiply scale isMultiply isScale =>
    cases read : graph.slotReading multiply id with
    | error => rw [read] at found; cases found
    | ok slot =>
        rw [read] at found
        cases Except.ok.inj found
        exact ⟨slot, isMultiply, isScale, read, rfl, rfl, rfl, rfl⟩
  case h_2 => cases found

theorem independent_sourcePast {op : NodeId} (independent : graph.ChainIndependent op chain) :
    graph.Independent op (sourcePast chain moveSubtract).node := by
  unfold sourcePast
  split
  case h_1 subtract found => exact independent.subtract subtract found
  case h_2 => exact independent.data

/-- What a moved operation is built on does not depend on it. -/
theorem supports_chainMove (wellFormed : graph.WellFormed) (live : graph.contains id = true)
    (independent : graph.ChainIndependent id chain) {plan : ChainMove}
    (found : graph.chainMove id chain moveSubtract = .ok plan) :
    graph.Supports id (plan.inputs.map Output.node ++ plan.scale :: plan.shift.toList) := by
  obtain ⟨slot, isMultiply, isScale, _, _, source_eq, inputs_eq, shift_eq⟩ :=
    chainMove_eq_ok found
  refine ⟨wellFormed, live, fun node member => ?_⟩
  rcases List.mem_append.mp member with member | member
  · obtain ⟨output, listed, rfl⟩ := List.mem_map.mp member
    rw [inputs_eq] at listed
    rcases List.mem_or_eq_of_mem_set listed with listed | rfl
    · exact independent_of_reads wellFormed (reads_of_mem_inputs listed)
    · exact source_eq ▸ independent_sourcePast independent
  · rcases List.mem_cons.mp member with rfl | member
    · obtain ⟨multiply, isMultiply', isConstant⟩ :=
        DequantizationChain.multiplyConstant?_eq_some isScale
      exact (independent.multiply multiply isMultiply').of_reads
        (reads_of_constantInput? isConstant)
    · rw [Option.mem_toList, shift_eq] at member
      split at member
      case isTrue =>
        obtain ⟨subtract, isSubtract, read, _⟩ :=
          DequantizationChain.subtractConstant?_eq_some member
        exact (independent.subtract subtract isSubtract).of_reads
          (reads_of_inputNode? read)
      case isFalse => cases member

end Plans

/-! ## Relations -/

/-- The output precision of a node has been declared to be that of an output. -/
def AdoptsPrecision (before : Graph α) (id : NodeId) (source : Output) (after : Graph α) : Prop :=
  ∃ precision, before.isRelaxed id = true ∧ before.elementType? source.node = some precision ∧
    before.Declares id (fun node => { node with precision := some precision }) after

/-- A Convert stands after a node unless its type is that of the Multiply of a chain. -/
def ConvertsLike (before : Graph α) (id : NodeId) (chain : DequantizationChain) (plan : ChainMove)
    (converted : NodeId) (after : Graph α) : Prop :=
  ∃ multiplyType, before.elementType? plan.multiply = some multiplyType ∧
    if before.elementType? id = some multiplyType then converted = id ∧ after = before
    else before.Adds
      ((Op.draft (.convert ((chain.convert.bind before.elementType?).getD multiplyType))
        (plan.name ++ "_Convert")).readAll [id]) [id.output] converted after

/-- A Subtract stands after a node when there is something to subtract. -/
def ShiftsBy (before : Graph α) (id : NodeId) (shift : Option NodeId) (name : String)
    (shifted : NodeId) (after : Graph α) : Prop :=
  match shift with
  | some shift => before.Adds ((Op.subtract.draft name).readAll [id, shift])
      [id.output, shift.output] shifted after
  | none => shifted = id ∧ after = before

/-- The graphs on the way while a chain moves past an operation. -/
structure MovesChain (before : Graph α) (id : NodeId) (chain : DequantizationChain)
    (updatePrecision moveSubtract : Bool) (plan : ChainMove) (copy tail : NodeId)
    (after : Graph α) : Prop where
  planned : before.chainMove id chain moveSubtract = .ok plan
  steps : ∃ node copied declared converted withConvert shifted withShift withTail,
    before.node? id = some node ∧
    before.Adds (copyDraft node plan.inputs) plan.inputs copy copied ∧
    (if updatePrecision then copied.AdoptsPrecision copy plan.source declared
      else declared = copied) ∧
    declared.ConvertsLike copy chain plan converted withConvert ∧
    withConvert.ShiftsBy converted plan.shift (plan.name ++ "_Subtract") shifted withShift ∧
    withShift.Adds ((Op.multiply.draft (plan.name ++ "_Multiply")).readAll [shifted, plan.scale])
      [shifted.output, plan.scale.output] tail withTail ∧
    withTail.Replaces id tail after

end Graph

namespace GraphRevision

open QuantGraph.Graph Revision

variable {start graph : Graph α} {id op : NodeId} {nodes : List NodeId}

theorem ensures_adoptPrecision {source : Output} {name : String}
    (supports : graph.Supports op nodes) (evolves : start.Evolves graph)
    (unfixed : graph.Unfixed id) :
    (adoptPrecision id source name).Ensures graph start.Evolves fun _ after =>
      graph.AdoptsPrecision id source after ∧ after.Supports op nodes ∧ start.Evolves after := by
  unfold adoptPrecision
  rw [ensures_bind, ensures_get]
  dsimp only
  split
  case isTrue => exact evolves
  case isFalse relaxed =>
    cases typed : graph.elementType? source.node with
    | none => exact evolves
    | some precision =>
        refine ensures_overridePrecision supports.wellFormed evolves unfixed
          fun after isRelaxed declares evolves => ?_
        exact ⟨⟨precision, isRelaxed, typed, declares⟩, supports.of_declares declares, evolves⟩

theorem ensures_convertLike {chain : DequantizationChain} {plan : ChainMove}
    (supports : graph.Supports op (id :: nodes)) (evolves : start.Evolves graph) :
    (convertLike id chain plan).Ensures graph start.Evolves fun converted after =>
      graph.ConvertsLike id chain plan converted after ∧
        after.Supports op (converted :: nodes) ∧ start.Evolves after := by
  unfold convertLike
  rw [ensures_bind, ensures_get]
  dsimp only
  cases typed : graph.elementType? plan.multiply with
  | none => exact evolves
  | some multiplyType =>
      dsimp only
      split
      case isTrue same =>
        exact ⟨⟨multiplyType, typed, by rw [if_pos same]; exact ⟨rfl, rfl⟩⟩, supports, evolves⟩
      case isFalse different =>
        refine ensures_addOn [id.output] supports evolves ⟨rfl, by simp⟩ rfl
          (by simp [NodeId.output]) fun converted after adds supports evolves => ?_
        refine ⟨⟨multiplyType, typed, by rw [if_neg different]; exact adds⟩, ?_, evolves⟩
        exact supports.mono (by simp +contextual)

theorem ensures_shiftLike {plan : ChainMove}
    (supports : graph.Supports op (id :: plan.scale :: plan.shift.toList))
    (evolves : start.Evolves graph) :
    (shiftLike id plan).Ensures graph start.Evolves fun shifted after =>
      graph.ShiftsBy id plan.shift (plan.name ++ "_Subtract") shifted after ∧
        after.Supports op [shifted, plan.scale] ∧ start.Evolves after := by
  unfold shiftLike
  cases found : plan.shift with
  | none => exact ⟨⟨rfl, rfl⟩, supports.mono (by simp), evolves⟩
  | some shift =>
      refine ensures_addOn [id.output, shift.output] supports evolves
        ⟨rfl, by simp⟩ rfl (by simp [NodeId.output, found])
        fun shifted after adds supports evolves => ?_
      exact ⟨adds, supports.mono (by simp), evolves⟩

variable [Scalar α]

theorem ensures_moveChainAfter {chain : DequantizationChain} {updatePrecision moveSubtract : Bool}
    (wellFormed : graph.WellFormed) (evolves : start.Evolves graph)
    (live : graph.contains id = true) (not_result : graph.kind? id ≠ some .result)
    (independent : graph.ChainIndependent id chain) :
    (moveChainAfter id chain updatePrecision moveSubtract).Ensures graph start.Evolves
      fun result after => start.Evolves after ∧
        ∃ plan moved, graph.MovesChain id chain updatePrecision moveSubtract plan result.1
          result.2 moved ∧
          (after = moved ∨ moveSubtract = false ∧ ∃ subtract replacement,
            chain.subtract = some subtract ∧ chain.convert ≠ none ∧
            moved.SubtractsBeforeConvert subtract replacement after) := by
  unfold moveChainAfter
  rw [ensures_bind, ensures_get, ensures_bind]
  refine ensures_ofExcept evolves fun plan planned => ?_
  have inputs_eq : ∃ slot, plan.inputs = (graph.inputs id).set slot plan.source := by
    obtain ⟨slot, _, _, _, _, _, inputs_eq, _⟩ := chainMove_eq_ok planned
    exact ⟨slot, inputs_eq⟩
  have supports := supports_chainMove wellFormed live independent planned
  have bound : plan.inputs.length ≤ 256 := by
    obtain ⟨slot, inputs_eq⟩ := inputs_eq
    rw [inputs_eq, List.length_set, length_inputs]
    exact (wellFormed.exact id).inputCount_le
  rw [ensures_bind]
  refine ensures_addCopyOn supports evolves bound not_result ?_
    fun node copy copied found unfixed addsCopy supports evolves => ?_
  · intro output member
    exact List.mem_append_left _ (List.mem_map_of_mem member)
  have copy_unfixed : copied.Unfixed copy := by
    intro kind isKind
    obtain ⟨type, _, present⟩ := addsCopy.node_new
    rw [kind?, present, Option.map_some, Option.some.injEq] at isKind
    rw [← isKind]
    change isFixedKind (copyDraft node plan.inputs).op.kind = false
    rw [(copyDraft_eq node plan.inputs).1]
    exact unfixed
  refine ensures_ite_bind
    (fun declared =>
      (if updatePrecision then copied.AdoptsPrecision copy plan.source declared
        else declared = copied) ∧
      declared.Supports id (copy :: (plan.inputs.map Output.node ++
        plan.scale :: plan.shift.toList)) ∧ start.Evolves declared)
    (fun asked => ?_) (fun _ => ?_) fun declared declares => ?_
  · simp only [asked, if_true]
    exact ensures_adoptPrecision supports evolves copy_unfixed
  · simp only [Bool.eq_false_iff.mpr ‹_›, Bool.false_eq_true, if_false]
    exact ⟨trivial, supports, evolves⟩
  obtain ⟨declares, supports, evolves⟩ := declares
  refine ensures_bind.mpr ((ensures_convertLike supports evolves).mono (fun _ bad => bad) ?_)
  rintro converted withConvert ⟨converts, supports, evolves⟩
  refine ensures_bind.mpr ((ensures_shiftLike (supports.mono ?_) evolves).mono
    (fun _ bad => bad) ?_)
  · simp +contextual
  rintro shifted withShift ⟨shifts, supports, evolves⟩
  rw [ensures_bind]
  refine ensures_addOn [shifted.output, plan.scale.output] supports evolves
    ⟨rfl, by simp⟩ rfl (by simp [NodeId.output]) fun tail withTail addsTail supports evolves => ?_
  rw [ensures_bind]
  refine ensures_replaceOn supports evolves fun moved replaces evolves => ?_
  have moves : graph.MovesChain id chain updatePrecision moveSubtract plan copy tail moved :=
    ⟨planned, node, copied, declared, converted, withConvert, shifted, withShift, withTail,
      found, addsCopy, declares, converts, shifts, addsTail, replaces⟩
  split
  case h_1 convert subtract isConvert isSubtract =>
    refine ensures_bind.mpr ((ensures_subtractBeforeConvert replaces.wellFormed evolves).mono
      (fun _ bad => bad) ?_)
    rintro outcome after ⟨evolves, outcome_eq⟩
    refine ⟨evolves, plan, moved, moves, ?_⟩
    cases outcome with
    | none => exact Or.inl outcome_eq
    | some replacement =>
        exact Or.inr ⟨rfl, subtract, replacement, isSubtract, by simp [isConvert], outcome_eq⟩
  case h_2 => exact ⟨evolves, plan, moved, moves, Or.inl rfl⟩

end GraphRevision

end QuantGraph
