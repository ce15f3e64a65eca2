import QuantGraph.Proofs.Dequantization.Simplify
import QuantGraph.Proofs.Graph.Construction
import QuantGraph.Proofs.Graph.Ends
import QuantGraph.Proofs.Graph.Usage
import QuantGraph.Proofs.Revision.Success
import QuantGraph.Scalar.Exact

/-! When two Multiplies are merged, in any graph whose bookkeeping is in order. The first has one
reader, and so has either constant. How many readers the second has is not asked. -/

namespace QuantGraph

namespace Graph

/-! ## The pattern -/

/-- A Multiply by a constant has one reader, another Multiply by a constant, and so has either
constant. -/
structure MergesPair (graph : Graph α) (id next : NodeId) (first second : ConstantOperand α) :
    Prop where
  isMultiply : graph.kind? id = some .multiply
  readOnce : graph.consumerCount id = 1
  operands : graph.constantOperand? id = some first
  constantOnce : graph.consumerCount first.constant = 1
  reads : graph.Reads id next
  nextIsMultiply : graph.kind? next = some .multiply
  nextOperands : graph.constantOperand? next = some second
  nextConstantOnce : graph.consumerCount second.constant = 1

/-- The two Multiplies read nothing beside their operands, their constants read nothing at all, and
the first does not multiply what the second gives. -/
structure IsPlainPair (graph : Graph α) (id next : NodeId) (first second : ConstantOperand α) :
    Prop where
  twoInputs : graph.inputCount id = 2
  nextTwoInputs : graph.inputCount next = 2
  quiet : ∀ source, ¬ graph.Reads source first.constant
  nextQuiet : ∀ source, ¬ graph.Reads source second.constant
  forward : first.data.node ≠ next

variable {graph before middle grown after : Graph α} {id next constant merged other reader : NodeId}
  {first second operand : ConstantOperand α} {product : Tensor α} {found : MultiplyPair α}

theorem eq_of_consumerCount_eq_one (count : graph.consumerCount id = 1)
    (left : graph.Reads id next) (right : graph.Reads id reader) : next = reader := by
  obtain ⟨leftEdge, leftMember, leftSource, rfl⟩ := left
  obtain ⟨rightEdge, rightMember, rightSource, rfl⟩ := right
  obtain ⟨edge, outgoing⟩ := List.length_eq_one_iff.mp count
  have same {other : Edge} (member : other ∈ graph.edges) (source : other.source.node = id) :
      other = edge := by
    have listed := mem_outgoing.mpr ⟨member, source⟩
    rw [outgoing] at listed
    exact List.mem_singleton.mp listed
  rw [same leftMember leftSource, same rightMember rightSource]

/-- An operation on a constant that has two inputs reads the constant and the other operand. -/
theorem reads_eq_or_eq_of_constantOperand? (found : graph.constantOperand? id = some operand)
    (count : graph.inputCount id = 2) (reads : graph.Reads other id) :
    other = operand.data.node ∨ other = operand.constant := by
  obtain ⟨_, low, readData, ⟨slot, readConstant⟩, _⟩ := constantOperand?_eq_some found
  obtain ⟨data, foundData, isData⟩ := Option.map_eq_some_iff.mp readData
  obtain ⟨constant, foundConstant, isConstant⟩ := Option.map_eq_some_iff.mp readConstant
  have different : data ≠ constant := by
    rintro rfl
    have left := List.find?_some foundData
    have right := List.find?_some foundConstant
    rw [beq_iff_eq] at left right
    omega
  obtain ⟨edge, member, rfl, target⟩ := reads
  have listed := mem_incoming.mpr ⟨member, target⟩
  have dataListed := List.mem_of_find?_eq_some foundData
  have constantListed := List.mem_of_find?_eq_some foundConstant
  obtain ⟨left, right, pair⟩ := List.length_eq_two.mp count
  rw [pair, List.mem_pair] at listed dataListed constantListed
  have either : edge = data ∨ edge = constant := by grind
  rcases either with rfl | rfl
  · exact Or.inl (congrArg Output.node isData)
  · exact Or.inr (congrArg Output.node isConstant)

namespace MergesPair

theorem of_multiplyPair? (present : graph.multiplyPair? id = some found) :
    ∃ first second, graph.MergesPair id found.next first second ∧ found.data = first.data ∧
      found.left = first.tensor ∧ found.right = second.tensor := by
  obtain ⟨first, second, isMultiply, readOnce, operands, constantOnce, reads, nextIsMultiply,
    nextOperands, nextConstantOnce, _, data_eq, left_eq, right_eq, _⟩ :=
      multiplyPair?_eq_some present
  exact ⟨first, second, ⟨isMultiply, readOnce, operands, constantOnce, reads, nextIsMultiply,
    nextOperands, nextConstantOnce⟩, data_eq, left_eq, right_eq⟩

theorem exists_multiplyPair? (pair : graph.MergesPair id next first second) :
    ∃ found, graph.multiplyPair? id = some found := by
  have head : (graph.consumerNodes id).head? = some next := by
    cases listed : graph.consumerNodes id with
    | nil =>
        have member := mem_consumerNodes.mpr pair.reads
        rw [listed] at member
        cases member
    | cons reader rest =>
        have reads : graph.Reads id reader :=
          mem_consumerNodes.mp (listed ▸ List.mem_cons_self)
        rw [List.head?_cons, eq_of_consumerCount_eq_one pair.readOnce pair.reads reads]
  simp [multiplyPair?, isKind_iff.mpr pair.isMultiply, pair.readOnce, pair.operands,
    pair.constantOnce, head, isKind_iff.mpr pair.nextIsMultiply, pair.nextOperands,
    pair.nextConstantOnce]

theorem multiplyPair?_eq_none_iff :
    graph.multiplyPair? id = none ↔
      ¬ ∃ next first second, graph.MergesPair id next first second := by
  constructor
  · rintro absent ⟨next, first, second, pair⟩
    obtain ⟨found, present⟩ := pair.exists_multiplyPair?
    exact nomatch absent.symm.trans present
  · intro none
    refine Option.eq_none_iff_forall_ne_some.mpr fun found present => none ?_
    obtain ⟨first, second, pair, _⟩ := of_multiplyPair? present
    exact ⟨found.next, first, second, pair⟩

theorem kind?_constants (pair : graph.MergesPair id next first second) :
    graph.kind? first.constant = some .constant ∧ graph.kind? second.constant = some .constant := by
  have isConstant {place : NodeId} {operand : ConstantOperand α}
      (found : graph.constantOperand? place = some operand) :
      graph.kind? operand.constant = some .constant := by
    obtain ⟨_, _, _, _, isTensor, _⟩ := constantOperand?_eq_some found
    exact kind?_of_op? (constant?_eq_some_iff.mp isTensor)
  exact ⟨isConstant pair.operands, isConstant pair.nextOperands⟩

theorem ne_constants (pair : graph.MergesPair id next first second)
    (isMultiply : graph.kind? other = some .multiply) :
    other ≠ first.constant ∧ other ≠ second.constant := by
  obtain ⟨isFirst, isSecond⟩ := pair.kind?_constants
  constructor
  · rintro rfl
    exact nomatch isMultiply.symm.trans isFirst
  · rintro rfl
    exact nomatch isMultiply.symm.trans isSecond

/-- The two Multiplies and their constants are there. -/
theorem live_of_mem (pair : graph.MergesPair id next first second)
    (member : other ∈ [id, next, first.constant, second.constant]) :
    graph.contains other = true := by
  obtain ⟨isFirst, isSecond⟩ := pair.kind?_constants
  simp only [List.mem_cons, List.not_mem_nil, or_false] at member
  rcases member with rfl | rfl | rfl | rfl
  · exact contains_of_kind? pair.isMultiply
  · exact contains_of_kind? pair.nextIsMultiply
  · exact contains_of_kind? isFirst
  · exact contains_of_kind? isSecond

end MergesPair

/-! ## The change -/

/-- A Multiply by a new constant is added and takes the readers of the second Multiply, and what
nothing reads any more is gone. -/
structure MergesInto (before : Graph α) (id next : NodeId) (first second : ConstantOperand α)
    (product : Tensor α) (draft : Draft α) (constant merged : NodeId)
    (middle grown after : Graph α) : Prop where
  pair : before.MergesPair id next first second
  consistent : before.IsConsistent
  gainsConstant : before.Gains ((Op.constant product).draft "") [] constant middle
  multiplies : draft.op = .multiply
  gains : middle.Gains draft [first.data, constant.output] merged grown
  pruned : after = ((grown.redirect next merged).prune next).2

namespace MergesInto

variable {draft : Draft α}
  (merges : before.MergesInto id next first second product draft constant merged middle grown after)

include merges

theorem grows : before.Grows grown := merges.gainsConstant.grows.trans merges.gains.grows

theorem ne_merged (live : before.contains other = true) : other ≠ merged :=
  merges.gains.ne_of_live (merges.gainsConstant.grows.live live)

theorem consistent_redirect : (grown.redirect next merged).IsConsistent :=
  isConsistent_redirect merges.gains.consistent merges.gains.live

theorem sheds : (grown.redirect next merged).Sheds next after :=
  merges.pruned ▸ sheds_prune merges.consistent_redirect next

theorem live_iff : grown.contains other = true ↔
    other = merged ∨ other = constant ∨ before.contains other = true := by
  rw [merges.gains.contains_iff, merges.gainsConstant.contains_iff]

theorem reads_data : (grown.redirect next merged).Reads first.data.node merged := by
  have unmoved : (grown.redirect next merged).inputs merged = [first.data, constant.output] := by
    rw [inputs_redirect merges.gains.exact_new, if_pos rfl, merges.gains.inputs_new]
  exact reads_of_mem_inputs (unmoved ▸ List.mem_cons_self)

/-- What other nodes than the new Multiply read was read before. -/
theorem reads_old (reads : grown.Reads other reader) (different : reader ≠ merged) :
    before.Reads other reader := by
  have reads := merges.gains.reads_old reads different
  refine merges.gainsConstant.reads_old reads fun isConstant => ?_
  obtain ⟨_, member, _⟩ := reads_iff_mem_inputs.mp reads
  rw [isConstant, merges.gainsConstant.inputs_new] at member
  cases member

theorem eq_of_reads_merged (reads : grown.Reads other merged) :
    other = first.data.node ∨ other = constant := by
  obtain ⟨output, member, rfl⟩ := reads_iff_mem_inputs.mp reads
  rw [merges.gains.inputs_new] at member
  rcases List.mem_pair.mp member with rfl | rfl
  · exact Or.inl rfl
  · exact Or.inr rfl

/-- The new Multiply reads what the first one multiplies, and a new constant. Everything else reads
what it read, or the new Multiply for the second one. -/
theorem reads_cases (reads : (grown.redirect next merged).Reads other reader) :
    reader = merged ∧ (other = first.data.node ∨ other = constant) ∨
      reader ≠ merged ∧
        (before.Reads other reader ∨ other = merged ∧ before.Reads next reader) := by
  rcases reads_redirect reads with reads | ⟨isMerged, different, reads⟩
  · by_cases isNew : reader = merged
    · exact Or.inl ⟨isNew, merges.eq_of_reads_merged (isNew ▸ reads)⟩
    · exact Or.inr ⟨isNew, Or.inl (merges.reads_old reads isNew)⟩
  · exact Or.inr ⟨different, Or.inr ⟨isMerged, merges.reads_old reads different⟩⟩

theorem removable (isMultiply : before.kind? other = some .multiply) :
    (grown.redirect next merged).Removable other :=
  ⟨.multiply, (kind?_congr (merges.grows.node_eq other (contains_of_kind? isMultiply))).trans
    isMultiply, rfl⟩

variable (plain : before.IsPlainPair id next first second)

include plain

/-! ### What goes -/

/-- The first Multiply does not multiply what it gives itself. -/
theorem ne_next : id ≠ next := by
  rintro rfl
  rcases reads_eq_or_eq_of_constantOperand? merges.pair.operands plain.twoInputs
    merges.pair.reads with isData | isConstant
  · exact plain.forward isData.symm
  · exact plain.quiet id (isConstant ▸ merges.pair.reads)

/-- Nothing reads the second Multiply any more. -/
theorem not_reads_next : ¬ (grown.redirect next merged).Reads next reader := by
  have old := contains_of_kind? merges.pair.nextIsMultiply
  rintro ⟨edge, member, source, rfl⟩
  rcases mem_edges_redirect.mp member with ⟨origin, _, _, rfl⟩ | ⟨earlier, stays⟩
  · exact merges.ne_merged old source.symm
  · have into : edge.target = merged := by
      by_contra different
      exact stays ⟨source, different⟩
    rcases merges.eq_of_reads_merged ⟨edge, earlier, source, into⟩ with isData | isConstant
    · exact plain.forward isData.symm
    · exact merges.gainsConstant.ne_of_live old isConstant

theorem next_gone : after.contains next = false := by
  obtain ⟨kind, found, unfixed⟩ := merges.removable merges.pair.nextIsMultiply
  rw [merges.pruned]
  exact contains_prune_of_isDead
    (isDead_of_not_reads found unfixed fun _ => merges.not_reads_next plain)

/-- Only the second Multiply reads the first one. -/
theorem eq_next_of_reads (reads : (grown.redirect next merged).Reads id reader) :
    reader = next := by
  have old := contains_of_kind? merges.pair.isMultiply
  rcases merges.reads_cases reads with ⟨_, isData | isConstant⟩ | ⟨_, earlier | ⟨isMerged, _⟩⟩
  · -- A first Multiply that multiplies itself has itself as its only reader.
    have itself : before.Reads id id := by
      have reads := reads_data_of_constantOperand? merges.pair.operands
      rwa [← isData] at reads
    exact absurd (eq_of_consumerCount_eq_one merges.pair.readOnce itself merges.pair.reads)
      (merges.ne_next plain)
  · exact absurd isConstant (merges.gainsConstant.ne_of_live old)
  · exact eq_of_consumerCount_eq_one merges.pair.readOnce earlier merges.pair.reads
  · exact absurd isMerged (merges.ne_merged old)

theorem reads_next : (grown.redirect next merged).Reads id next := by
  have nextLive := contains_of_kind? merges.pair.nextIsMultiply
  obtain ⟨edge, member, source, target⟩ := (merges.grows.reads_iff nextLive).mpr merges.pair.reads
  refine ⟨edge, mem_edges_redirect.mpr (Or.inr ⟨member, fun moves => ?_⟩), source, target⟩
  exact merges.ne_next plain (source.symm.trans moves.1)

theorem id_gone : after.contains id = false := by
  have nextGone := merges.next_gone plain
  rw [merges.pruned] at nextGone ⊢
  refine contains_prune_of_readers_gone merges.consistent_redirect
    (merges.removable merges.pair.isMultiply) (merges.reads_next plain) fun reader reads => ?_
  rw [merges.eq_next_of_reads plain reads]
  exact nextGone

/-! ### What stays -/

/-- What the two Multiplies and their constants read is among them, apart from what the first
Multiply multiplies. -/
theorem eq_data_or_mem_of_reads (reads : before.Reads other reader)
    (listed : reader ∈ [id, next, first.constant, second.constant]) :
    other = first.data.node ∨ other ∈ [id, first.constant, second.constant] := by
  simp only [List.mem_cons, List.not_mem_nil, or_false] at listed ⊢
  rcases listed with rfl | rfl | rfl | rfl
  · exact (reads_eq_or_eq_of_constantOperand? merges.pair.operands plain.twoInputs reads).imp_right
      fun isConstant => Or.inr (Or.inl isConstant)
  · have operand {source : NodeId} (reads : before.Reads source reader) :=
      reads_eq_or_eq_of_constantOperand? merges.pair.nextOperands plain.nextTwoInputs reads
    have isData : id = second.data.node := (operand merges.pair.reads).resolve_right
      (merges.pair.ne_constants merges.pair.isMultiply).2
    rcases operand reads with isOther | isConstant
    · exact Or.inr (Or.inl (isOther.trans isData.symm))
    · exact Or.inr (Or.inr (Or.inr isConstant))
  · exact absurd reads (plain.quiet other)
  · exact absurd reads (plain.nextQuiet other)

theorem not_reads_of_next (listed : reader ∈ [id, next, first.constant, second.constant]) :
    ¬ before.Reads next reader := by
  intro reads
  rcases merges.eq_data_or_mem_of_reads plain reads listed with isData | member
  · exact plain.forward isData.symm
  · have apart := merges.pair.ne_constants merges.pair.nextIsMultiply
    simp [(merges.ne_next plain).symm, apart] at member

/-- All nodes but the two Multiplies and their constants stay. -/
theorem keeps (live : grown.contains other = true)
    (outside : other ∉ [id, next, first.constant, second.constant]) :
    after.contains other = true := by
  have fresh : before.contains merged = false :=
    Bool.eq_false_iff.mpr fun live => merges.ne_merged live rfl
  have sustains := merges.grows.sustains merges.consistent_redirect fresh merges.gains.live
    (by simp : next ∈ [id, next, first.constant, second.constant])
    (fun _ => merges.pair.live_of_mem) (fun _ => merges.not_reads_of_next plain)
    fun reader listed source reads outside => by
      rcases merges.eq_data_or_mem_of_reads plain reads listed with rfl | member
      · exact merges.reads_data
      · exact absurd member (by simp at outside ⊢; simp [outside])
  rw [merges.pruned]
  exact sustains.contains_prune merges.consistent_redirect ⟨live, outside⟩

/-- The Multiplies are those there were, with the new one in the place of the two. -/
theorem kind?_eq_multiply_iff : after.kind? other = some .multiply ↔
    other = merged ∨ before.kind? other = some .multiply ∧ other ≠ id ∧ other ≠ next := by
  have isMultiply : grown.kind? merged = some .multiply := by
    rw [kind?_of_op? merges.gains.op?_new, merges.multiplies]
    rfl
  have same (live : before.contains other = true) : grown.kind? other = before.kind? other :=
    kind?_congr (merges.grows.node_eq other live)
  constructor
  · intro found
    have live := contains_of_kind? found
    have kept : grown.kind? other = some .multiply :=
      (kind?_congr (merges.sheds.node_eq other live)).symm.trans found
    rcases merges.live_iff.mp (contains_of_kind? kept) with isNew | rfl | old
    · exact Or.inl isNew
    · have isConstant : grown.kind? other = some .constant := by
        rw [kind?_of_op? ((op?_congr (merges.gains.node_old other
          (merges.gains.ne_of_live merges.gainsConstant.live))).trans merges.gainsConstant.op?_new)]
        rfl
      exact nomatch kept.symm.trans isConstant
    · exact Or.inr ⟨(same old).symm.trans kept, ne_of_contains live (merges.id_gone plain),
        ne_of_contains live (merges.next_gone plain)⟩
  · intro listed
    have keeps (grownMultiply : grown.kind? other = some .multiply)
        (outside : other ∉ [id, next, first.constant, second.constant]) :
        after.kind? other = some .multiply := by
      have live := merges.keeps plain (contains_of_kind? grownMultiply) outside
      exact (kind?_congr (merges.sheds.node_eq other live)).trans grownMultiply
    rcases listed with rfl | ⟨kind, ne_id, ne_next⟩
    · exact keeps isMultiply fun member => merges.ne_merged (merges.pair.live_of_mem member) rfl
    · refine keeps ((same (contains_of_kind? kind)).trans kind) ?_
      simp [ne_id, ne_next, merges.pair.ne_constants kind]

/-- There is one Multiply less. -/
theorem length_nodesOfKind_multiply :
    (after.nodesOfKind .multiply).length + 1 = (before.nodesOfKind .multiply).length := by
  let rest := (before.nodesOfKind .multiply).filter fun other => other ≠ id ∧ other ≠ next
  have nodup_rest : rest.Nodup := (nodup_nodesOfKind before .multiply).filter _
  have mem_rest {other : NodeId} : other ∈ rest ↔
      before.kind? other = some .multiply ∧ other ≠ id ∧ other ≠ next := by
    simp [rest, mem_nodesOfKind, isKind_iff]
  have new : merged ∉ rest := fun member =>
    merges.ne_merged (contains_of_kind? (mem_rest.mp member).1) rfl
  have now : (after.nodesOfKind .multiply).Perm (merged :: rest) := by
    refine (List.perm_ext_iff_of_nodup (nodup_nodesOfKind after .multiply)
      (List.nodup_cons.mpr ⟨new, nodup_rest⟩)).mpr fun other => ?_
    rw [mem_nodesOfKind, isKind_iff, merges.kind?_eq_multiply_iff plain, List.mem_cons, mem_rest]
  have earlier : (before.nodesOfKind .multiply).Perm (id :: next :: rest) := by
    have distinct : (id :: next :: rest).Nodup := by
      simp [mem_rest, merges.ne_next plain, nodup_rest]
    refine (List.perm_ext_iff_of_nodup (nodup_nodesOfKind before .multiply) distinct).mpr
      fun other => ?_
    rw [mem_nodesOfKind, isKind_iff, List.mem_cons, List.mem_cons, mem_rest]
    constructor
    · intro kind
      by_cases isFirst : other = id
      · exact Or.inl isFirst
      · by_cases isNext : other = next
        · exact Or.inr (Or.inl isNext)
        · exact Or.inr (Or.inr ⟨kind, isFirst, isNext⟩)
    · rintro (rfl | rfl | ⟨kind, _⟩)
      · exact merges.pair.isMultiply
      · exact merges.pair.nextIsMultiply
      · exact kind
  rw [now.length_eq, earlier.length_eq]
  rfl

end MergesInto

end Graph

/-! ## Runs -/

namespace GraphRevision

open QuantGraph.Graph Revision

section Runs

variable [Scalar α] {graph after : Graph α} {id next merged : NodeId}
  {first second : ConstantOperand α} {product : Tensor α} {shape common : Shape}

/-- The draft of the merged Multiply. -/
private def mergedDraft (found : MultiplyPair α) (constant : NodeId) : Draft α :=
  ((Op.multiply.draft found.name).input found.data 0).input constant.output 1
    |>.withPrecision? found.precision

omit [Scalar α] in
private theorem mergedDraft_eq (found : MultiplyPair α) (constant : NodeId) :
    (mergedDraft found constant).op = .multiply ∧ (mergedDraft found constant).declared = none ∧
      (mergedDraft found constant).ReadsInOrder [found.data, constant.output] := by
  unfold mergedDraft
  cases found.precision <;> exact ⟨rfl, rfl, rfl, by simp⟩

/-- Without the pattern nothing changes. With it, the two Multiplies are merged. -/
theorem ensures_mergeMultiplies_pair (consistent : graph.IsConsistent) :
    (mergeMultiplies id).Ensures graph
      (fun _ => ∃ next first second, graph.MergesPair id next first second) fun outcome after =>
        match outcome with
        | none => graph.multiplyPair? id = none ∧ after = graph
        | some merged => ∃ next first second product draft constant middle grown,
            graph.MergesInto id next first second product draft constant merged middle grown
              after := by
  unfold mergeMultiplies
  rw [ensures_bind, ensures_get]
  split
  case h_1 absent => exact ⟨absent, rfl⟩
  case h_2 found present =>
    obtain ⟨first, second, pair, data_eq, _, _⟩ := MergesPair.of_multiplyPair? present
    rw [ensures_bind]
    refine ensures_folded ⟨_, _, _, pair⟩ fun product _ => ?_
    apply ensures_gainWithConstant consistent found.data
      (fun constant => (mergedDraft_eq found constant).2.2) fun _ => ⟨_, _, _, pair⟩
    intro constant middle merged grown gainsConstant gains
    have different : found.next ≠ merged := gains.ne_of_live
      (gainsConstant.grows.live (contains_of_kind? pair.nextIsMultiply))
    apply ensures_bind.mpr
    apply ensures_change.mpr
    split
    case h_1 after replaced =>
      exact ⟨found.next, first, second, product, _, constant, middle, grown, pair, consistent,
        gainsConstant, (mergedDraft_eq found constant).1, data_eq ▸ gains,
        ((replace_eq_ok different).mp replaced).2.2⟩
    case h_2 => exact ⟨_, _, _, pair⟩

omit [Scalar α] in
/-- A Multiply by the new constant can be added where the constant broadcasts with the data. -/
private theorem exists_add_mergedDraft {found : MultiplyPair α} {constant : NodeId}
    {middle : Graph α}
    (gainsConstant : graph.Gains ((Op.constant product).draft "") [] constant middle)
    (isShape : graph.shape? found.data.node = some shape)
    (broadcasts : shape.broadcast product.shape = some common) :
    ∃ merged grown, middle.add (mergedDraft found constant) = .ok (merged, grown) := by
  obtain ⟨op_eq, undeclared, reads⟩ := mergedDraft_eq found constant
  obtain ⟨node, isNode, rfl⟩ := Option.map_eq_some_iff.mp isShape
  obtain ⟨type, drafted, isConstant⟩ := gainsConstant.node_new
  cases drafted
  have old : middle.node? found.data.node = some node :=
    (gainsConstant.grows.node_eq _ (contains_of_node? isNode)).trans isNode
  have types : middle.typesOf [found.data, constant.output] =
      [node.valueType, ⟨product.elementType, product.shape⟩] := by
    simp only [typesOf, NodeId.output, List.filterMap_cons, List.filterMap_nil, old, isConstant]
    rfl
  have broadcasts : node.valueType.shape.broadcast
      (⟨product.elementType, product.shape⟩ : ValueType).shape = some common := broadcasts
  obtain ⟨type, inferred, _⟩ := Op.exists_infer_elementwise .multiply broadcasts
  have accepted : (mergedDraft found constant).op.infer
      (middle.typesOf [found.data, constant.output]) = .ok type := by
    rw [op_eq, types]
    exact inferred
  refine exists_add reads (fun output member => ?_) (draftedType_eq_ok reads undeclared accepted)
  rcases List.mem_pair.mp member with rfl | rfl
  · exact contains_of_node? old
  · exact gainsConstant.live

/-- Where the two constants broadcast, and their product with what is multiplied, the pair is
merged. -/
theorem ensures_mergeMultiplies_some (consistent : graph.IsConsistent)
    (pair : graph.MergesPair id next first second)
    (folds : first.tensor.multiply second.tensor = .ok product)
    (isShape : graph.shape? first.data.node = some shape)
    (broadcasts : shape.broadcast product.shape = some common) :
    (mergeMultiplies id).Ensures graph (fun _ => False) fun outcome _ => outcome ≠ none := by
  obtain ⟨found, present⟩ := pair.exists_multiplyPair?
  obtain ⟨first', second', pair', data_eq, left_eq, right_eq⟩ := MergesPair.of_multiplyPair? present
  cases eq_of_consumerCount_eq_one pair.readOnce pair.reads pair'.reads
  cases pair.operands.symm.trans pair'.operands
  cases pair.nextOperands.symm.trans pair'.nextOperands
  have reads : ((Op.constant product).draft "").ReadsInOrder [] := ⟨rfl, by simp⟩
  obtain ⟨constant, middle, addedConstant⟩ :
      ∃ constant middle, graph.add _ = .ok (constant, middle) :=
    exists_add reads (by simp) (draftedType_eq_ok reads rfl rfl)
  have gainsConstant := gains_of_add consistent reads addedConstant
  obtain ⟨merged, grown, addedMerged⟩ :
      ∃ merged grown, middle.add (mergedDraft found constant) = .ok (merged, grown) :=
    exists_add_mergedDraft gainsConstant (data_eq ▸ isShape) broadcasts
  have gains :=
    gains_of_add gainsConstant.consistent (mergedDraft_eq found constant).2.2 addedMerged
  have nextLive : middle.contains found.next = true :=
    gainsConstant.grows.live (contains_of_kind? pair.nextIsMultiply)
  have replaced := (replace_eq_ok (gains.ne_of_live nextLive)).mpr
    ⟨gains.grows.live nextLive, gains.live, rfl⟩
  unfold mergeMultiplies
  rw [ensures_bind, ensures_get, present]
  dsimp only
  rw [left_eq, right_eq, folds]
  refine ensures_bind.mpr (ensures_pure.mpr (ensures_bind.mpr (ensures_of_add addedConstant ?_)))
  refine ensures_bind.mpr (ensures_of_add addedMerged (ensures_bind.mpr (ensures_change.mpr ?_)))
  rw [replaced]
  exact Option.some_ne_none merged

/-- Two Multiplies are merged just where the pattern is: the first one and the two constants have
one reader each, and the readers of the second one are not counted. Otherwise the graph is as it
was, and a merge is given up only where the constants do not broadcast. A merge of a plain pair
leaves one Multiply less. -/
theorem runOn_mergeMultiplies_exactly (consistent : graph.IsConsistent) :
    match (mergeMultiplies id).runOn graph with
    | (.ok none, after) =>
        (¬ ∃ next first second, graph.MergesPair id next first second) ∧ after = graph
    | (.ok (some _), after) =>
        ∃ next first second, graph.MergesPair id next first second ∧
          (graph.IsPlainPair id next first second →
            (after.nodesOfKind .multiply).length + 1 = (graph.nodesOfKind .multiply).length)
    | (.error _, _) =>
        ∃ next first second, graph.MergesPair id next first second ∧
          ∀ product shape, first.tensor.multiply second.tensor = .ok product →
            graph.shape? first.data.node = some shape → shape.broadcast product.shape = none := by
  have ensures : (mergeMultiplies id).Ensures graph _ _ := ensures_mergeMultiplies_pair consistent
  split
  case h_1 after ran =>
    obtain ⟨absent, same⟩ := ensures.of_runOn ran
    exact ⟨MergesPair.multiplyPair?_eq_none_iff.mp absent, same⟩
  case h_2 merged after ran =>
    obtain ⟨next, first, second, _, _, _, _, _, merges⟩ := ensures.of_runOn ran
    exact ⟨next, first, second, merges.pair, merges.length_nodesOfKind_multiply⟩
  case h_3 error after ran =>
    obtain ⟨next, first, second, pair⟩ := ensures.of_runOn_error ran
    refine ⟨next, first, second, pair, fun product shape folds isShape => ?_⟩
    refine Option.eq_none_iff_forall_ne_some.mpr fun common broadcasts => ?_
    exact (ensures_mergeMultiplies_some consistent pair folds isShape broadcasts).of_runOn_error ran

end Runs

/-- A number is scaled twice, and what comes out has some readers. -/
def scaledTwice (readers : Nat) : List (Draft Rat) :=
  [{ op := .parameter, name := "x", declared := some { elementType := .f32, shape := [1] } },
    (Op.constant (.scalar .f32 2)).draft "two",
    (Op.multiply.draft "doubled").readAll [NodeId.mk 0, NodeId.mk 1],
    (Op.constant (.scalar .f32 3)).draft "three",
    (Op.multiply.draft "sixfold").readAll [NodeId.mk 2, NodeId.mk 3]] ++
    List.replicate readers ((Op.result.draft "output").readAll [NodeId.mk 4])

set_option synthInstance.maxSize 512 in
theorem runOn_mergeMultiplies_exactly_scaledTwice :
    ∃ graph after : Graph Rat, Graph.empty.addAll (scaledTwice 1) = .ok graph ∧
      graph.IsConsistent ∧
      (mergeMultiplies (NodeId.mk 2)).runOn graph = (.ok (some (NodeId.mk 7)), after) ∧
      (after.nodesOfKind .multiply).length + 1 = (graph.nodesOfKind .multiply).length := by
  have made : (Graph.empty.addAll (scaledTwice 1)).map (fun graph =>
      (((mergeMultiplies (NodeId.mk 2)).runOn graph).1, graph.consumerNodes (NodeId.mk 2),
        (graph.constantOperand? (NodeId.mk 2)).map fun found => (found.data.node, found.constant),
        (graph.constantOperand? (NodeId.mk 4)).map ConstantOperand.constant,
        [NodeId.mk 1, NodeId.mk 2, NodeId.mk 3, NodeId.mk 4].map graph.inputCount)) =
      .ok (.ok (some (NodeId.mk 7)), [NodeId.mk 4], some (NodeId.mk 0, NodeId.mk 1),
        some (NodeId.mk 3), [0, 2, 0, 2]) := by decide +kernel
  obtain ⟨graph, added, facts⟩ := Outcome.map_eq_ok.mp made
  simp only [Prod.mk.injEq] at facts
  obtain ⟨merged, readers, operands, nextOperands, counts⟩ := facts
  simp only [List.map_cons, List.map_nil, List.cons.injEq, and_true] at counts
  obtain ⟨quiet, twoInputs, nextQuiet, nextTwoInputs⟩ := counts
  have consistent := (Graph.wellFormed_empty.consistent.addAll added).1
  have ran : (mergeMultiplies (NodeId.mk 2)).runOn graph = (.ok (some (NodeId.mk 7)), _) :=
    Prod.ext merged rfl
  have exactly := @runOn_mergeMultiplies_exactly Rat _ graph (NodeId.mk 2) consistent
  rw [ran] at exactly
  obtain ⟨next, first, second, pair, drops⟩ := exactly
  have isNext : next = NodeId.mk 4 := by
    have member := mem_consumerNodes.mpr pair.reads
    rw [readers] at member
    exact List.mem_singleton.mp member
  subst isNext
  rw [pair.operands, Option.map_some, Option.some.injEq, Prod.mk.injEq] at operands
  rw [pair.nextOperands, Option.map_some, Option.some.injEq] at nextOperands
  have unread {id source : NodeId} (none : graph.inputCount id = 0) : ¬ graph.Reads source id := by
    intro reads
    obtain ⟨output, member, _⟩ := reads_iff_mem_inputs.mp reads
    rw [← length_inputs, List.length_eq_zero_iff] at none
    rw [none] at member
    cases member
  refine ⟨graph, _, added, consistent, ran, drops
    { twoInputs := twoInputs
      nextTwoInputs := nextTwoInputs
      quiet := fun source => unread (operands.2 ▸ quiet)
      nextQuiet := fun source => unread (nextOperands ▸ nextQuiet)
      forward := ?_ }⟩
  rw [operands.1]
  decide

/-- The second Multiply has two readers, and the two are merged all the same. -/
theorem exists_mergeMultiplies_shared :
    ∃ graph after : Graph Rat, Graph.empty.addAll (scaledTwice 2) = .ok graph ∧
      graph.IsConsistent ∧ graph.consumerNodes (NodeId.mk 2) = [NodeId.mk 4] ∧
      graph.consumerCount (NodeId.mk 4) = 2 ∧
      (mergeMultiplies (NodeId.mk 2)).runOn graph = (.ok (some (NodeId.mk 8)), after) := by
  have made : (Graph.empty.addAll (scaledTwice 2)).map (fun graph =>
      (graph.consumerNodes (NodeId.mk 2), graph.consumerCount (NodeId.mk 4),
        ((mergeMultiplies (NodeId.mk 2)).runOn graph).1)) =
      .ok ([NodeId.mk 4], 2, .ok (some (NodeId.mk 8))) := by decide +kernel
  obtain ⟨graph, added, facts⟩ := Outcome.map_eq_ok.mp made
  simp only [Prod.mk.injEq] at facts
  obtain ⟨readers, counted, merged⟩ := facts
  exact ⟨graph, _, added, (Graph.wellFormed_empty.consistent.addAll added).1, readers, counted,
    Prod.ext merged rfl⟩

end GraphRevision

end QuantGraph
