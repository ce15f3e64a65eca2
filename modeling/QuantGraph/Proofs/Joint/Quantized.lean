import QuantGraph.Proofs.Joint.Insertion
import QuantGraph.Proofs.Joint.Requantization
import QuantGraph.Proofs.Joint.Rule

/-! Subgraphs that have been quantized, from the fake quantizations through the chains to
the declared precisions. -/

namespace QuantGraph

namespace Graph

variable [Scalar α]

/-- A subgraph has been quantized. Its fake quantizations have been narrowed, dequantization
has been put behind its layers, and nothing else has changed but declared types. -/
structure QuantizesTogether (before : Graph α) (subgraph : Subgraph) (withConvert : Bool)
    (narrowings : List (Narrowing α)) (moved : NodeId → NodeId) (cache : DequantizationCache α)
    (chains : NodeId → Option DequantizationChain) (narrowed dequantized after : Graph α) :
    Prop where
  ids_eq : narrowings.map Narrowing.id = subgraph.quantizers
  limits : ∀ id ∈ subgraph.quantizers, before.HasConstantLimits id
  requantizes : before.Requantizes narrowings moved narrowed
  cached : ∀ narrowing ∈ narrowings, cache.get? (moved narrowing.id) = some narrowing.values
  uncached : ∀ id, before.Works id → id ∉ subgraph.quantizers → cache.get? id = none
  dequantizes : narrowed.Dequantizes (subgraph.relocate moved) cache withConvert
    (subgraph.layers.map moved) chains dequantized
  same : ∀ id, dequantized.SameAt after id
  quantizer_eq : ∀ id, dequantized.kind? id = some .fakeQuantize →
    after.node? id = dequantized.node? id

theorem QuantizesTogether.constantsReadNothing {before narrowed dequantized after : Graph α}
    {subgraph : Subgraph} {withConvert : Bool} {narrowings : List (Narrowing α)}
    {moved : NodeId → NodeId} {cache : DequantizationCache α}
    {chains : NodeId → Option DequantizationChain}
    (together : before.QuantizesTogether subgraph withConvert narrowings moved cache chains narrowed
      dequantized after) : after.ConstantsReadNothing := by
  intro id tensor constant
  obtain ⟨same_op, same_inputs⟩ := together.same id
  rw [constant?_eq_some_iff, same_op] at constant
  rw [same_inputs]
  rcases together.dequantizes.cover id (contains_of_op? constant) with earlier |
    ⟨layer, chain, present, member⟩ | ⟨_, _, none_in⟩
  · have node_eq := together.dequantizes.node_eq id earlier
    rw [op?_congr node_eq, ← constant?_eq_some_iff] at constant
    rw [together.dequantizes.inputs_eq id earlier,
      together.requantizes.constants id tensor constant, List.map_nil, ite_self]
  · obtain ⟨_, _, _, _, holds⟩ := together.dequantizes.holds layer chain present
    obtain ⟨kind, arithmetic, found⟩ := holds.kind_stage member
    cases (kind?_of_op? constant).symm.trans found
    simp [Op.kind] at arithmetic
  · exact none_in

end Graph

/-! ## Declared precisions -/

namespace JointState

open QuantGraph.Graph

variable {before after : JointState α} {precision : ElementType} {updatePrecisions : Bool}

theorem FinishesLayer.sameAt {layer : NodeId}
    (finishes : FinishesLayer precision updatePrecisions layer before after) (id : NodeId) :
    before.graph.SameAt after.graph id ∧ (before.graph.kind? id = some .fakeQuantize →
      after.graph.node? id = before.graph.node? id) := by
  obtain ⟨_, outcome⟩ := finishes
  split at outcome
  case isTrue declared =>
    obtain ⟨_, declares⟩ := outcome
    refine ⟨declares.sameAt (GraphRevision.isRedeclared_declaring precision) id, fun kind => ?_⟩
    rw [declares.node_eq, if_neg]
    rintro rfl
    simp [isKind, kind] at declared
  case isFalse =>
    rw [outcome]
    exact ⟨⟨rfl, rfl⟩, fun _ => rfl⟩

theorem sameAt_of_finishes {layers : List NodeId}
    (sequence : Revision.Sequence (FinishesLayer precision updatePrecisions) layers before after)
    (id : NodeId) :
    before.graph.SameAt after.graph id ∧ (before.graph.kind? id = some .fakeQuantize →
      after.graph.node? id = before.graph.node? id) := by
  induction sequence with
  | nil => exact ⟨⟨rfl, rfl⟩, fun _ => rfl⟩
  | cons first _ induction =>
      obtain ⟨same, kept⟩ := first.sameAt id
      refine ⟨same.trans induction.1, fun kind => ?_⟩
      rw [induction.2 (same.kind?_eq.trans kind), kept kind]

theorem subgraph_eq_of_finishes {layers : List NodeId}
    (sequence : Revision.Sequence (FinishesLayer precision updatePrecisions) layers before after) :
    after.subgraph = before.subgraph := by
  induction sequence with
  | nil => rfl
  | cons first _ induction => exact induction.trans first.1

end JointState

/-! ## From the steps to the whole -/

namespace Subgraph.Discovers

open QuantGraph.Graph

variable {graph : Graph α} {subgraph : Subgraph}

theorem layer_works (discovers : Discovers graph [] subgraph) {id : NodeId}
    (member : id ∈ subgraph.layers) : graph.Works id := by
  rcases discovers.layer_kind id member with ⟨kind, _⟩ | ⟨kind, _⟩ | ⟨kind, found, between⟩
  · exact .of_kind kind (by decide)
  · exact .of_kind kind (by decide)
  · refine .of_kind found ?_
    rintro rfl
    cases between

theorem quantizer_of_kind (discovers : Discovers graph [] subgraph) {id : NodeId}
    (member : id ∈ subgraph.layers) (kind : graph.kind? id = some .fakeQuantize) :
    id ∈ subgraph.quantizers := by
  rcases discovers.layer_kind id member with ⟨_, listed⟩ | ⟨other, _⟩ | ⟨_, other, between⟩
  · exact listed
  · rw [kind] at other
    cases other
  · rw [kind] at other
    cases other
    cases between

theorem quantizer_works (discovers : Discovers graph [] subgraph) {id : NodeId}
    (member : id ∈ subgraph.quantizers) : graph.Works id :=
  discovers.layer_works (discovers.quantizer_layer id member).1

end Subgraph.Discovers

namespace Graph

theorem hasConstantLimits_of_quantizationLimits? {graph : Graph α} {id : NodeId}
    {limits : QuantizationLimits α} (found : graph.quantizationLimits? id = some limits) :
    graph.HasConstantLimits id := by
  simp only [quantizationLimits?, Option.bind_eq_bind, Option.bind_eq_some_iff] at found
  obtain ⟨_, _, _, _, inputLow, isLow, inputHigh, isHigh, outputLow, isOutputLow, outputHigh,
    isOutputHigh, _⟩ := found
  intro limit
  cases limit with
  | inputLow => exact ⟨inputLow, isLow⟩
  | inputHigh => exact ⟨inputHigh, isHigh⟩
  | outputLow => exact ⟨outputLow, isOutputLow⟩
  | outputHigh => exact ⟨outputHigh, isOutputHigh⟩

theorem hasConstantLimits_of_producerLimits? {graph : Graph α} {subgraph : Subgraph}
    {limits : List (QuantizationLimits α)} (found : subgraph.producerLimits? graph = some limits) :
    limits.length = subgraph.quantizers.length ∧
      ∀ id ∈ subgraph.quantizers, graph.HasConstantLimits id := by
  have all := Outcome.mapM_eq_some.mp found
  refine ⟨all.length_eq.symm, fun id member => ?_⟩
  obtain ⟨place, inside, rfl⟩ := List.getElem_of_mem member
  have bound : place < limits.length := all.length_eq ▸ inside
  exact hasConstantLimits_of_quantizationLimits? (all.get inside bound)

end Graph

namespace JointState

open QuantGraph.Graph

theorem map_id_of_related {ids : List NodeId} {others : List β}
    {narrowings : List (Narrowing α)}
    (length_le : ids.length ≤ others.length)
    (related : List.Forall₂ (fun (entry : NodeId × β) narrowing => entry.1 = narrowing.id)
      (ids.zip others) narrowings) : narrowings.map Narrowing.id = ids := by
  have equal : List.Forall₂ Eq ((ids.zip others).map Prod.fst) (narrowings.map Narrowing.id) :=
    List.forall₂_map_left_iff.mpr (List.forall₂_map_right_iff.mpr related)
  rw [List.forall₂_eq_eq_eq, List.map_fst_zip length_le] at equal
  exact equal.symm

variable [Scalar α] {state narrowed final : JointState α} {cache : DequantizationCache α}
  {narrowings : List (Narrowing α)} {precision : ElementType} {updatePrecisions : Bool}
  {policy : Policy}

theorem quantizesTogether_of_steps {holds : Narrowing α → Graph α → Prop}
    (wellFormed : state.graph.WellFormed) (constants : state.graph.ConstantsReadNothing)
    (discovers : Subgraph.Discovers state.graph [] state.subgraph)
    (limits : ∀ id ∈ state.subgraph.quantizers, state.graph.HasConstantLimits id)
    (ids_eq : narrowings.map Narrowing.id = state.subgraph.quantizers)
    (sequence : Revision.Sequence (TakesNarrowing holds) narrowings (.empty, state)
      (cache, narrowed))
    (finishes : Finishes cache precision updatePrecisions narrowed final) :
    (∃ moved chains dequantized, final.subgraph = state.subgraph.relocate moved ∧
      state.graph.QuantizesTogether state.subgraph updatePrecisions narrowings moved cache chains
        narrowed.graph dequantized final.graph) ∧
      ∀ narrowing ∈ narrowings, FollowsNarrowings state.graph narrowings holds narrowing := by
  have quantizer {narrowing : Narrowing α} (member : narrowing ∈ narrowings) :
      narrowing.id ∈ state.subgraph.quantizers := ids_eq ▸ List.mem_map_of_mem member
  obtain ⟨⟨moved, requantizes⟩, follows⟩ := requantizes_of_sequence sequence wellFormed constants
    (ids_eq ▸ discovers.quantizers_nodup)
    (fun narrowing member => discovers.quantizer_works (quantizer member))
    (fun narrowing member => limits narrowing.id (quantizer member))
  obtain ⟨middle, unchanged, dequantizes, declares⟩ := finishes
  have subgraph_eq : narrowed.subgraph = state.subgraph.relocate moved := requantizes.subgraph_eq
  rw [subgraph_eq] at dequantizes
  obtain ⟨chains, dequantizes⟩ := Dequantizes.of_sequence requantizes.graph.wellFormed dequantizes
    (discovers.nodup.map_on fun left leftMember right rightMember equal =>
      requantizes.graph.injective left right (discovers.layer_works leftMember)
        (discovers.layer_works rightMember) equal)
    (fun layer member => by
      obtain ⟨origin, listed, rfl⟩ := List.mem_map.mp member
      exact requantizes.graph.works_moved (discovers.layer_works listed))
  refine ⟨⟨moved, chains, middle.graph, ?_, ?_⟩, follows⟩
  · rw [subgraph_eq_of_finishes declares, unchanged, subgraph_eq]
  exact
    { ids_eq := ids_eq
      limits := limits
      requantizes := requantizes.graph
      cached := requantizes.cached
      uncached := by
        intro id works outside
        rw [requantizes.uncached id works (ids_eq ▸ outside)]
        rfl
      dequantizes := dequantizes
      same := fun id => (sameAt_of_finishes declares id).1
      quantizer_eq := fun id => (sameAt_of_finishes declares id).2 }

theorem length_reconcile {resolved : List (TargetRange α)} {levels : Nat}
    {found : ChannelTargets α}
    (reconciled : ChannelTargets.reconcile resolved levels policy = some found) :
    found.targets.length = resolved.length := by
  unfold ChannelTargets.reconcile at reconciled
  obtain ⟨first, _, reconciled⟩ := Option.bind_eq_some_iff.mp reconciled
  split at reconciled
  case isTrue =>
    cases reconciled
    rfl
  case isFalse =>
    obtain ⟨_, _, reconciled⟩ := Option.bind_eq_some_iff.mp reconciled
    obtain ⟨_, _, reconciled⟩ := Option.bind_eq_some_iff.mp reconciled
    cases reconciled
    exact List.length_map _

theorem targets_of_forSubgraph {graph : Graph α} {subgraph : Subgraph} {found : ChannelTargets α}
    (resolves : ChannelTargets.forSubgraph graph subgraph policy = .ok (some found)) :
    found.targets.length = subgraph.quantizers.length ∧
      ∀ id ∈ subgraph.quantizers, graph.HasConstantLimits id := by
  unfold ChannelTargets.forSubgraph at resolves
  split at resolves
  case h_1 concat limits isConcat isLimits =>
    obtain ⟨levels, _, resolves⟩ := Outcome.bind_eq_ok.mp resolves
    obtain ⟨length_eq, constant⟩ := hasConstantLimits_of_producerLimits? isLimits
    split at resolves
    case h_1 resolved isResolved =>
      have reconciled := Except.ok.inj resolves
      rw [length_reconcile reconciled, ← length_eq]
      exact ⟨(Outcome.mapM_eq_some.mp isResolved).length_eq.symm, constant⟩
    case h_2 => cases Except.ok.inj resolves
  case h_2 => cases Except.ok.inj resolves

omit [Scalar α] in
theorem levels_eq_of_commonLevels {graph : Graph α} {concat : NodeId}
    {limits : List (QuantizationLimits α)} {producer : QuantizationLimits α} {levels : Nat}
    (common : Subgraph.commonLevels graph concat limits = .ok levels) (member : producer ∈ limits) :
    producer.levels = levels := by
  unfold Subgraph.commonLevels at common
  dsimp only at common
  split at common
  case isTrue same =>
    exact (eq_of_beq (List.all_eq_true.mp same producer member)).trans (Except.ok.inj common)
  case isFalse => cases common

/-- What the mapping for a subgraph is made of. -/
theorem ofUnion?_of_forSubgraph {graph : Graph α} {subgraph : Subgraph} {shared : SharedScale α}
    (resolves : SharedScale.forSubgraph graph subgraph policy = .ok (some shared)) :
    ∃ limits concat levels, subgraph.producerLimits? graph = some limits ∧
      limits.all QuantizationLimits.isPerTensor = true ∧
      Subgraph.commonLevels graph concat limits = .ok levels ∧
      SharedScale.ofUnion? limits levels policy
        ((subgraph.quantizers.head?.bind graph.elementType?).getD .f32) = some shared := by
  unfold SharedScale.forSubgraph at resolves
  split at resolves
  case h_1 concat limits isConcat isLimits =>
    split at resolves
    case isTrue perTensor =>
      obtain ⟨levels, isLevels, resolves⟩ := Outcome.bind_eq_ok.mp resolves
      exact ⟨limits, concat, levels, isLimits, perTensor, isLevels, Except.ok.inj resolves⟩
    case isFalse => cases Except.ok.inj resolves
  case h_2 => cases Except.ok.inj resolves

theorem limits_of_ofUnion? {limits : List (QuantizationLimits α)} {levels : Nat}
    {restoredType : ElementType} {shared : SharedScale α}
    (union : SharedScale.ofUnion? limits levels policy restoredType = some shared) :
    shared.limits = limits := by
  unfold SharedScale.ofUnion? at union
  dsimp only at union
  obtain ⟨_, _, union⟩ := Option.bind_eq_some_iff.mp union
  obtain ⟨_, _, union⟩ := Option.bind_eq_some_iff.mp union
  cases union
  rfl

theorem limits_of_forSubgraph {graph : Graph α} {subgraph : Subgraph} {shared : SharedScale α}
    (resolves : SharedScale.forSubgraph graph subgraph policy = .ok (some shared)) :
    shared.limits.length = subgraph.quantizers.length ∧
      ∀ id ∈ subgraph.quantizers, graph.HasConstantLimits id := by
  obtain ⟨limits, _, _, isLimits, _, _, union⟩ := ofUnion?_of_forSubgraph resolves
  rw [limits_of_ofUnion? union]
  exact hasConstantLimits_of_producerLimits? isLimits

/-- How a fake quantization is narrowed to a target of its own. -/
def NarrowsToTarget (subgraph : Subgraph) (policy : Policy) (found : ChannelTargets α)
    (narrowing : Narrowing α) (graph : Graph α) : Prop :=
  ∃ target, (narrowing.id, target) ∈ subgraph.quantizers.zip found.targets ∧
    graph.restoringDequantization narrowing.id target = .ok narrowing.values ∧
    narrowing.precision =
      (if policy.updatePrecisions then target.precision else narrowing.values.restoredType) ∧
    narrowing.min = Scalar.round target.min ∧ narrowing.max = Scalar.round target.max

theorem quantizesTogether_of_perChannel (wellFormed : state.graph.WellFormed)
    (constants : state.graph.ConstantsReadNothing)
    (discovers : Subgraph.Discovers state.graph [] state.subgraph)
    (quantizes : QuantizesPerChannel policy state final) :
    ∃ found narrowings moved cache chains narrowed dequantized,
      ChannelTargets.forSubgraph state.graph state.subgraph policy = .ok (some found) ∧
      state.graph.QuantizesTogether state.subgraph policy.updatePrecisions narrowings moved cache
        chains narrowed dequantized final.graph ∧
      ∀ narrowing ∈ narrowings, FollowsNarrowings state.graph narrowings
        (NarrowsToTarget state.subgraph policy found) narrowing := by
  obtain ⟨found, cache, narrowed, resolves, sequence, finishes⟩ := quantizes
  obtain ⟨length_eq, limits⟩ := targets_of_forSubgraph resolves
  obtain ⟨narrowings, related, sequence⟩ := sequence.exists_entries
    (TakesNarrowing (NarrowsToTarget state.subgraph policy found))
    (fun entry narrowing => entry.1 = narrowing.id)
    (fun entry left right member taken => by
      obtain ⟨values, restores, narrows⟩ := taken
      exact ⟨⟨entry.1, values, _, _, _⟩, rfl, ⟨entry.2, member, restores, rfl, rfl, rfl⟩, narrows⟩)
  have ids_eq : narrowings.map Narrowing.id = state.subgraph.quantizers :=
    map_id_of_related (Nat.le_of_eq length_eq.symm) related
  obtain ⟨⟨moved, chains, dequantized, _, whole⟩, follows⟩ := quantizesTogether_of_steps wellFormed
    constants discovers limits ids_eq sequence finishes
  exact ⟨found, narrowings, moved, cache, chains, narrowed.graph, dequantized, resolves, whole,
    follows⟩

/-- How a fake quantization is narrowed to its share of one range. -/
def NarrowsToShare (subgraph : Subgraph) (policy : Policy) (shared : SharedScale α)
    (narrowing : Narrowing α) (graph : Graph α) : Prop :=
  ∃ limits, (narrowing.id, limits) ∈ subgraph.quantizers.zip shared.limits ∧
    narrowing.values = shared.dequantization ∧
    narrowing.precision = (if policy.updatePrecisions then shared.target.precision
      else (graph.elementType? narrowing.id).getD shared.restoredType) ∧
    narrowing.min = shared.integerFor (limits.outputLow.getD 0 0) ∧
    narrowing.max = shared.integerFor (limits.outputHigh.getD 0 0)

theorem exists_quantizesTogether_of_sharedScale (wellFormed : state.graph.WellFormed)
    (constants : state.graph.ConstantsReadNothing)
    (discovers : Subgraph.Discovers state.graph [] state.subgraph)
    (quantizes : QuantizesWithSharedScale policy state final) :
    ∃ shared narrowings moved cache chains narrowed dequantized,
      SharedScale.forSubgraph state.graph state.subgraph policy = .ok (some shared) ∧
      final.subgraph = state.subgraph.relocate moved ∧
      state.graph.QuantizesTogether state.subgraph policy.updatePrecisions narrowings moved cache
        chains narrowed dequantized final.graph ∧
      ∀ narrowing ∈ narrowings, FollowsNarrowings state.graph narrowings
        (NarrowsToShare state.subgraph policy shared) narrowing := by
  obtain ⟨shared, cache, narrowed, resolves, sequence, finishes⟩ := quantizes
  obtain ⟨length_eq, limits⟩ := limits_of_forSubgraph resolves
  obtain ⟨narrowings, related, sequence⟩ := sequence.exists_entries
    (TakesNarrowing (NarrowsToShare state.subgraph policy shared))
    (fun entry narrowing => entry.1 = narrowing.id)
    (fun entry left right member narrows => ⟨⟨entry.1, _, _, _, _⟩, rfl,
      ⟨entry.2, member, rfl, rfl, rfl, rfl⟩, narrows⟩)
  obtain ⟨⟨moved, chains, dequantized, subgraph_eq, whole⟩, follows⟩ := quantizesTogether_of_steps
    wellFormed constants discovers limits
    (map_id_of_related (Nat.le_of_eq length_eq.symm) related) sequence finishes
  exact ⟨shared, narrowings, moved, cache, chains, narrowed.graph, dequantized, resolves,
    subgraph_eq, whole, follows⟩

theorem quantizesTogether_of_sharedScale (wellFormed : state.graph.WellFormed)
    (constants : state.graph.ConstantsReadNothing)
    (discovers : Subgraph.Discovers state.graph [] state.subgraph)
    (quantizes : QuantizesWithSharedScale policy state final) :
    ∃ narrowings moved cache chains narrowed dequantized,
      state.graph.QuantizesTogether state.subgraph policy.updatePrecisions narrowings moved cache
        chains narrowed dequantized final.graph := by
  obtain ⟨_, narrowings, moved, cache, chains, narrowed, dequantized, _, _, whole, _⟩ :=
    exists_quantizesTogether_of_sharedScale wellFormed constants discovers quantizes
  exact ⟨narrowings, moved, cache, chains, narrowed, dequantized, whole⟩

theorem constantsReadNothing_of_quantizesSubgraph {before after : RunState α} {subgraph : Subgraph}
    {perChannel : Bool} (wellFormed : before.graph.WellFormed)
    (constants : before.graph.ConstantsReadNothing)
    (discovers : Subgraph.Discovers before.graph [] subgraph)
    (quantizes : RunState.QuantizesSubgraph subgraph policy perChannel before after) :
    after.graph.ConstantsReadNothing := by
  obtain ⟨final, rfl, quantizes⟩ := quantizes
  split at quantizes
  case isTrue =>
    obtain ⟨_, _, _, _, _, _, _, _, together, _⟩ :=
      quantizesTogether_of_perChannel wellFormed constants discovers quantizes
    exact together.constantsReadNothing
  case isFalse =>
    obtain ⟨_, _, _, _, _, _, together⟩ :=
      quantizesTogether_of_sharedScale wellFormed constants discovers quantizes
    exact together.constantsReadNothing

end JointState

end QuantGraph
