import Mathlib
import QuantGraph.Evaluation
import QuantGraph.Proofs.Graph.Construction
import QuantGraph.Proofs.Joint.Quantized
import QuantGraph.Proofs.Run.Apply
import QuantGraph.Registry
import QuantGraph.Scalar.Exact

/-! Where the raw values of a quantized subgraph go: into members that read them as they
are, and into chains, whose ends everything else reads. -/

namespace QuantGraph

/-- A member that works on raw values: a Concat or pooling. -/
def Subgraph.WorksOnRaw (subgraph : Subgraph) (graph : Graph α) (id : NodeId) : Prop :=
  id ∈ subgraph.layers ∧ graph.kind? id ≠ some .fakeQuantize

namespace Graph

/-- The raw values of the layers of a subgraph are read by some of its members and
otherwise restored once, by the chain of the layer. `moved` says where the operations have
gone. -/
structure Isolates (before : Graph α) (subgraph : Subgraph) (withConvert : Bool)
    (spared : NodeId → Prop) (moved : NodeId → NodeId)
    (chains : NodeId → Option DequantizationChain) (after : Graph α) : Prop where
  moved_other : ∀ id, id ∉ subgraph.quantizers → moved id = id
  injective : ∀ left right, before.Works left → before.Works right →
    moved left = moved right → left = right
  kind_eq : ∀ id, before.Works id → after.kind? (moved id) = before.kind? id
  chain : ∀ layer chain, chains layer = some chain → layer ∈ subgraph.layers ∧
    ∃ values, after.HoldsChain values (moved layer).output withConvert chain
  fresh : ∀ layer chain, chains layer = some chain → ∀ node ∈ chain.stages, ∀ id,
    before.Works id → moved id ≠ node
  readers : ∀ layer ∈ subgraph.layers, ∀ reader, after.Reads (moved layer) reader →
    (∃ member, spared member ∧ before.Reads layer member ∧ moved member = reader) ∨
      ∃ chain, chains layer = some chain ∧ chain.stages.head? = some reader
  restored : ∀ layer ∈ subgraph.layers, ∀ consumer, ¬ spared consumer →
    ∀ (position : Nat) (output : Output), (before.inputs consumer)[position]? = some output → output.node = layer →
    ∃ chain, chains layer = some chain ∧
      (after.inputs (moved consumer))[position]? = some chain.tail

theorem SameAt.reads_iff {before after : Graph α} {source reader : NodeId}
    (same : before.SameAt after reader) : after.Reads source reader ↔ before.Reads source reader := by
  rw [reads_iff_mem_inputs, reads_iff_mem_inputs, same.2]

namespace QuantizesTogether

variable [Scalar α] {before narrowed dequantized after : Graph α} {subgraph : Subgraph}
  {withConvert : Bool} {narrowings : List (Narrowing α)} {moved : NodeId → NodeId}
  {cache : DequantizationCache α} {chains : NodeId → Option DequantizationChain}

theorem exists_narrowing
    (quantizes : before.QuantizesTogether subgraph withConvert narrowings moved cache chains
      narrowed dequantized after) {quantizer : NodeId} (member : quantizer ∈ subgraph.quantizers) :
    ∃ narrowing ∈ narrowings, narrowing.id = quantizer :=
  List.mem_map.mp (quantizes.ids_eq ▸ member)

theorem mem_quantizers
    (quantizes : before.QuantizesTogether subgraph withConvert narrowings moved cache chains
      narrowed dequantized after) {narrowing : Narrowing α} (member : narrowing ∈ narrowings) :
    narrowing.id ∈ subgraph.quantizers :=
  quantizes.ids_eq ▸ List.mem_map_of_mem member

theorem narrowing_works
    (quantizes : before.QuantizesTogether subgraph withConvert narrowings moved cache chains
      narrowed dequantized after) (discovers : Subgraph.Discovers before [] subgraph) :
    ∀ narrowing ∈ narrowings, before.Works narrowing.id := fun _ member =>
  discovers.quantizer_works (quantizes.mem_quantizers member)

theorem moved_other
    (quantizes : before.QuantizesTogether subgraph withConvert narrowings moved cache chains
      narrowed dequantized after) {id : NodeId} (outside : id ∉ subgraph.quantizers) :
    moved id = id :=
  quantizes.requantizes.moved_other id (quantizes.ids_eq ▸ outside)

/-- The members are found where the members have gone. -/
theorem contains_moved
    (quantizes : before.QuantizesTogether subgraph withConvert narrowings moved cache chains
      narrowed dequantized after) (discovers : Subgraph.Discovers before [] subgraph)
    {id : NodeId} (works : before.Works id) :
    (subgraph.relocate moved).contains (moved id) = true ↔ id ∈ subgraph.layers := by
  simp only [Subgraph.contains, Subgraph.relocate, List.contains_iff_mem, List.mem_map]
  constructor
  · rintro ⟨member, listed, equal⟩
    exact quantizes.requantizes.injective _ _ (discovers.layer_works listed) works equal ▸ listed
  · exact fun listed => ⟨id, listed, rfl⟩

theorem kind_eq
    (quantizes : before.QuantizesTogether subgraph withConvert narrowings moved cache chains
      narrowed dequantized after) {id : NodeId} (works : before.Works id) :
    after.kind? (moved id) = before.kind? id := by
  have live := (quantizes.requantizes.works_moved works).1
  rw [(quantizes.same _).kind?_eq, kind?_congr (quantizes.dequantizes.node_eq _ live)]
  by_cases listed : id ∈ narrowings.map Narrowing.id
  · obtain ⟨narrowing, member, rfl⟩ := List.mem_map.mp listed
    obtain ⟨view, node, _, _, isView, present, isOp, _⟩ :=
      quantizes.requantizes.narrowed narrowing member
    rw [kind?, kind?, present, (fakeQuantizeNode_eq_ok isView).1, Option.map_some, Option.map_some,
      Node.kind, Node.kind, isOp]
  · rw [quantizes.requantizes.moved_other id listed,
      kind?_congr (quantizes.requantizes.node_other id works listed)]

/-- A fake quantization stays as it has been narrowed. -/
theorem narrowed_stays
    (quantizes : before.QuantizesTogether subgraph withConvert narrowings moved cache chains
      narrowed dequantized after) (discovers : Subgraph.Discovers before [] subgraph)
    {quantizer : NodeId} (member : quantizer ∈ subgraph.quantizers) :
    after.node? (moved quantizer) = narrowed.node? (moved quantizer) ∧
      after.inputs (moved quantizer) = narrowed.inputs (moved quantizer) := by
  have works := discovers.quantizer_works member
  have live := (quantizes.requantizes.works_moved works).1
  have inside := (quantizes.contains_moved discovers works).mpr
    (discovers.quantizer_layer quantizer member).1
  have kind : dequantized.kind? (moved quantizer) = some .fakeQuantize := by
    rw [← (quantizes.same _).kind?_eq, quantizes.kind_eq works]
    exact (discovers.quantizer_layer quantizer member).2
  constructor
  · rw [quantizes.quantizer_eq _ kind, quantizes.dequantizes.node_eq _ live]
  · rw [(quantizes.same _).2, quantizes.dequantizes.inputs_eq _ live, if_pos inside]

/-- The narrowed fake quantizations are found with their new limits in the end as well. -/
theorem holdsNarrowed
    (quantizes : before.QuantizesTogether subgraph withConvert narrowings moved cache chains
      narrowed dequantized after) (discovers : Subgraph.Discovers before [] subgraph)
    {narrowing : Narrowing α} (member : narrowing ∈ narrowings) :
    before.HoldsNarrowed (narrowings.map Narrowing.id) narrowing moved after := by
  obtain ⟨view, node, low, high, isView, present, isOp, relaxed, precision, shape, inputs, isLow,
    isHigh⟩ := quantizes.requantizes.narrowed narrowing member
  have kept {id : NodeId} {tensor : Tensor α} (constant : narrowed.constant? id = some tensor) :
      after.constant? id = some tensor := by
    rw [constant?_eq_some_iff, (quantizes.same id).1,
      op?_congr (quantizes.dequantizes.node_eq id (contains_of_constant? constant))]
    exact constant?_eq_some_iff.mp constant
  obtain ⟨node_eq, inputs_eq⟩ := quantizes.narrowed_stays discovers (quantizes.mem_quantizers member)
  exact ⟨view, node, low, high, isView, node_eq.trans present, isOp, relaxed, precision, shape,
    inputs_eq.trans inputs, kept isLow, kept isHigh⟩

/-- The chain behind a layer that has gone where `moved` says. -/
def chainBehind (subgraph : Subgraph) (moved : NodeId → NodeId)
    (chains : NodeId → Option DequantizationChain) (layer : NodeId) :
    Option DequantizationChain :=
  if layer ∈ subgraph.layers then chains (moved layer) else none

theorem chainBehind_of_mem {layer : NodeId} (member : layer ∈ subgraph.layers) :
    chainBehind subgraph moved chains layer = chains (moved layer) := if_pos member

theorem chainBehind_eq_some {layer : NodeId} {chain : DequantizationChain}
    (present : chainBehind subgraph moved chains layer = some chain) :
    layer ∈ subgraph.layers ∧ chains (moved layer) = some chain := by
  unfold chainBehind at present
  split at present
  case isTrue member => exact ⟨member, present⟩
  case isFalse => cases present

/-- Every member keeps reading raw values, and nothing else does. -/
theorem isolates
    (quantizes : before.QuantizesTogether subgraph withConvert narrowings moved cache chains
      narrowed dequantized after) (wellFormed : before.WellFormed)
    (constants : before.ConstantsReadNothing) (discovers : Subgraph.Discovers before [] subgraph) :
    before.Isolates subgraph withConvert (fun id => id ∈ subgraph.layers) moved
      (chainBehind subgraph moved chains) after where
  moved_other := fun id outside => quantizes.moved_other outside
  injective := quantizes.requantizes.injective
  kind_eq := fun id works => quantizes.kind_eq works
  chain := by
    intro layer chain present
    obtain ⟨member, present⟩ := chainBehind_eq_some present
    obtain ⟨values, _, _, _, holds⟩ := quantizes.dequantizes.holds _ chain present
    exact ⟨member, values, holds.congr (fun node _ _ => quantizes.same node)
      fun node _ _ _ => quantizes.same node⟩
  fresh := by
    intro layer chain present node stage id works equal
    obtain ⟨member, present⟩ := chainBehind_eq_some present
    have dead := quantizes.dequantizes.fresh _ chain present node stage
    rw [← equal, (quantizes.requantizes.works_moved works).1] at dead
    cases dead
  readers := by
    intro layer member reader reads
    have layer_works := discovers.layer_works member
    have reads := (quantizes.same reader).reads_iff.mp reads
    rw [chainBehind_of_mem member]
    rcases quantizes.dequantizes.reads_layer (quantizes.requantizes.works_moved layer_works) reads
      with ⟨reads, isMember⟩ | chained
    · obtain ⟨origin, works, rfl, earlier⟩ := quantizes.requantizes.exists_origin_of_reads
        wellFormed (quantizes.narrowing_works discovers) layer_works reads
      refine Or.inl ⟨origin, ?_, earlier, rfl⟩
      rw [← quantizes.contains_moved discovers works]
      rcases isMember with inside | unchained
      · exact inside
      · by_contra outside
        obtain ⟨chain, present⟩ := (quantizes.dequantizes.chained_iff _).mpr
          ⟨List.mem_map_of_mem member, moved origin, reads, Bool.not_eq_true _ ▸ outside⟩
        rw [unchained] at present
        cases present
    · exact Or.inr chained
  restored := by
    rintro _ member consumer outside position output read rfl
    have works := constants.works_of_read wellFormed read
    have not_quantizer : consumer ∉ subgraph.quantizers := fun listed =>
      outside (discovers.quantizer_layer consumer listed).1
    have not_narrowed : consumer ∉ narrowings.map Narrowing.id := quantizes.ids_eq ▸ not_quantizer
    have same := quantizes.moved_other not_quantizer
    have not_member : (subgraph.relocate moved).contains consumer = false := by
      rw [Bool.eq_false_iff]
      intro inside
      rw [← same, quantizes.contains_moved discovers works] at inside
      exact outside inside
    have read_narrowed : (narrowed.inputs consumer)[position]? = some (relocated moved output) := by
      rw [quantizes.requantizes.inputs_other consumer works not_narrowed, List.getElem?_map, read,
        Option.map_some]
    obtain ⟨chain, present⟩ := (quantizes.dequantizes.chained_iff (moved output.node)).mpr
      ⟨List.mem_map_of_mem member, consumer,
        reads_of_mem_inputs (List.mem_of_getElem? read_narrowed), not_member⟩
    refine ⟨chain, by rw [chainBehind_of_mem member, present], ?_⟩
    have live : narrowed.contains consumer = true :=
      same ▸ (quantizes.requantizes.works_moved works).1
    rw [same, (quantizes.same consumer).2, quantizes.dequantizes.inputs_eq consumer live,
      if_neg (by simp [not_member]), List.getElem?_map, read_narrowed, Option.map_some]
    exact congrArg some (dequantized_of_some present)

/-- A fake quantization of the subgraph reads no operation on its output limits. -/
theorem lt_of_read
    (quantizes : before.QuantizesTogether subgraph withConvert narrowings moved cache chains
      narrowed dequantized after) (wellFormed : before.WellFormed) {quantizer : NodeId}
    (member : quantizer ∈ subgraph.quantizers) {position : Nat} {output : Output}
    (read : (before.inputs quantizer)[position]? = some output)
    (works : before.Works output.node) : position < 3 := by
  obtain ⟨narrowing, listed, rfl⟩ := quantizes.exists_narrowing member
  obtain ⟨view, _, _, _, isView, _⟩ := quantizes.requantizes.narrowed narrowing listed
  obtain ⟨_, _, inputs⟩ := fakeQuantizeNode_eq_ok isView
  have no_limit (limit : LimitName) (slot : limit.slot = position) : False := by
    obtain ⟨tensor, isLimit⟩ := quantizes.limits narrowing.id member limit
    rw [limit?_of_read (wellFormed.exact _) (slot ▸ read), works.2] at isLimit
    cases isLimit
  have inside := (List.getElem?_eq_some_iff.mp read).1
  rw [inputs] at inside
  by_contra late
  have last : position = 3 ∨ position = 4 := by
    change position < 5 at inside
    omega
  rcases last with rfl | rfl
  · exact no_limit .outputLow rfl
  · exact no_limit .outputHigh rfl

/-- A member that is a fake quantization keeps reading raw values. -/
theorem reads_raw
    (quantizes : before.QuantizesTogether subgraph withConvert narrowings moved cache chains
      narrowed dequantized after) (discovers : Subgraph.Discovers before [] subgraph)
    {quantizer : NodeId} (member : quantizer ∈ subgraph.quantizers) {position : Nat}
    {output : Output} (early : position < 3)
    (read : (before.inputs quantizer)[position]? = some output) :
    (after.inputs (moved quantizer))[position]? = some (relocated moved output) := by
  obtain ⟨_, inputs_eq⟩ := quantizes.narrowed_stays discovers member
  obtain ⟨narrowing, listed, rfl⟩ := quantizes.exists_narrowing member
  rw [inputs_eq, quantizes.requantizes.getElem?_narrowed listed early, read, Option.map_some]

/-- Raw values stay with Concats and pooling if and only if no fake quantization of the
subgraph reads a member. -/
theorem isolates_worksOnRaw_iff
    (quantizes : before.QuantizesTogether subgraph withConvert narrowings moved cache chains
      narrowed dequantized after) (wellFormed : before.WellFormed)
    (constants : before.ConstantsReadNothing) (discovers : Subgraph.Discovers before [] subgraph) :
    before.Isolates subgraph withConvert (subgraph.WorksOnRaw before) moved
        (chainBehind subgraph moved chains) after ↔
      ∀ quantizer ∈ subgraph.quantizers, ∀ layer ∈ subgraph.layers,
        ¬ before.Reads layer quantizer := by
  have general := quantizes.isolates wellFormed constants discovers
  constructor
  · intro strict quantizer isQuantizer layer member reads
    obtain ⟨output, listed, rfl⟩ := reads_iff_mem_inputs.mp reads
    obtain ⟨position, read⟩ := List.mem_iff_getElem?.mp listed
    obtain ⟨_, kind⟩ := discovers.quantizer_layer quantizer isQuantizer
    obtain ⟨chain, present, restored⟩ := strict.restored _ member quantizer
      (fun spared => spared.2 kind) position output read rfl
    have early := quantizes.lt_of_read wellFormed isQuantizer read (discovers.layer_works member)
    rw [quantizes.reads_raw discovers isQuantizer early read, Option.some.injEq] at restored
    obtain ⟨_, values, holds⟩ := general.chain _ chain present
    obtain ⟨last, stage, tail⟩ := holds.tail_eq
    refine general.fresh _ chain present last stage output.node (discovers.layer_works member) ?_
    exact congrArg Output.node (restored.trans tail)
  · intro apart
    exact
      { moved_other := general.moved_other
        injective := general.injective
        kind_eq := general.kind_eq
        chain := general.chain
        fresh := general.fresh
        readers := by
          intro layer member reader reads
          refine (general.readers layer member reader reads).imp_left ?_
          rintro ⟨origin, isMember, earlier, equal⟩
          refine ⟨origin, ⟨isMember, fun kind => ?_⟩, earlier, equal⟩
          exact apart origin (discovers.quantizer_of_kind isMember kind) layer member earlier
        restored := by
          intro layer member consumer outside position output read isLayer
          refine general.restored layer member consumer (fun isMember => ?_) position output read
            isLayer
          refine outside ⟨isMember, fun kind => ?_⟩
          refine apart consumer (discovers.quantizer_of_kind isMember kind) layer member ?_
          exact isLayer ▸ reads_of_mem_inputs (List.mem_of_getElem? read) }

end QuantizesTogether

end Graph

/-! ## The rules for Concats -/

namespace Transformation

section Rules

variable [Scalar α] {transformation : Transformation} {registry : Registry} {id : NodeId}
  {state after : RunState α}

/-- A rule gives one scale to each channel of a subgraph, and not one scale to all. -/
def worksPerChannel (transformation : Transformation) (graph : Graph α) (subgraph : Subgraph) : Bool :=
  match transformation.rule with
  | .concatMultiChannels => graph.isMultiChannel subgraph.concats
  | _ => false

omit [Scalar α] in
theorem rule_of_worksPerChannel {graph : Graph α} {subgraph : Subgraph}
    (channels : transformation.worksPerChannel graph subgraph = true) :
    transformation.rule = .concatMultiChannels := by
  unfold worksPerChannel at channels
  split at channels
  · assumption
  · cases channels

theorem exists_quantizesSubgraph
    (joint : transformation.rule = .concat ∨ transformation.rule = .concatMultiChannels)
    (wellFormed : state.graph.WellFormed) (kind : state.graph.kind? id = some .concat)
    (applied : (transformation.apply registry id).runOn state = (.ok true, after)) :
    after.graph.WellFormed ∧ ∃ subgraph, state.subgraphAround? registry id = some subgraph ∧
      RunState.QuantizesSubgraph subgraph transformation.policy
        (transformation.worksPerChannel state.graph subgraph) state after := by
  rcases joint with rule | rule
  · simp only [apply, rule] at applied
    obtain ⟨⟨later, _⟩, quantizes⟩ :=
      (RunRevision.ensures_quantizeConcat wellFormed .refl kind).of_runOn applied
    simp only [worksPerChannel, rule]
    exact ⟨later, quantizes⟩
  · simp only [apply, rule] at applied
    obtain ⟨⟨later, _⟩, quantizes⟩ :=
      (RunRevision.ensures_quantizeConcatChannels wellFormed .refl kind).of_runOn applied
    simp only [worksPerChannel, rule]
    exact ⟨later, quantizes⟩

/-- When a rule for Concats revises the graph, every member of the subgraph keeps reading raw
values, and everything else reads what the chains restore. Raw values thus stay with Concats
and pooling if and only if no fake quantization of the subgraph reads a member. -/
theorem exists_isolates_of_apply
    (joint : transformation.rule = .concat ∨ transformation.rule = .concatMultiChannels)
    (wellFormed : state.graph.WellFormed) (constants : state.graph.ConstantsReadNothing)
    (kind : state.graph.kind? id = some .concat)
    (applied : (transformation.apply registry id).runOn state = (.ok true, after)) :
    ∃ subgraph moved chains, state.subgraphAround? registry id = some subgraph ∧
      state.graph.Isolates subgraph transformation.policy.updatePrecisions
        (fun id => id ∈ subgraph.layers) moved chains after.graph ∧
      (state.graph.Isolates subgraph transformation.policy.updatePrecisions
          (subgraph.WorksOnRaw state.graph) moved chains after.graph ↔
        ∀ quantizer ∈ subgraph.quantizers, ∀ layer ∈ subgraph.layers,
          ¬ state.graph.Reads layer quantizer) := by
  obtain ⟨_, subgraph, found, final, rfl, quantizes⟩ :=
    exists_quantizesSubgraph joint wellFormed kind applied
  obtain ⟨discovers, _⟩ :=
    Subgraph.discovers_around? kind (RunState.subgraphAround?_eq_some found).1
  have together : ∃ narrowings moved cache chains narrowed dequantized,
      state.graph.QuantizesTogether subgraph transformation.policy.updatePrecisions narrowings
        moved cache chains narrowed dequantized final.graph := by
    split at quantizes
    case isTrue =>
      obtain ⟨_, narrowings, moved, cache, chains, narrowed, dequantized, _, together, _⟩ :=
        JointState.quantizesTogether_of_perChannel wellFormed constants discovers quantizes
      exact ⟨narrowings, moved, cache, chains, narrowed, dequantized, together⟩
    case isFalse =>
      exact JointState.quantizesTogether_of_sharedScale wellFormed constants discovers quantizes
  obtain ⟨_, moved, _, chains, _, _, together⟩ := together
  exact ⟨subgraph, moved, _, found, together.isolates wellFormed constants discovers,
    together.isolates_worksOnRaw_iff wellFormed constants discovers⟩

end Rules

/-- Two fake quantizations of a pixel, the second of them behind the first or beside it, and
a Concat of both. -/
def joinedQuantizations (source : NodeId) : List (Draft Rat) :=
  let low := (NodeId.mk 1).output
  let high := (NodeId.mk 2).output
  [{ op := .parameter, name := "pixel"
     declared := some { elementType := .f32, shape := [1, 1, 1, 1] } },
    (Op.constant (.scalar .f32 0)).draft "low",
    (Op.constant (.scalar .f32 510)).draft "high",
    ((Op.fakeQuantize 256).draft "first").readOutputs
      [(NodeId.mk 0).output, low, high, low, high],
    ((Op.fakeQuantize 256).draft "second").readOutputs [source.output, low, high, low, high],
    ((Op.concat 1).draft "joined").readAll [NodeId.mk 3, NodeId.mk 4],
    (Op.result.draft "output").readAll [NodeId.mk 5]]

/-- One scale for each channel. -/
def scaleChannels : Transformation := { rule := .concatMultiChannels, policy := {} }

theorem exists_isolates_joinedQuantizations :
    ∃ graph after, Graph.empty.addAll (joinedQuantizations (NodeId.mk 0)) = .ok graph ∧
      (scaleChannels.rule = .concat ∨ scaleChannels.rule = .concatMultiChannels) ∧
      graph.WellFormed ∧ graph.ConstantsReadNothing ∧
      graph.kind? (NodeId.mk 5) = some .concat ∧
      (scaleChannels.apply (.all {}) (NodeId.mk 5)).runOn (.ofGraph graph) = (.ok true, after) ∧
      ∃ subgraph moved chains,
        (RunState.ofGraph graph).subgraphAround? (.all {}) (NodeId.mk 5) = some subgraph ∧
        graph.Isolates subgraph true (fun id => id ∈ subgraph.layers) moved chains after.graph ∧
        (graph.Isolates subgraph true (subgraph.WorksOnRaw graph) moved chains after.graph ↔
          ∀ quantizer ∈ subgraph.quantizers, ∀ layer ∈ subgraph.layers,
            ¬ graph.Reads layer quantizer) := by
  have ordered : ∀ draft ∈ joinedQuantizations (NodeId.mk 0), draft.IsInOrder := by decide
  have made : (Graph.empty.addAll (joinedQuantizations (NodeId.mk 0))).map (fun graph =>
      (graph.kind? (NodeId.mk 5),
        graph.nodeIds.all fun id => (graph.constant? id).isNone || (graph.inputs id).isEmpty,
        ((scaleChannels.apply (.all {}) (NodeId.mk 5)).runOn (.ofGraph graph)).1)) =
      .ok (some .concat, true, .ok true) := by decide +kernel
  obtain ⟨graph, added, facts⟩ := Outcome.map_eq_ok.mp made
  simp only [Prod.mk.injEq] at facts
  obtain ⟨kind, constants, changed⟩ := facts
  have wellFormed := Graph.wellFormed_empty.addAll ordered added
  have constants := Graph.constantsReadNothing_of_all constants
  have applied : (scaleChannels.apply (.all {}) (NodeId.mk 5)).runOn (.ofGraph graph) =
      (.ok true, _) := Prod.ext changed rfl
  exact ⟨graph, _, added, Or.inr rfl, wellFormed, constants, kind, applied,
    exists_isolates_of_apply (Or.inr rfl) wellFormed constants kind applied⟩

set_option synthInstance.maxSize 4096 in
/-- Of two fake quantizations behind one another, the second reads the raw values of the first
once both have been quantized, and gives other values than before. -/
theorem exists_reads_raw :
    ∃ graph after feeds, Graph.empty.addAll (joinedQuantizations (NodeId.mk 3)) = .ok graph ∧
      (scaleChannels.apply (.all {}) (NodeId.mk 5)).runOn (.ofGraph graph) = (.ok true, after) ∧
      graph.inputNode? (NodeId.mk 4) 0 = some (NodeId.mk 3) ∧
      after.graph.isKind (NodeId.mk 9) .fakeQuantize = true ∧
      after.graph.name (NodeId.mk 9) = "first" ∧ after.graph.name (NodeId.mk 11) = "second" ∧
      after.graph.inputNode? (NodeId.mk 11) 0 = some (NodeId.mk 9) ∧
      (graph.evaluateResults feeds).map (List.map NDArray.toList) = .ok [[100, 100]] ∧
      (after.graph.evaluateResults feeds).map (List.map NDArray.toList) = .ok [[100, 50]] := by
  let feeds : Assignment Rat := Assignment.none.set (NodeId.mk 0) (.replicate [1, 1, 1, 1] 100)
  have made : (Graph.empty.addAll (joinedQuantizations (NodeId.mk 3))).map (fun graph =>
      let applied := (scaleChannels.apply (.all {}) (NodeId.mk 5)).runOn (.ofGraph graph)
      (applied.1, graph.inputNode? (NodeId.mk 4) 0,
        applied.2.graph.isKind (NodeId.mk 9) .fakeQuantize,
        applied.2.graph.name (NodeId.mk 9), applied.2.graph.name (NodeId.mk 11),
        applied.2.graph.inputNode? (NodeId.mk 11) 0,
        (graph.evaluateResults feeds).map (List.map NDArray.toList),
        (applied.2.graph.evaluateResults feeds).map (List.map NDArray.toList))) =
      .ok (.ok true, some (NodeId.mk 3), true, "first", "second", some (NodeId.mk 9),
        .ok [[100, 100]], .ok [[100, 50]]) := by decide +kernel
  obtain ⟨graph, added, facts⟩ := Outcome.map_eq_ok.mp made
  simp only [Prod.mk.injEq] at facts
  obtain ⟨changed, facts⟩ := facts
  exact ⟨graph, _, feeds, added, Prod.ext changed rfl, facts⟩

end Transformation

end QuantGraph
