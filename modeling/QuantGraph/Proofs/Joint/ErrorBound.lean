import Mathlib
import QuantGraph.Proofs.Joint.RawValues

/-! How far values move when a subgraph is quantized with one scale. The raw values of a layer lie
within a unit of the places of what it held, or half a unit, and so what they are restored to lies
within as many scales of it. -/

namespace QuantGraph

/-- What is read from a layer outside of the subgraph lies near what was read there before. -/
def Subgraph.ReadsNear (subgraph : Subgraph) (before after : Graph Rat) (feeds : Assignment Rat)
    (bound : Rat) : Prop :=
  ∀ consumer ∉ subgraph.layers, ∀ (position : Nat) output value,
    (before.inputs consumer)[position]? = some output → output.node ∈ subgraph.layers →
      before.HasValue feeds output.node value →
        ∃ source restored, (after.inputs consumer)[position]? = some source ∧
          after.HasValue feeds source.node restored ∧ restored.shape = value.shape ∧
          ∀ index, value.shape.Holds index → |restored.get index - value.get index| ≤ bound

/-- What is read from a layer outside of the subgraph is restored by a Multiply, and the scale and how
far an element moves are as described. -/
def Subgraph.ReadsRestored (subgraph : Subgraph) (before after : Graph Rat) (feeds : Assignment Rat)
    (describes : NodeId → Index → Rat → Rat → Prop) : Prop :=
  ∀ consumer ∉ subgraph.layers, ∀ (position : Nat) output value,
    (before.inputs consumer)[position]? = some output → output.node ∈ subgraph.layers →
      before.HasValue feeds output.node value →
        ∃ source scale restored, (after.inputs consumer)[position]? = some source ∧
          (∃ data, after.AppliesConstant .multiply data scale source.node) ∧
          after.HasValue feeds source.node restored ∧ restored.shape = value.shape ∧
          ∀ index, value.shape.Holds index → describes output.node index (scale.values.read index)
            (restored.get index - value.get index)

namespace JointState

open QuantGraph.Graph

variable {registry : Registry} {concat id : NodeId} {policy : Policy} {state final : JointState Rat}
  {shared : SharedScale Rat} {feeds : Assignment Rat} {value : NDArray Rat}

theorem isReal_restoredType
    (resolves : SharedScale.forSubgraph state.graph state.subgraph policy = .ok (some shared))
    (real : state.subgraph.IsReal state.graph) :
    shared.restoredType.isReal = true := by
  obtain ⟨_, _, _, _, _, _, union⟩ := ofUnion?_of_forSubgraph resolves
  rw [(SharedScale.mapsUnion_of_ofUnion? union).2.1]
  cases isHead : state.subgraph.quantizers.head? with
  | none => rfl
  | some quantizer =>
      rw [Option.bind_some]
      cases isType : state.graph.elementType? quantizer with
      | none => rfl
      | some type => exact real quantizer (List.mem_of_head? isHead) type isType

section Values

variable {levels : Nat} {narrowings : List (Narrowing Rat)} {moved : NodeId → NodeId}
  {chains : NodeId → Option DequantizationChain} {cache : DequantizationCache Rat}
  {narrowed chained : Graph Rat}

theorem SharesScale.values_eq
    (shares : state.SharesScale policy shared levels narrowings moved chains final) :
    ∀ narrowing ∈ narrowings, narrowing.values = shared.dequantization := by
  intro narrowing member
  obtain ⟨_, _, _, share⟩ := shares.share narrowing member
  exact share.values_eq

/-- With one scale, values that lie near the places of what there was are handed on, unless a
maximum is taken where places are in the opposite order. -/
theorem SharesScale.handsOn
    (shares : state.SharesScale policy shared levels narrowings moved chains final)
    (quantizes : state.graph.QuantizesTogether state.subgraph policy.updatePrecisions narrowings
      moved cache chains narrowed chained final.graph) (wellFormed : state.graph.WellFormed)
    (ordered : shared.KeepsMaxima state.graph state.subgraph)
    (real : state.subgraph.IsReal state.graph)
    (restored : shared.restoredType.isReal = true) (apart : state.subgraph.IsApart state.graph)
    (shapes : state.graph.HasConsistentShapes feeds) :
    QuantizesTogether.HandsOn state.graph final.graph state.subgraph moved chains feeds
      fun _ value raw => raw.Approximates value shared.position
        (SharedScale.roundingError policy.updatePrecisions) where
  quantizer := by
    intro quantizer listed value has
    obtain ⟨narrowing, member, rfl⟩ := shares.exists_narrowing listed
    obtain ⟨limits, low, high, share⟩ := shares.share narrowing member
    obtain ⟨raw, hasRaw, addressable, near⟩ := quantizes.exists_raw_of_quantizer wellFormed
      shares.discovers apart shapes member share (fun _ isView => shares.enough member isView) real
      has
    exact ⟨raw, hasRaw, near.shape_eq, addressable, near⟩
  concat := by
    intro concat isConcat axis inputs raws value raw _ _ isValue isRaw length_eq same each
    refine NDArray.Approximates.concatenate ?_ isRaw isValue
    refine forall₂_of_getElem? same.symm fun position raw input isRaw isInput => ?_
    obtain ⟨output, read⟩ := exists_getElem?_of_length_eq length_eq isInput
    exact (each position output input raw read isInput isRaw).2.2.2
  pool := by
    intro layer member _ op kernel reduce _ _ _ _ _ isOp pools _ _ _ _ _ isValue isRaw near
    refine near.pool (pools.keepsNear (ordered.imp_right fun none isMaximum => ?_)) isRaw isValue
    exact none layer member (by rw [kind?_of_op? isOp, isMaximum])
  restored := by
    intro layer member value raw chain has hasRaw shape_eq addressable _ present
    obtain ⟨_, array, _, _, hasArray, array_shape, _⟩ := quantizes.exists_restored wellFormed
      shares.discovers apart shapes shares.values_eq restored present member has hasRaw shape_eq
      addressable
    exact ⟨array, hasArray, array_shape⟩

/-- Whatever has a value has one that follows it, after the subgraph has been quantized, unless a
maximum is taken where places are in the opposite order. -/
theorem SharesScale.exists_raw_of_keepsMaxima
    (shares : state.SharesScale policy shared levels narrowings moved chains final)
    (quantizes : state.graph.QuantizesTogether state.subgraph policy.updatePrecisions narrowings
      moved cache chains narrowed chained final.graph) (wellFormed : state.graph.WellFormed)
    (ordered : shared.KeepsMaxima state.graph state.subgraph)
    (real : state.subgraph.IsReal state.graph)
    (restored : shared.restoredType.isReal = true) (apart : state.subgraph.IsApart state.graph)
    (shapes : state.graph.HasConsistentShapes feeds)
    (has : state.graph.HasValue feeds id value) (stays : state.graph.Stays narrowed id) :
    ∃ raw, final.graph.HasValue feeds (moved id) raw ∧ state.subgraph.Follows shared
      (SharedScale.roundingError policy.updatePrecisions) id value raw := by
  have handsOn := shares.handsOn quantizes wellFormed ordered real restored apart shapes
  obtain ⟨raw, hasRaw, follows⟩ :=
    quantizes.exists_raw_of_handsOn wellFormed shares.discovers handsOn has stays
  exact ⟨raw, hasRaw, follows.shape_eq, follows.related⟩

theorem SharesScale.exists_raw
    (shares : state.SharesScale policy shared levels narrowings moved chains final)
    (quantizes : state.graph.QuantizesTogether state.subgraph policy.updatePrecisions narrowings
      moved cache chains narrowed chained final.graph) (wellFormed : state.graph.WellFormed)
    (increasing : SharedScale.AreIncreasing state.graph state.subgraph)
    (real : state.subgraph.IsReal state.graph)
    (restored : shared.restoredType.isReal = true) (apart : state.subgraph.IsApart state.graph)
    (shapes : state.graph.HasConsistentShapes feeds)
    (has : state.graph.HasValue feeds id value) (stays : state.graph.Stays narrowed id) :
    ∃ raw, final.graph.HasValue feeds (moved id) raw ∧ state.subgraph.Follows shared
      (SharedScale.roundingError policy.updatePrecisions) id value raw := by
  have positive := shares.serves.maps.scale_pos (shares.union_wide increasing)
  exact shares.exists_raw_of_keepsMaxima quantizes wellFormed (Or.inl positive) real restored
    apart shapes has stays

end Values

/-- Where one scale is found for a subgraph, what is read from it elsewhere moves by one scale at
most, and by half a scale where the images are not rounded, but for the shift that is dropped when
it is nearly zero. -/
theorem readsNear_of_runOn (wellFormed : state.graph.WellFormed)
    (constants : state.graph.ConstantsReadNothing)
    (kind : state.graph.kind? concat = some .concat)
    (around : Subgraph.around? registry state.graph concat = some state.subgraph)
    (increasing : SharedScale.AreIncreasing state.graph state.subgraph)
    (real : state.subgraph.IsReal state.graph) (apart : state.subgraph.IsApart state.graph)
    (shapes : state.graph.HasConsistentShapes feeds)
    (ran : (JointRevision.quantizeWithSharedScale policy).runOn state = (.ok true, final)) :
    ∃ shared, SharedScale.forSubgraph state.graph state.subgraph policy = .ok (some shared) ∧
      state.subgraph.ReadsNear state.graph final.graph feeds
        (((if policy.updatePrecisions then 1 else 1 / 2) + 1 / 10 ^ 6) * shared.scale) := by
  obtain ⟨shared, levels, narrowings, moved, chains, resolves, shares⟩ :=
    exists_sharesScale wellFormed constants kind around ran
  obtain ⟨cache, narrowed, chained, quantizes⟩ := shares.quantizes
  have restoring := isReal_restoredType resolves real
  refine ⟨shared, resolves, fun consumer outside position output value read isLayer has => ?_⟩
  have works := constants.works_of_read wellFormed read
  obtain ⟨raw, hasRaw, follows⟩ := shares.exists_raw quantizes wellFormed increasing real restoring
    apart shapes has (Or.inl (shares.discovers.layer_works isLayer))
  obtain ⟨restored, hasRestored, shape_eq, near⟩ := quantizes.exists_source wellFormed
    shares.discovers apart shapes shares.values_eq restoring
    (shares.serves.maps.scale_pos (shares.union_wide increasing)) works outside
    (List.mem_of_getElem? read) isLayer has hasRaw follows
  refine ⟨_, restored, ?_, hasRestored, shape_eq, near⟩
  rw [quantizes.inputs_of_outside shares.discovers works outside, List.getElem?_map, read,
    Option.map_some]

/-- Two fake quantizations of an image, a Concat of both, and a Concat of what is pooled from it. -/
def pooledParts : List (Draft Rat) :=
  let image := (NodeId.mk 0).output
  let zero := (NodeId.mk 1).output
  let high := (NodeId.mk 2).output
  let part := (NodeId.mk 3).output
  [{ op := .parameter, name := "image"
     declared := some { elementType := .f32, shape := [1, 1, 2, 2] } },
    (Op.constant (.scalar .f32 0)).draft "zero",
    (Op.constant (.scalar .f32 255)).draft "high",
    (Op.constant (.scalar .f32 100)).draft "part",
    ((Op.fakeQuantize 256).draft "whole").readOutputs [image, zero, high, zero, high],
    ((Op.fakeQuantize 256).draft "darker").readOutputs [image, zero, high, zero, part],
    ((Op.concat 1).draft "inner").readAll [NodeId.mk 4, NodeId.mk 5],
    ((Op.maxPool ⟨2, 2⟩).draft "brightest").readAll [NodeId.mk 6],
    ((Op.avgPool ⟨2, 2⟩).draft "average").readAll [NodeId.mk 6],
    ((Op.concat 1).draft "outer").readAll [NodeId.mk 7, NodeId.mk 8],
    (Op.result.draft "output").readAll [NodeId.mk 9],
    (Op.relu.draft "direct").readAll [NodeId.mk 5]]

def pooledSubgraph : Subgraph :=
  { quantizers := [NodeId.mk 4, NodeId.mk 5], concats := [NodeId.mk 9, NodeId.mk 6]
    layers := [NodeId.mk 9, NodeId.mk 7, NodeId.mk 6, NodeId.mk 4, NodeId.mk 5, NodeId.mk 8] }

set_option synthInstance.maxSize 4096 in
theorem readsNear_pooledParts :
    ∃ (graph : Graph Rat) (state final : JointState Rat) (feeds : Assignment Rat),
      Graph.empty.addAll pooledParts = .ok graph ∧
      state = { toRunState := .ofGraph graph, subgraph := pooledSubgraph } ∧
      state.graph.WellFormed ∧ state.graph.ConstantsReadNothing ∧
      state.graph.kind? (NodeId.mk 9) = some .concat ∧
      Subgraph.around? (.all {}) state.graph (NodeId.mk 9) = some state.subgraph ∧
      SharedScale.AreIncreasing state.graph state.subgraph ∧ state.subgraph.IsReal state.graph ∧
      state.subgraph.IsApart state.graph ∧ state.graph.HasConsistentShapes feeds ∧
      (JointRevision.quantizeWithSharedScale {}).runOn state = (.ok true, final) ∧
      ∃ shared, SharedScale.forSubgraph state.graph state.subgraph {} = .ok (some shared) ∧
        state.subgraph.ReadsNear state.graph final.graph feeds
          (((if ({} : Policy).updatePrecisions then 1 else 1 / 2) + 1 / 10 ^ 6) * shared.scale) := by
  let feeds : Assignment Rat :=
    Assignment.none.set (NodeId.mk 0) (.replicate [1, 1, 2, 2] 33)
  have ordered : ∀ draft ∈ pooledParts, draft.IsInOrder := by decide
  have undeclared : ∀ draft ∈ pooledParts,
      draft.op.kind ≠ .parameter → draft.declared = none := by decide
  have made : (Graph.empty.addAll pooledParts).map (fun graph =>
      let state : JointState Rat := { toRunState := .ofGraph graph, subgraph := pooledSubgraph }
      (graph.kind? (NodeId.mk 9),
        graph.nodeIds.all fun id => (graph.constant? id).isNone || (graph.inputs id).isEmpty,
        Subgraph.around? (.all {}) graph (NodeId.mk 9),
        decide (SharedScale.AreIncreasing graph pooledSubgraph),
        decide (pooledSubgraph.IsReal graph),
        decide (∀ quantizer ∈ pooledSubgraph.quantizers, ∀ output ∈ graph.inputs quantizer,
          graph.inputs output.node = [] ∧ output.node ∉ pooledSubgraph.layers),
        decide graph.IsEvaluable, decide (graph.IsFed feeds),
        ((JointRevision.quantizeWithSharedScale {}).runOn state).1)) =
      .ok (some .concat, true, some pooledSubgraph, true, true, true, true, true, .ok true) := by decide +kernel
  obtain ⟨graph, added, facts⟩ := Outcome.map_eq_ok.mp made
  simp only [Prod.mk.injEq] at facts
  obtain ⟨kind, constants, around, increasing, real, apart, evaluable, fed, changed⟩ := facts
  let state : JointState Rat := { toRunState := .ofGraph graph, subgraph := pooledSubgraph }
  have wellFormed : state.graph.WellFormed := Graph.wellFormed_empty.addAll ordered added
  have constants : state.graph.ConstantsReadNothing := constantsReadNothing_of_all constants
  have increasing : SharedScale.AreIncreasing state.graph state.subgraph :=
    of_decide_eq_true increasing
  have real : state.subgraph.IsReal state.graph := of_decide_eq_true real
  have apart : state.subgraph.IsApart state.graph :=
    Subgraph.isApart_of_inputs (of_decide_eq_true apart)
  have inferred := Graph.isInferred_empty.addAll Graph.wellFormed_empty ordered undeclared added
  have shapes : state.graph.HasConsistentShapes feeds :=
    inferred.hasConsistentShapes wellFormed (of_decide_eq_true evaluable) (of_decide_eq_true fed)
  have ran : (JointRevision.quantizeWithSharedScale {}).runOn state = (.ok true, _) :=
    Prod.ext changed rfl
  exact ⟨graph, state, _, feeds, added, rfl, wellFormed, constants, kind, around, increasing, real,
    apart, shapes, ran, readsNear_of_runOn wellFormed constants kind around increasing real apart
      shapes ran⟩

/-- One scale is found for the subgraph around a Concat, no fake quantization of which reads a
layer, and yet something that is read from it elsewhere moves by more than a scale. -/
def MovesFar (drafts : List (Draft Rat)) (concat : NodeId) (feeds : Assignment Rat) : Prop :=
  ∃ (graph : Graph Rat) (state final : JointState Rat) (shared : SharedScale Rat),
    Graph.empty.addAll drafts = .ok graph ∧ state.toRunState = .ofGraph graph ∧
    state.graph.kind? concat = some .concat ∧
    Subgraph.around? (.all {}) state.graph concat = some state.subgraph ∧
    SharedScale.AreIncreasing state.graph state.subgraph ∧ state.subgraph.IsReal state.graph ∧
    (∀ quantizer ∈ state.subgraph.quantizers, ∀ layer ∈ state.subgraph.layers,
      ¬ state.graph.Reads layer quantizer) ∧
    state.graph.HasConsistentShapes feeds ∧
    (JointRevision.quantizeWithSharedScale {}).runOn state = (.ok true, final) ∧
    SharedScale.forSubgraph state.graph state.subgraph {} = .ok (some shared) ∧
    ¬ state.subgraph.ReadsNear state.graph final.graph feeds ((1 + 1 / 10 ^ 6) * shared.scale)

theorem movesFar_of_values {drafts : List (Draft Rat)} {subgraph : Subgraph} {consumer : NodeId}
    {position : Nat} {output source : Output} {shape : Shape} {index : Index}
    {scale number moved : Rat}
    (made : (Graph.empty.addAll drafts).map (fun graph =>
      let state : JointState Rat := { toRunState := .ofGraph graph, subgraph := subgraph }
      let ran := (JointRevision.quantizeWithSharedScale {}).runOn state
      (graph.kind? concat, Subgraph.around? (.all {}) graph concat,
        decide (SharedScale.AreIncreasing graph subgraph), decide (subgraph.IsReal graph),
        decide (∀ quantizer ∈ subgraph.quantizers, ∀ output ∈ graph.inputs quantizer,
          output.node ∉ subgraph.layers),
        ran.1, (graph.inputs consumer)[position]?, (ran.2.graph.inputs consumer)[position]?)) =
      .ok (some .concat, some subgraph, true, true, true, .ok true, some output, some source))
    (valued : (Graph.empty.addAll drafts).map (fun graph =>
      let state : JointState Rat := { toRunState := .ofGraph graph, subgraph := subgraph }
      let ran := (JointRevision.quantizeWithSharedScale {}).runOn state
      ((SharedScale.forSubgraph graph subgraph {}).map (Option.map SharedScale.scale),
        (graph.evaluate feeds).map fun values =>
          (graph.fitsValues values, (values output.node).map fun value => (value.shape, value.get index)),
        (ran.2.graph.evaluate feeds).map fun values =>
          (values source.node).map fun value => value.get index)) =
      .ok (.ok (some scale), .ok (true, some (shape, number)), .ok (some moved)))
    (outside : consumer ∉ subgraph.layers) (isLayer : output.node ∈ subgraph.layers)
    (holds : shape.Holds index) (far : (1 + 1 / 10 ^ 6) * scale < |moved - number|) :
    MovesFar drafts concat feeds := by
  obtain ⟨graph, added, facts⟩ := Outcome.map_eq_ok.mp made
  simp only [Prod.mk.injEq] at facts
  obtain ⟨kind, around, increasing, real, apart, changed, read, readsLater⟩ := facts
  rw [added] at valued
  obtain ⟨mapped, valued⟩ := Prod.mk.inj (Except.ok.inj valued)
  obtain ⟨earlier, later⟩ := Prod.mk.inj valued
  obtain ⟨found, resolves, isScale⟩ := Outcome.map_eq_ok.mp mapped
  obtain ⟨shared, rfl, rfl⟩ := Option.map_eq_some_iff.mp isScale
  obtain ⟨values, evaluated, facts⟩ := Outcome.map_eq_ok.mp earlier
  obtain ⟨fits, given⟩ := Prod.mk.inj facts
  obtain ⟨value, isValue, equal⟩ := Option.map_eq_some_iff.mp given
  obtain ⟨rfl, rfl⟩ := Prod.mk.inj equal
  obtain ⟨values', evaluated', given⟩ := Outcome.map_eq_ok.mp later
  obtain ⟨value', isValue', rfl⟩ := Option.map_eq_some_iff.mp given
  refine ⟨graph, { toRunState := .ofGraph graph, subgraph := subgraph }, _, shared, added, rfl, kind,
    around, of_decide_eq_true increasing, of_decide_eq_true real, ?_,
    hasConsistentShapes_of_evaluate evaluated fits, Prod.ext changed rfl,
    resolves, fun near => ?_⟩
  · intro quantizer member layer inside reads
    obtain ⟨output, listed, rfl⟩ := reads_iff_mem_inputs.mp reads
    exact of_decide_eq_true apart quantizer member output listed inside
  · obtain ⟨source', restored, readsSource, has, _, close⟩ := near consumer outside position output
      value read isLayer (hasValue_of_evaluate evaluated isValue)
    cases Option.some.inj (readsLater.symm.trans readsSource)
    cases has.unique (hasValue_of_evaluate evaluated' isValue')
    exact absurd (close index holds) (not_le.mpr far)

/-- Two fake quantizations, the one of what the other gives but for a Relu in between, and a Concat
of both. -/
def dependentParts : List (Draft Rat) :=
  let zero := (NodeId.mk 1).output
  let full := (NodeId.mk 2).output
  let hundred := (NodeId.mk 3).output
  let one := (NodeId.mk 4).output
  [{ op := .parameter, name := "pixel"
     declared := some { elementType := .f32, shape := [1, 1, 1, 1] } },
    (Op.constant (.scalar .f32 0)).draft "zero",
    (Op.constant (.scalar .f32 255)).draft "full",
    (Op.constant (.scalar .f32 100)).draft "hundred",
    (Op.constant (.scalar .f32 1)).draft "one",
    ((Op.fakeQuantize 256).draft "first").readOutputs
      [(NodeId.mk 0).output, zero, full, zero, hundred],
    (Op.relu.draft "middle").readAll [NodeId.mk 5],
    ((Op.fakeQuantize 256).draft "second").readOutputs
      [(NodeId.mk 6).output, zero, one, zero, full],
    ((Op.concat 1).draft "joined").readAll [NodeId.mk 5, NodeId.mk 7],
    (Op.result.draft "output").readAll [NodeId.mk 8]]

/-- A fake quantization that reads nothing on its first slot. -/
def shiftedSlots : List (Draft Rat) :=
  [(Op.constant { elementType := .f32, values := .replicate [1, 1, 1, 1] (50 : Rat) }).draft "pixel",
    (Op.constant (.scalar .f32 0)).draft "zero",
    (Op.constant (.scalar .f32 100)).draft "hundred",
    (Op.constant (.scalar .f32 255)).draft "full",
    (Op.constant (.scalar .f32 510)).draft "wide",
    (((((((Op.fakeQuantize 256).draft "first").input (NodeId.mk 0).output 1).input
      (NodeId.mk 1).output 2).input (NodeId.mk 2).output 3).input (NodeId.mk 3).output 4).input
      (NodeId.mk 4).output 5),
    ((Op.concat 1).draft "joined").readAll [NodeId.mk 5],
    (Op.result.draft "output").readAll [NodeId.mk 6]]

/-- An output limit that reads a Concat, though it is a constant. -/
def readingLimit : List (Draft Rat) :=
  let pixel := (NodeId.mk 0).output
  let zero := (NodeId.mk 1).output
  let wide := (NodeId.mk 2).output
  [{ op := .parameter, name := "pixel"
     declared := some { elementType := .f32, shape := [1, 1, 1, 1] } },
    (Op.constant (.scalar .f32 0)).draft "zero",
    (Op.constant (.scalar .f32 510)).draft "wide",
    (Op.constant (.scalar .f32 7)).draft "spare",
    (Op.constant (.scalar .f32 7)).draft "other",
    ((Op.fakeQuantize 256).draft "second").readOutputs [pixel, zero, wide, zero, wide],
    ((Op.concat 1).draft "lone").readAll [NodeId.mk 5],
    ((Op.constant (.scalar .f32 0)).draft "low").readAll [NodeId.mk 6, NodeId.mk 3, NodeId.mk 4],
    ((Op.fakeQuantize 256).draft "first").readOutputs
      [pixel, zero, wide, (NodeId.mk 7).output, wide],
    ((Op.concat 1).draft "joined").readAll [NodeId.mk 8, NodeId.mk 5],
    (Op.result.draft "output").readAll [NodeId.mk 9],
    (Op.result.draft "side").readAll [NodeId.mk 5]]

set_option synthInstance.maxSize 4096 in
/-- Bounds on how far values move ask for more than fake quantizations that read no layers. They
must not depend on layers in another way, every node must read on its first slots, and constants
must not read. -/
theorem movesFar_dependentParts_and_shiftedSlots_and_readingLimit :
    MovesFar dependentParts (NodeId.mk 8)
        (Assignment.none.set (NodeId.mk 0) (.replicate [1, 1, 1, 1] 1)) ∧
      MovesFar shiftedSlots (NodeId.mk 6) Assignment.none ∧
      MovesFar readingLimit (NodeId.mk 9)
        (Assignment.none.set (NodeId.mk 0) (.replicate [1, 1, 1, 1] 100)) := by
  refine ⟨?_, ?_, ?_⟩
  · exact @movesFar_of_values _ _ _
      { quantizers := [NodeId.mk 5, NodeId.mk 7], concats := [NodeId.mk 8]
        layers := [NodeId.mk 8, NodeId.mk 5, NodeId.mk 7] }
      (NodeId.mk 9) 0 (NodeId.mk 8).output (NodeId.mk 15).output [1, 2, 1, 1] [0, 1, 0, 0] 1 100 0
      (by decide +kernel) (by decide +kernel) (by decide) (by decide) (by simp [Shape.Holds]) (by norm_num)
  · exact @movesFar_of_values _ _ _
      { quantizers := [NodeId.mk 5], concats := [NodeId.mk 6]
        layers := [NodeId.mk 6, NodeId.mk 5] }
      (NodeId.mk 7) 0 (NodeId.mk 6).output (NodeId.mk 12).output [1, 1, 1, 1] [0, 0, 0, 0]
      (31 / 51) 383 (9068 / 51)
      (by decide +kernel) (by decide +kernel) (by decide) (by decide) (by simp [Shape.Holds]) (by norm_num)
  · exact @movesFar_of_values _ _ _
      { quantizers := [NodeId.mk 8, NodeId.mk 5], concats := [NodeId.mk 9, NodeId.mk 6]
        layers := [NodeId.mk 9, NodeId.mk 8, NodeId.mk 5, NodeId.mk 6] }
      (NodeId.mk 11) 0 (NodeId.mk 5).output (NodeId.mk 17).output [1, 1, 1, 1] [0, 0, 0, 0] 2 100 200
      (by decide +kernel) (by decide +kernel) (by decide) (by decide) (by simp [Shape.Holds]) (by norm_num)

end JointState

end QuantGraph
