import Mathlib
import QuantGraph.Proofs.Joint.Carried

/-! The raw values of a subgraph that has been quantized with one scale. They lie by a unit at most
beside the places of the values that there were before, and by half a unit where nothing but limits
is rounded. Concats and pooling keep them as near as that. -/

namespace QuantGraph

namespace SharedScale

variable {shared : SharedScale Rat} {levels : Nat} {policy : Policy}

/-- By how many units rounding moves a value: limits are rounded, and so are the images if their
type is integral. -/
def roundingError (rounding : Bool) : Rat := if rounding then 1 else 1 / 2

theorem abs_integerFor_sub_le (shared : SharedScale Rat) (value : Rat) :
    |shared.integerFor value - shared.position value| ≤ 1 / 2 :=
  Exact.abs_round_sub_le _

/-- Limits that are rounded move an image by half a unit at most, and rounding the image adds
another half. -/
theorem abs_quantize_sub_le (shared : SharedScale Rat) (enough : 2 ≤ levels)
    (inputLow inputHigh low high value : Rat) (rounding : Bool) :
    |(Interval.mk inputLow inputHigh (shared.integerFor low) (shared.integerFor high)).quantize
        levels rounding value -
      shared.position ((Interval.mk inputLow inputHigh low high).project levels value)| ≤
        roundingError rounding := by
  obtain ⟨step, bound, project⟩ := Interval.exists_step enough inputLow inputHigh value
  have positive : (0 : Rat) < (levels - 1 : Nat) := by exact_mod_cast Nat.sub_pos_of_lt enough
  have share_nonneg : 0 ≤ (step : Rat) / (levels - 1 : Nat) := by positivity
  have share_le : (step : Rat) / (levels - 1 : Nat) ≤ 1 :=
    (div_le_one positive).mpr (by exact_mod_cast bound)
  have near : |(Interval.mk inputLow inputHigh (shared.integerFor low)
        (shared.integerFor high)).project levels value -
      shared.position ((Interval.mk inputLow inputHigh low high).project levels value)| ≤ 1 / 2 := by
    have below := abs_sub_le_iff.mp (shared.abs_integerFor_sub_le low)
    have above := abs_sub_le_iff.mp (shared.abs_integerFor_sub_le high)
    rw [project, project]
    generalize (step : Rat) / (levels - 1 : Nat) = share at share_nonneg share_le
    have affine : shared.position (low + share * (high - low)) =
        (1 - share) * shared.position low + share * shared.position high := by
      unfold position
      ring
    rw [affine, abs_sub_le_iff]
    constructor <;> nlinarith
  cases rounding with
  | false => exact near
  | true =>
      have rounded := Exact.abs_round_sub_le ((Interval.mk inputLow inputHigh
        (shared.integerFor low) (shared.integerFor high)).project levels value)
      refine (abs_sub_le _ _ _).trans ((add_le_add rounded near).trans ?_)
      norm_num [roundingError]

theorem roundingError_le {rounding rounding' : Bool} (less : rounding = true → rounding' = true) :
    roundingError rounding ≤ roundingError rounding' := by
  cases rounding with
  | true => rw [less rfl]
  | false => cases rounding' <;> norm_num [roundingError]

end SharedScale

namespace NDArray

theorem getElem?_toList_stretchedIndex [Scalar α] {array : NDArray α} {shape : Shape} {index : Index}
    (stretches : array.shape.StretchesTo shape) (holds : shape.Holds index) :
    array.toList[array.shape.offset (array.shape.stretchedIndex index)]? = some (array.read index) := by
  rw [← read_stretchedIndex (Shape.stretchesTo_refl _) stretches holds]
  exact getElem?_toList_offset (holds.stretchedIndex stretches)

/-- What repeats one number is read as it. -/
theorem read_of_replicate [Scalar α] {array : NDArray α} {count : Nat} {number : α} {shape : Shape}
    {index : Index} (replicated : array.toList = List.replicate count number)
    (stretches : array.shape.StretchesTo shape) (holds : shape.Holds index) :
    array.read index = number := by
  have listed := List.mem_of_getElem? (getElem?_toList_stretchedIndex stretches holds)
  rw [replicated] at listed
  exact List.eq_of_mem_replicate listed

theorem Approximates.mono {raw value : NDArray Rat} {place : Rat → Rat} {bound bound' : Rat}
    (near : raw.Approximates value place bound) (le : bound ≤ bound') :
    raw.Approximates value place bound' :=
  ⟨near.shape_eq, fun index holds => (near.near index holds).trans le⟩

end NDArray

/-- With output limits that are the integers for two numbers, data are quantized to what lies near
the places of what they are quantized to between the numbers. -/
theorem SharedScale.approximates_quantize (shared : SharedScale Rat) {levels : Nat}
    (enough : 2 ≤ levels) (datum : NDArray Rat) {limits : LimitArrays Rat} {shape : Shape}
    {low high : Rat} {lows highs : Nat}
    (isLow : limits.outputLow.toList = List.replicate lows low)
    (isHigh : limits.outputHigh.toList = List.replicate highs high)
    (stretch : ∀ limit ∈ limits.toList, limit.shape.StretchesTo shape) (rounding : Bool) :
    (LimitArrays.quantize ⟨limits.inputLow, limits.inputHigh, .scalar (shared.integerFor low),
      .scalar (shared.integerFor high)⟩ levels rounding datum shape).Approximates
        (limits.quantize levels false datum shape) shared.position (roundingError rounding) := by
  refine ⟨rfl, fun index holds => ?_⟩
  have holds : shape.Holds index := holds
  have low_eq : limits.outputLow.read index = low :=
    NDArray.read_of_replicate isLow (stretch _ (by simp [LimitArrays.toList])) holds
  have high_eq : limits.outputHigh.read index = high :=
    NDArray.read_of_replicate isHigh (stretch _ (by simp [LimitArrays.toList])) holds
  have between : limits.intervalAt index =
      Interval.mk (limits.inputLow.read index) (limits.inputHigh.read index) low high := by
    rw [← low_eq, ← high_eq]
    rfl
  rw [LimitArrays.quantize, LimitArrays.quantize, NDArray.get_ofFn holds, NDArray.get_ofFn holds,
    between]
  exact shared.abs_quantize_sub_le enough (limits.inputLow.read index)
    (limits.inputHigh.read index) low high (datum.read index) rounding

/-- Output limits that are read as one number have it as every element of their values. -/
theorem QuantizationLimits.HasOutputs.replicated {graph : Graph Rat} {id : NodeId}
    {limits : QuantizationLimits Rat} {low high : Rat} {view : FakeQuantizeNode Rat}
    {feeds : Assignment Rat} {outputLow outputHigh : NDArray Rat}
    (outputs : limits.HasOutputs low high) (found : graph.quantizationLimits? id = some limits)
    (constant : graph.HasConstantLimits id) (exact : graph.HasExactSlots id)
    (isView : graph.fakeQuantizeNode id = .ok view)
    (hasLow : graph.HasValue feeds view.outputLow.node outputLow)
    (hasHigh : graph.HasValue feeds view.outputHigh.node outputHigh) :
    (∃ count, outputLow.toList = List.replicate count low) ∧
      ∃ count, outputHigh.toList = List.replicate count high := by
  obtain ⟨_, _, inputs⟩ := Graph.fakeQuantizeNode_eq_ok isView
  obtain ⟨lowest, isLowest⟩ := constant .outputLow
  obtain ⟨highest, isHighest⟩ := constant .outputHigh
  obtain ⟨lows, highs⟩ := Graph.outputLimits_of_quantizationLimits? found isLowest isHighest
  rw [Graph.limit?_of_read exact (by rw [inputs]; rfl)] at isLowest isHighest
  rw [hasLow.eq_of_constant isLowest, hasHigh.eq_of_constant isHighest]
  obtain ⟨lowCount, replicatedLow⟩ := outputs.low
  obtain ⟨highCount, replicatedHigh⟩ := outputs.high
  exact ⟨⟨_, lows.symm.trans replicatedLow⟩, _, highs.symm.trans replicatedHigh⟩

/-- The images of a real fake quantization are rounded only if precisions are declared. -/
theorem SharedScale.IsShare.updatePrecisions_eq {shared : SharedScale Rat} {graph : Graph Rat}
    {policy : Policy} {narrowing : Narrowing Rat} {limits : QuantizationLimits Rat} {low high : Rat}
    {node : Node Rat} (share : shared.IsShare graph policy narrowing limits low high)
    (found : graph.node? narrowing.id = some node) (real : node.elementType.isReal = true)
    (integral : narrowing.precision.isIntegral = true) : policy.updatePrecisions = true := by
  rw [share.precision_eq, Graph.elementType?, found, Option.map_some, Option.getD_some] at integral
  split at integral
  case isTrue declared => exact declared
  case isFalse =>
    rw [ElementType.isIntegral, real] at integral
    cases integral

/-- Every fake quantization of a subgraph has a real type. -/
def Subgraph.IsReal (subgraph : Subgraph) (graph : Graph α) : Prop :=
  ∀ quantizer ∈ subgraph.quantizers, ∀ type, graph.elementType? quantizer = some type →
    type.isReal = true

instance (subgraph : Subgraph) (graph : Graph α) : Decidable (subgraph.IsReal graph) :=
  inferInstanceAs (Decidable (∀ quantizer ∈ subgraph.quantizers,
    ∀ type ∈ graph.elementType? quantizer, type.isReal = true))

/-- A value has followed another for a node: it has the same shape, and behind a layer it lies
near the places of what was there. -/
structure Subgraph.Follows (subgraph : Subgraph) (shared : SharedScale Rat) (bound : Rat)
    (id : NodeId) (value raw : NDArray Rat) : Prop where
  shape_eq : raw.shape = value.shape
  near : id ∈ subgraph.layers →
    value.shape.IsAddressable ∧ raw.Approximates value shared.position bound

/-- A value has followed another for a node: it has the same shape, and behind a layer the two are
related. -/
structure Subgraph.FollowsBy (subgraph : Subgraph)
    (related : NodeId → NDArray Rat → NDArray Rat → Prop) (id : NodeId) (value raw : NDArray Rat) :
    Prop where
  shape_eq : raw.shape = value.shape
  related : id ∈ subgraph.layers → value.shape.IsAddressable ∧ related id value raw

/-- The places of values are in the order of the values, or no maximum is taken in the subgraph. -/
def SharedScale.KeepsMaxima (shared : SharedScale Rat) (graph : Graph Rat) (subgraph : Subgraph) :
    Prop :=
  0 < shared.scale ∨ ∀ layer ∈ subgraph.layers, graph.kind? layer ≠ some .maxPool

/-- Pooling keeps what is pooled near its places, but for a maximum where places are in the
opposite order. -/
theorem Op.Pools.keepsNear {op : Op Rat} {kernel : Kernel} {reduce : List Rat → Rat}
    {shared : SharedScale Rat} {bound : Rat} (pools : op.Pools kernel reduce)
    (ordered : 0 < shared.scale ∨ op.kind ≠ .maxPool) :
    NDArray.KeepsNear reduce shared.position bound := by
  rcases pools with ⟨rfl, rfl⟩ | ⟨_, rfl⟩
  · exact NDArray.keepsNear_largest (SharedScale.monotone_position
      (ordered.resolve_right fun other => other rfl))
  · exact NDArray.keepsNear_mean

namespace Graph

/-- A node is an operation, or a constant that is still there. -/
def Stays (before after : Graph α) (id : NodeId) : Prop :=
  before.Works id ∨
    ∃ tensor, before.constant? id = some tensor ∧ after.node? id = before.node? id

namespace QuantizesTogether

/-! ## What stays -/

section Staying

variable [Scalar α] {before narrowed chained after : Graph α} {subgraph : Subgraph}
  {withConvert : Bool} {narrowings : List (Narrowing α)} {moved : NodeId → NodeId}
  {cache : DequantizationCache α} {chains : NodeId → Option DequantizationChain} {id : NodeId}
  (quantizes : before.QuantizesTogether subgraph withConvert narrowings moved cache chains narrowed
    chained after)

include quantizes

theorem op?_eq (live : narrowed.contains id = true) : after.op? id = narrowed.op? id :=
  (quantizes.same id).1.trans (op?_congr (quantizes.dequantizes.node_eq id live))

theorem moved_constant (discovers : Subgraph.Discovers before [] subgraph) {tensor : Tensor α}
    (constant : before.constant? id = some tensor) : moved id = id :=
  quantizes.moved_other fun listed =>
    works_of_constant?_ne (discovers.quantizer_works listed) constant rfl

/-- Constants stay but for the output limits of fake quantizations. -/
theorem stays_of_read (wellFormed : before.WellFormed) {reader : NodeId}
    (works : before.Works reader) {position : Nat} {output : Output}
    (early : reader ∈ subgraph.quantizers → position < 3)
    (read : (before.inputs reader)[position]? = some output) :
    before.Stays narrowed output.node := by
  have live := (wellFormed.consistent.reads_live
    (reads_of_mem_inputs (List.mem_of_getElem? read))).1
  cases constant : before.constant? output.node with
  | none => exact Or.inl ⟨live, constant⟩
  | some tensor =>
      exact Or.inr ⟨tensor, constant, quantizes.requantizes.constant_kept reader position output
        tensor works read (fun listed => early (quantizes.ids_eq ▸ listed)) constant⟩

theorem hasValue_of_narrowed_constant {feeds : Assignment α} {tensor : Tensor α}
    (constant : narrowed.constant? id = some tensor) : after.HasValue feeds id tensor.values := by
  have live := contains_of_constant? constant
  refine hasValue_of_constant ((quantizes.op?_eq live).trans (constant?_eq_some_iff.mp constant)) ?_
  rw [(quantizes.same id).2, quantizes.dequantizes.inputs_eq id live,
    quantizes.requantizes.constants id tensor constant, List.map_nil, ite_self]

/-- A node that is no fake quantization of the subgraph computes what it computed. -/
theorem exists_node (works : before.Works id) (outside : id ∉ subgraph.quantizers) {node : Node α}
    (found : before.node? id = some node) :
    ∃ later, after.node? id = some later ∧ ∀ inputs feed,
      later.op.evaluate later.elementType.isIntegral inputs feed =
        node.op.evaluate node.elementType.isIntegral inputs feed := by
  have untouched : id ∉ narrowings.map Narrowing.id := quantizes.ids_eq ▸ outside
  have live : narrowed.contains id = true :=
    quantizes.moved_other outside ▸ (quantizes.requantizes.works_moved works).1
  have earlier : chained.node? id = some node := by
    rw [quantizes.dequantizes.node_eq id live, quantizes.requantizes.node_other id works untouched,
      found]
  have isOp : after.op? id = some node.op := by
    rw [(quantizes.same id).1, op?, earlier, Option.map_some]
  obtain ⟨later, isLater, op_eq⟩ := Option.map_eq_some_iff.mp isOp
  refine ⟨later, isLater, fun inputs feed => ?_⟩
  by_cases kind : node.op.kind = .fakeQuantize
  · have isKind : chained.kind? id = some .fakeQuantize := by
      rw [kind?, earlier, Option.map_some, Node.kind, kind]
    cases Option.some.inj (isLater.symm.trans ((quantizes.quantizer_eq id isKind).trans earlier))
    rfl
  · rw [op_eq]
    exact Op.evaluate_integral_congr kind

theorem inputs_of_layer (discovers : Subgraph.Discovers before [] subgraph)
    (member : id ∈ subgraph.layers) (outside : id ∉ subgraph.quantizers) :
    after.inputs id = (before.inputs id).map (relocated moved) := by
  have works := discovers.layer_works member
  have same := quantizes.moved_other outside
  rw [(quantizes.same id).2, quantizes.dequantizes.inputs_eq id
    (same ▸ (quantizes.requantizes.works_moved works).1),
    if_pos (same ▸ (quantizes.contains_moved discovers works).mpr member),
    quantizes.requantizes.inputs_other id works (quantizes.ids_eq ▸ outside)]

theorem not_contains_of_outside (discovers : Subgraph.Discovers before [] subgraph)
    (works : before.Works id) (outside : id ∉ subgraph.layers) :
    moved id = id ∧ id ∉ narrowings.map Narrowing.id ∧
      (subgraph.relocate moved).contains id = false := by
  have untouched : id ∉ subgraph.quantizers := fun listed =>
    outside (discovers.quantizer_layer id listed).1
  have same := quantizes.moved_other untouched
  refine ⟨same, quantizes.ids_eq ▸ untouched, Bool.eq_false_iff.mpr fun inside => ?_⟩
  exact outside ((quantizes.contains_moved discovers works).mp (same.symm ▸ inside))

theorem inputs_of_outside (discovers : Subgraph.Discovers before [] subgraph)
    (works : before.Works id) (outside : id ∉ subgraph.layers) :
    after.inputs id = (before.inputs id).map fun output =>
      dequantized chains (relocated moved output) := by
  obtain ⟨same, untouched, not_member⟩ := quantizes.not_contains_of_outside discovers works outside
  rw [(quantizes.same id).2, quantizes.dequantizes.inputs_eq id
    (same ▸ (quantizes.requantizes.works_moved works).1), if_neg (by simp [not_member]),
    quantizes.requantizes.inputs_other id works untouched, List.map_map]
  rfl

/-- A layer that is read from outside of the subgraph has a chain. -/
theorem exists_chain (discovers : Subgraph.Discovers before [] subgraph)
    (works : before.Works id) (outside : id ∉ subgraph.layers) {output : Output}
    (read : output ∈ before.inputs id) (isLayer : output.node ∈ subgraph.layers) :
    ∃ chain, chains (moved output.node) = some chain := by
  obtain ⟨_, untouched, not_member⟩ := quantizes.not_contains_of_outside discovers works outside
  have listed : relocated moved output ∈ narrowed.inputs id := by
    rw [quantizes.requantizes.inputs_other id works untouched]
    exact List.mem_map_of_mem read
  exact (quantizes.dequantizes.chained_iff _).mpr
    ⟨List.mem_map_of_mem isLayer, id, reads_of_mem_inputs listed, not_member⟩

/-- What is no layer is read where it is. -/
theorem dequantized_of_outside (discovers : Subgraph.Discovers before [] subgraph)
    {output : Output} (stays : before.Stays narrowed output.node)
    (outside : output.node ∉ subgraph.layers) :
    dequantized chains (relocated moved output) = output := by
  have same : moved output.node = output.node :=
    quantizes.moved_other fun listed => outside (discovers.quantizer_layer _ listed).1
  rw [relocated_of_moved_eq same]
  refine dequantized_of_none (Option.eq_none_iff_forall_ne_some.mpr fun chain present => ?_)
  obtain ⟨member, _⟩ := (quantizes.dequantizes.chained_iff _).mp ⟨chain, present⟩
  obtain ⟨layer, isLayer, equal⟩ := List.mem_map.mp member
  have layer_works := discovers.layer_works isLayer
  rcases stays with works | ⟨tensor, constant, kept⟩
  · have equal := quantizes.requantizes.injective _ _ layer_works works (equal.trans same.symm)
    exact outside (equal ▸ isLayer)
  · have working := (quantizes.requantizes.works_moved layer_works).2
    rw [equal, constant?_congr kept, constant] at working
    cases working

/-- A value that does not depend on the layers stays what it was. -/
theorem hasValue_of_independent (wellFormed : before.WellFormed)
    (discovers : Subgraph.Discovers before [] subgraph) {feeds : Assignment α} {value : NDArray α}
    (has : before.HasValue feeds id value) (stays : before.Stays narrowed id)
    (independent : ∀ layer ∈ subgraph.layers, before.Independent layer id) :
    after.HasValue feeds id value := by
  induction has with
  | @compute id node inputs value found length_eq known computed induction =>
      rcases stays with works | ⟨tensor, constant, kept⟩
      · have outside : id ∉ subgraph.layers := fun member =>
          independent id member Relation.ReflTransGen.refl
        have untouched : id ∉ subgraph.quantizers := fun listed =>
          outside (discovers.quantizer_layer id listed).1
        have source {position : Nat} {output : Output}
            (read : (before.inputs id)[position]? = some output) :
            before.Stays narrowed output.node ∧
              ∀ layer ∈ subgraph.layers, before.Independent layer output.node :=
          ⟨quantizes.stays_of_read wellFormed works (fun listed => absurd listed untouched) read,
            fun layer member => (independent layer member).of_reads
              (reads_of_mem_inputs (List.mem_of_getElem? read))⟩
        have inputs_eq : after.inputs id = before.inputs id := by
          rw [quantizes.inputs_of_outside discovers works outside]
          refine (List.map_congr_left fun output member => ?_).trans (List.map_id _)
          obtain ⟨position, read⟩ := List.mem_iff_getElem?.mp member
          obtain ⟨stays, independent⟩ := source read
          exact quantizes.dequantized_of_outside discovers stays fun isLayer =>
            independent _ isLayer Relation.ReflTransGen.refl
        obtain ⟨later, isLater, evaluates⟩ := quantizes.exists_node works untouched found
        refine .compute isLater (inputs_eq ▸ length_eq) (fun position output input read given => ?_)
          ((evaluates inputs (feeds id)).trans computed)
        rw [inputs_eq] at read
        exact induction position output input read given (source read).1 (source read).2
      · have has : before.HasValue feeds id value := .compute found length_eq known computed
        rw [has.eq_of_constant constant]
        exact quantizes.hasValue_of_narrowed_constant ((constant?_congr kept).trans constant)

end Staying

section Nodes

variable [Scalar α] {graph : Graph α} {feeds : Assignment α} {outputs : List Output}
  {inputs : List (NDArray α)}

/-- When other outputs have values in place of those that are read, they make inputs. -/
theorem exists_derives (next : Output → Output) (holds : Output → NDArray α → NDArray α → Prop)
    (length_eq : outputs.length = inputs.length)
    (each : ∀ (position : Nat) output input, outputs[position]? = some output →
      inputs[position]? = some input →
      ∃ raw, graph.HasValue feeds (next output).node raw ∧ holds output input raw) :
    ∃ raws, graph.Derives feeds (outputs.map next) raws ∧ inputs.length = raws.length ∧
      ∀ (position : Nat) output input raw, outputs[position]? = some output →
        inputs[position]? = some input → raws[position]? = some raw → holds output input raw := by
  induction outputs generalizing inputs with
  | nil =>
      rw [List.length_eq_zero_iff.mp length_eq.symm]
      exact ⟨[], .nil, rfl, by simp⟩
  | cons output rest induction =>
      obtain ⟨input, others, rfl⟩ := List.exists_cons_of_length_eq_add_one length_eq.symm
      obtain ⟨raw, has, held⟩ := each 0 output input rfl rfl
      obtain ⟨raws, derives, same, all⟩ :=
        induction (Nat.succ.inj length_eq) fun position => each (position + 1)
      refine ⟨raw :: raws, .cons has derives, congrArg Nat.succ same, ?_⟩
      rintro (_ | position) output' input' raw' read given isRaw
      · cases Option.some.inj read
        cases Option.some.inj given
        cases Option.some.inj isRaw
        exact held
      · exact all position output' input' raw' read given isRaw

omit [Scalar α] in
theorem map_shape_of_getElem? {raws : List (NDArray α)} (length_eq : outputs.length = inputs.length)
    (same : inputs.length = raws.length)
    (each : ∀ (position : Nat) output input raw, outputs[position]? = some output →
      inputs[position]? = some input → raws[position]? = some raw → raw.shape = input.shape) :
    inputs.map NDArray.shape = raws.map NDArray.shape := by
  rw [← List.forall₂_eq_eq_eq, List.forall₂_map_left_iff, List.forall₂_map_right_iff]
  refine forall₂_of_getElem? same fun position input raw isInput isRaw => ?_
  obtain ⟨output, read⟩ := exists_getElem?_of_length_eq length_eq isInput
  exact (each position output input raw read isInput isRaw).symm

end Nodes

/-! ## Raw values -/

section Raw

variable {before narrowed chained after : Graph Rat} {subgraph : Subgraph}
  {withConvert : Bool} {narrowings : List (Narrowing Rat)} {moved : NodeId → NodeId}
  {cache : DequantizationCache Rat} {chains : NodeId → Option DequantizationChain} {id : NodeId}
  {shared : SharedScale Rat} {policy : Policy} {feeds : Assignment Rat} {value raw : NDArray Rat}
  (quantizes : before.QuantizesTogether subgraph withConvert narrowings moved cache chains narrowed
    chained after) (wellFormed : before.WellFormed)
  (discovers : Subgraph.Discovers before [] subgraph) (apart : subgraph.IsApart before)
  (shapes : before.HasConsistentShapes feeds)

include quantizes

/-- The chain behind a layer makes of its raw values what the dequantization makes of them that is
carried there. -/
theorem exists_restored_of_carried {layer : NodeId} {chain : DequantizationChain}
    (carries : ∀ middle values, narrowed.KeepsMembers (subgraph.relocate moved) middle →
      middle.carriedDequantization cache [] (moved layer) = .ok values →
        values.restoredType.isReal = true ∧ values.StretchesTo value.shape)
    (present : chains (moved layer) = some chain)
    (hasRaw : after.HasValue feeds (moved layer) raw) (shape_eq : raw.shape = value.shape)
    (addressable : value.shape.IsAddressable) :
    ∃ values middle restored, narrowed.KeepsMembers (subgraph.relocate moved) middle ∧
      middle.carriedDequantization cache [] (moved layer) = .ok values ∧
      (∃ data, after.AppliesConstant .multiply data values.scale chain.tail.node) ∧
      after.HasValue feeds chain.tail.node restored ∧ restored.shape = value.shape ∧
      ∀ index, value.shape.Holds index →
        restored.get index = values.restore index (raw.get index) := by
  obtain ⟨values, middle, keeps, carried, holds⟩ := quantizes.dequantizes.holds _ chain present
  obtain ⟨real, stretches⟩ := carries middle values keeps carried
  have holds := holds.congr (fun node _ _ => quantizes.same node)
    (fun node _ _ _ => quantizes.same node)
  obtain ⟨restored, hasRestored, fromRaw, _, toValue, each⟩ := holds.exists_value real hasRaw
    (shape_eq ▸ Shape.stretchesTo_refl _) stretches addressable
  have restored_shape : restored.shape = value.shape :=
    toValue.antisymm (shape_eq ▸ fromRaw)
  refine ⟨values, middle, restored, keeps, carried, ?_, hasRestored, restored_shape,
    fun index inside => ?_⟩
  · obtain ⟨multiply, isMultiply, applies⟩ := holds.multiply
    rw [DequantizationChain.tail, isMultiply]
    exact ⟨_, applies⟩
  · have equal := each index inside
    rw [NDArray.read_eq_get (restored_shape ▸ inside), NDArray.read_eq_get (shape_eq ▸ inside)]
      at equal
    exact equal

include wellFormed discovers apart shapes

/-- The chain behind a layer makes of its raw values what the shared dequantization makes of
them. -/
theorem exists_restored {layer : NodeId} {chain : DequantizationChain}
    (kept : ∀ narrowing ∈ narrowings, narrowing.values = shared.dequantization)
    (real : shared.restoredType.isReal = true) (present : chains (moved layer) = some chain)
    (member : layer ∈ subgraph.layers) (has : before.HasValue feeds layer value)
    (hasRaw : after.HasValue feeds (moved layer) raw) (shape_eq : raw.shape = value.shape)
    (addressable : value.shape.IsAddressable) :
    ∃ (values : Dequantization Rat) (restored : NDArray Rat), values.Repeats shared value.shape ∧
      (∃ data, after.AppliesConstant .multiply data values.scale chain.tail.node) ∧
      after.HasValue feeds chain.tail.node restored ∧ restored.shape = value.shape ∧
      ∀ index, value.shape.Holds index →
        restored.get index = values.restore index (raw.get index) := by
  have repeats {middle : Graph Rat} {values : Dequantization Rat}
      (keeps : narrowed.KeepsMembers (subgraph.relocate moved) middle)
      (carried : middle.carriedDequantization cache [] (moved layer) = .ok values) :
      values.Repeats shared value.shape :=
    quantizes.repeats_of_carried wellFormed discovers apart shapes kept keeps has member carried
  obtain ⟨values, middle, restored, keeps, carried, rest⟩ := quantizes.exists_restored_of_carried
    (fun _ _ keeps carried => ⟨(repeats keeps carried).restoredType_eq ▸ real,
      (repeats keeps carried).stretchesTo⟩) present hasRaw shape_eq addressable
  exact ⟨values, restored, repeats keeps carried, rest⟩

omit shapes in
/-- What a fake quantization of the subgraph quantizes stays as it was. -/
theorem hasValue_of_quantized {quantizer : NodeId} (member : quantizer ∈ subgraph.quantizers)
    {position : Nat} {output : Output} (early : position < 3)
    (read : (before.inputs quantizer)[position]? = some output)
    (has : before.HasValue feeds output.node value) :
    after.HasValue feeds (relocated moved output).node value := by
  have reads := reads_of_mem_inputs (List.mem_of_getElem? read)
  have independent (layer : NodeId) (isLayer : layer ∈ subgraph.layers) :
      before.Independent layer output.node := by
    by_cases same : layer = quantizer
    · exact same ▸ independent_of_reads wellFormed reads
    · exact (apart quantizer member layer isLayer same).of_reads reads
  have stays := quantizes.stays_of_read wellFormed (discovers.quantizer_works member)
    (fun _ => early) read
  have same : moved output.node = output.node := quantizes.moved_other fun listed =>
    independent _ (discovers.quantizer_layer _ listed).1 Relation.ReflTransGen.refl
  rw [relocated_of_moved_eq same]
  exact quantizes.hasValue_of_independent wellFormed discovers has stays independent

omit shapes in
/-- A narrowed fake quantization quantizes the same data between two integers. -/
theorem hasValue_of_narrowing {narrowing : Narrowing Rat} (member : narrowing ∈ narrowings)
    {earlier : FakeQuantizeNode Rat} (isEarlier : before.fakeQuantizeNode narrowing.id = .ok earlier)
    (enough : 2 ≤ earlier.levels) {datum inputLow inputHigh : NDArray Rat}
    (hasData : before.HasValue feeds earlier.data.node datum)
    (hasLow : before.HasValue feeds earlier.inputLow.node inputLow)
    (hasHigh : before.HasValue feeds earlier.inputHigh.node inputHigh)
    (lowStretches : inputLow.shape.StretchesTo datum.shape)
    (highStretches : inputHigh.shape.StretchesTo datum.shape)
    (addressable : datum.shape.IsAddressable) :
    after.HasValue feeds (moved narrowing.id)
      (LimitArrays.quantize ⟨inputLow, inputHigh, .scalar narrowing.min, .scalar narrowing.max⟩
        earlier.levels narrowing.precision.isIntegral datum datum.shape) := by
  have listed := quantizes.mem_quantizers member
  obtain ⟨_, view, isEarlier', isView, levels_eq, type_eq, data_eq, inputLow_eq, inputHigh_eq,
    isLow, isHigh⟩ := (quantizes.requantizes.narrowed narrowing member).exists_view
  cases Except.ok.inj (isEarlier.symm.trans isEarlier')
  obtain ⟨_, _, earlierInputs⟩ := fakeQuantizeNode_eq_ok isEarlier
  obtain ⟨present, isQuantize, inputs⟩ := fakeQuantizeNode_eq_ok isView
  obtain ⟨node_eq, inputs_eq⟩ := quantizes.narrowed_stays discovers listed
  have stays {position : Nat} {output : Output} {input : NDArray Rat} (early : position < 3)
      (read : (before.inputs narrowing.id)[position]? = some output)
      (has : before.HasValue feeds output.node input) :
      after.HasValue feeds (relocated moved output).node input :=
    quantizes.hasValue_of_quantized wellFormed discovers apart listed early read has
  let later : LimitArrays Rat :=
    ⟨inputLow, inputHigh, .scalar narrowing.min, .scalar narrowing.max⟩
  have stretch : ∀ limit ∈ later.toList, limit.shape.StretchesTo datum.shape := by
    simpa [later, LimitArrays.toList, NDArray.scalar, Shape.nil_stretchesTo] using
      And.intro lowStretches highStretches
  refine hasValue_iff.mpr ⟨view.node, datum :: later.toList, node_eq.trans present, ?_, ?_⟩
  · rw [inputs_eq, inputs, data_eq, inputLow_eq, inputHigh_eq]
    refine .cons ?_ (.cons ?_ (.cons ?_ (.cons ?_ (.cons ?_ .nil))))
    · exact stays (by decide : 0 < 3) (by rw [earlierInputs]; rfl) hasData
    · exact stays (by decide : 1 < 3) (by rw [earlierInputs]; rfl) hasLow
    · exact stays (by decide : 2 < 3) (by rw [earlierInputs]; rfl) hasHigh
    · exact quantizes.hasValue_of_narrowed_constant isLow
    · exact quantizes.hasValue_of_narrowed_constant isHigh
  · rw [isQuantize, ← type_eq, ← levels_eq]
    exact (Op.evaluate_fakeQuantize_eq_ok (levels_eq ▸ enough)).mpr
      ⟨Op.commonShape_eq stretch, addressable, rfl⟩

/-- A narrowed fake quantization gives what lies near the places of what it gave. -/
theorem exists_raw_of_quantizer {narrowing : Narrowing Rat} (member : narrowing ∈ narrowings)
    {limits : QuantizationLimits Rat} {low high : Rat}
    (share : shared.IsShare before policy narrowing limits low high)
    (enough : ∀ view, before.fakeQuantizeNode narrowing.id = .ok view → 2 ≤ view.levels)
    (real : subgraph.IsReal before) (has : before.HasValue feeds narrowing.id value) :
    ∃ raw, after.HasValue feeds (moved narrowing.id) raw ∧ value.shape.IsAddressable ∧
      raw.Approximates value shared.position
        (SharedScale.roundingError policy.updatePrecisions) := by
  have listed := quantizes.mem_quantizers member
  obtain ⟨view, _, isView, _⟩ := (quantizes.requantizes.narrowed narrowing member).exists_view
  obtain ⟨present, _, _⟩ := fakeQuantizeNode_eq_ok isView
  obtain ⟨datum, arrays, hasData, hasInputLow, hasInputHigh, hasOutputLow, hasOutputHigh, common,
    addressable, equal⟩ := has.exists_limits isView (enough view isView)
  obtain ⟨_, stretch, _⟩ := LimitArrays.commonShape_eq_ok.mp common
  -- The limits that are kept stretch to the data, so the new ones do not change the shape.
  have shape_eq := shapes.shape_eq_data isView has hasData
  rw [shape_eq] at equal stretch addressable ⊢
  have type_real := real narrowing.id listed view.node.elementType (by
    rw [elementType?, present, Option.map_some])
  have plain : view.node.elementType.isIntegral = false := by
    rw [ElementType.isIntegral, type_real, Bool.not_true]
  obtain ⟨isLow, isHigh⟩ := share.outputs.replicated share.found
    (quantizes.limits narrowing.id listed) (wellFormed.exact _) isView hasOutputLow hasOutputHigh
  obtain ⟨lows, isLow⟩ := isLow
  obtain ⟨highs, isHigh⟩ := isHigh
  have near := shared.approximates_quantize (enough view isView) datum isLow isHigh stretch
    narrowing.precision.isIntegral
  rw [plain] at equal
  rw [← share.min_eq, ← share.max_eq, ← equal] at near
  refine ⟨_, quantizes.hasValue_of_narrowing wellFormed discovers apart member isView
    (enough view isView) hasData hasInputLow hasInputHigh
    (stretch _ (by simp [LimitArrays.toList])) (stretch _ (by simp [LimitArrays.toList]))
    addressable, addressable, near.mono (SharedScale.roundingError_le fun integral => ?_)⟩
  exact share.updatePrecisions_eq present type_real integral

end Raw

/-! ## Node after node -/

section Following

variable {before narrowed chained after : Graph Rat} {subgraph : Subgraph}
  {withConvert : Bool} {narrowings : List (Narrowing Rat)} {moved : NodeId → NodeId}
  {cache : DequantizationCache Rat} {chains : NodeId → Option DequantizationChain} {id : NodeId}
  {shared : SharedScale Rat} {levels : Nat} {policy : Policy} {feeds : Assignment Rat}
  {value raw : NDArray Rat} {bound : Rat} {node : Node Rat} {inputs raws : List (NDArray Rat)}
  {related : NodeId → NDArray Rat → NDArray Rat → Prop}
  (quantizes : before.QuantizesTogether subgraph withConvert narrowings moved cache chains narrowed
    chained after) (wellFormed : before.WellFormed)
  (discovers : Subgraph.Discovers before [] subgraph)

include quantizes

/-- Inputs of the shapes that they had give a value of the shape that there was. -/
theorem exists_value_of_shapes (works : before.Works id) (outside : id ∉ subgraph.quantizers)
    (found : before.node? id = some node)
    (computed : node.op.evaluate node.elementType.isIntegral inputs (feeds id) = .ok value)
    (derives : after.Derives feeds (after.inputs id) raws)
    (alike : inputs.map NDArray.shape = raws.map NDArray.shape) :
    ∃ raw, after.HasValue feeds id raw ∧ raw.shape = value.shape ∧
      node.op.evaluate node.elementType.isIntegral raws (feeds id) = .ok raw := by
  obtain ⟨later, isLater, evaluates⟩ := quantizes.exists_node works outside found
  obtain ⟨raw, evaluated, shape_eq⟩ := Op.exists_evaluate_of_shapes alike computed
  exact ⟨raw, hasValue_iff.mpr ⟨later, raws, isLater, derives, (evaluates _ _).trans evaluated⟩,
    shape_eq, evaluated⟩

/-- How raw values come about in a subgraph. Fake quantizations start with what is related to what
they gave, Concats and pooling hand that on, and a chain behind a layer restores what has the shape
of what there was. -/
structure HandsOn (before after : Graph Rat) (subgraph : Subgraph) (moved : NodeId → NodeId)
    (chains : NodeId → Option DequantizationChain) (feeds : Assignment Rat)
    (related : NodeId → NDArray Rat → NDArray Rat → Prop) : Prop where
  quantizer : ∀ quantizer ∈ subgraph.quantizers, ∀ value, before.HasValue feeds quantizer value →
    ∃ raw, after.HasValue feeds (moved quantizer) raw ∧ raw.shape = value.shape ∧
      value.shape.IsAddressable ∧ related quantizer value raw
  concat : ∀ concat ∈ subgraph.concats, ∀ axis inputs raws value raw,
    before.op? concat = some (.concat axis) → before.HasValue feeds concat value →
      NDArray.concatenate axis inputs = .ok value → NDArray.concatenate axis raws = .ok raw →
        (before.inputs concat).length = inputs.length → inputs.length = raws.length →
          (∀ (position : Nat) output input raw, (before.inputs concat)[position]? = some output →
            inputs[position]? = some input → raws[position]? = some raw →
              output.node ∈ subgraph.layers ∧ before.HasValue feeds output.node input ∧
                raw.shape = input.shape ∧ related output.node input raw) →
            related concat value raw
  pool : ∀ layer ∈ subgraph.layers, layer ∉ subgraph.quantizers → ∀ op kernel reduce output data rawData value raw,
    before.op? layer = some op → op.Pools kernel reduce → before.HasValue feeds layer value →
      (before.inputs layer)[0]? = some output → output.node ∈ subgraph.layers →
        before.HasValue feeds output.node data → rawData.shape = data.shape →
          data.pool? kernel.height kernel.width reduce = some value →
            rawData.pool? kernel.height kernel.width reduce = some raw →
              related output.node data rawData → related layer value raw
  restored : ∀ layer ∈ subgraph.layers, ∀ value raw chain, before.HasValue feeds layer value →
    after.HasValue feeds (moved layer) raw → raw.shape = value.shape → value.shape.IsAddressable →
      related layer value raw → chains (moved layer) = some chain →
        ∃ restored, after.HasValue feeds chain.tail.node restored ∧ restored.shape = value.shape

include wellFormed discovers

/-- A Concat or pooling of what follows the values before follows what it gave. -/
theorem exists_raw_of_layer
    (handsOn : HandsOn before after subgraph moved chains feeds related)
    (member : id ∈ subgraph.layers) (outside : id ∉ subgraph.quantizers)
    (has : before.HasValue feeds id value) (found : before.node? id = some node)
    (length_eq : (before.inputs id).length = inputs.length)
    (computed : node.op.evaluate node.elementType.isIntegral inputs (feeds id) = .ok value)
    (given : ∀ (position : Nat) output input, (before.inputs id)[position]? = some output →
      inputs[position]? = some input → before.HasValue feeds output.node input)
    (known : ∀ (position : Nat) output input, (before.inputs id)[position]? = some output →
      inputs[position]? = some input → ∃ raw, after.HasValue feeds (moved output.node) raw ∧
        subgraph.FollowsBy related output.node input raw) :
    ∃ raw, after.HasValue feeds id raw ∧ subgraph.FollowsBy related id value raw := by
  obtain ⟨raws, derives, same, follows⟩ :=
    exists_derives (relocated moved) _ length_eq known
  rw [← quantizes.inputs_of_layer discovers member outside] at derives
  have alike := map_shape_of_getElem? length_eq same fun position output input raw read isInput isRaw =>
    (follows position output input raw read isInput isRaw).shape_eq
  obtain ⟨raw, hasRaw, shape_eq, evaluated⟩ := quantizes.exists_value_of_shapes
    (discovers.layer_works member) outside found computed derives alike
  have isOp : before.op? id = some node.op := by rw [op?, found, Option.map_some]
  refine ⟨raw, hasRaw, shape_eq, fun _ => ?_⟩
  rcases discovers.layer_kind id member with
    ⟨_, isQuantizer⟩ | ⟨kind, isConcat⟩ | ⟨kind, isKind, between⟩
  · exact absurd isQuantizer outside
  · rw [kind?, found, Option.map_some, Option.some.injEq] at kind
    obtain ⟨axis, op_eq⟩ := Op.exists_concat_of_kind kind
    rw [op_eq] at isOp
    rw [op_eq, Op.evaluate_concat_eq_ok] at computed evaluated
    obtain ⟨addressable, _⟩ := NDArray.concatenate_eq_ok computed
    refine ⟨addressable, handsOn.concat id isConcat axis inputs raws value raw isOp has computed
      evaluated length_eq same fun position output input raw read isInput isRaw => ?_⟩
    have isLayer : output.node ∈ subgraph.layers :=
      (discovers.inputs id isConcat output (List.mem_of_getElem? read)).resolve_right (by simp)
    have followed := follows position output input raw read isInput isRaw
    exact ⟨isLayer, given position output input read isInput, followed.shape_eq,
      (followed.related isLayer).2⟩
  · rw [kind?, found, Option.map_some, Option.some.injEq] at isKind
    obtain ⟨kernel, reduce, pools⟩ := Op.exists_pools (isKind ▸ between)
    obtain ⟨output, read, isLayer⟩ := mem_layers_of_pools discovers wellFormed member found pools
    obtain ⟨data, isData, pooled⟩ := pools.evaluate_eq_ok.mp computed
    obtain ⟨rawData, isRawData, rawPooled⟩ := pools.evaluate_eq_ok.mp evaluated
    have followed := follows 0 output data rawData read isData isRawData
    obtain ⟨addressable, related⟩ := followed.related isLayer
    exact ⟨addressable.of_le ((NDArray.shape_pool? pooled).imp fun _ _ le =>
      le.trans (le_max_right 1 _)), handsOn.pool id member outside _ kernel reduce output data
        rawData value raw isOp pools has read isLayer (given 0 output data read isData)
        followed.shape_eq pooled rawPooled related⟩

/-- What reads layers from outside of the subgraph reads what has the shape of what there was. -/
theorem exists_raw_of_outside
    (handsOn : HandsOn before after subgraph moved chains feeds related)
    (works : before.Works id) (outside : id ∉ subgraph.layers) (found : before.node? id = some node)
    (length_eq : (before.inputs id).length = inputs.length)
    (computed : node.op.evaluate node.elementType.isIntegral inputs (feeds id) = .ok value)
    (given : ∀ (position : Nat) output input, (before.inputs id)[position]? = some output →
      inputs[position]? = some input → before.HasValue feeds output.node input)
    (known : ∀ (position : Nat) output input, (before.inputs id)[position]? = some output →
      inputs[position]? = some input → ∃ raw, after.HasValue feeds (moved output.node) raw ∧
        subgraph.FollowsBy related output.node input raw) :
    ∃ raw, after.HasValue feeds id raw ∧ subgraph.FollowsBy related id value raw := by
  have untouched : id ∉ subgraph.quantizers := fun listed =>
    outside (discovers.quantizer_layer id listed).1
  have each (position : Nat) (output : Output) (input : NDArray Rat)
      (read : (before.inputs id)[position]? = some output)
      (isInput : inputs[position]? = some input) : ∃ raw,
        after.HasValue feeds (dequantized chains (relocated moved output)).node raw ∧
          raw.shape = input.shape := by
    obtain ⟨raw, hasRaw, follows⟩ := known position output input read isInput
    by_cases isLayer : output.node ∈ subgraph.layers
    · obtain ⟨chain, present⟩ := quantizes.exists_chain discovers works outside
        (List.mem_of_getElem? read) isLayer
      obtain ⟨addressable, related⟩ := follows.related isLayer
      rw [dequantized_of_some present]
      exact handsOn.restored output.node isLayer input raw chain
        (given position output input read isInput) hasRaw follows.shape_eq addressable related present
    · have stays := quantizes.stays_of_read wellFormed works
        (fun listed => absurd listed untouched) read
      rw [quantizes.moved_other fun listed => isLayer (discovers.quantizer_layer _ listed).1]
        at hasRaw
      rw [quantizes.dequantized_of_outside discovers stays isLayer]
      exact ⟨raw, hasRaw, follows.shape_eq⟩
  obtain ⟨raws, derives, same, shape_eq⟩ := exists_derives
    (fun output => dequantized chains (relocated moved output))
    (fun _ input raw => raw.shape = input.shape) length_eq each
  rw [← quantizes.inputs_of_outside discovers works outside] at derives
  have alike := map_shape_of_getElem? length_eq same shape_eq
  obtain ⟨raw, hasRaw, same_shape, _⟩ :=
    quantizes.exists_value_of_shapes works untouched found computed derives alike
  exact ⟨raw, hasRaw, same_shape, fun member => absurd member outside⟩

/-- Whatever has a value has one that follows it, after the subgraph has been quantized. -/
theorem exists_raw_of_handsOn
    (handsOn : HandsOn before after subgraph moved chains feeds related)
    (has : before.HasValue feeds id value) (stays : before.Stays narrowed id) :
    ∃ raw, after.HasValue feeds (moved id) raw ∧ subgraph.FollowsBy related id value raw := by
  -- Along the derivation: fake quantizations make raw values, members hand them on, and all else
  -- reads restored ones.
  induction has with
  | @compute id node inputs value found length_eq given computed induction =>
      have has : before.HasValue feeds id value := .compute found length_eq given computed
      rcases stays with works | ⟨tensor, constant, live⟩
      · by_cases listed : id ∈ subgraph.quantizers
        · obtain ⟨raw, hasRaw, shape_eq, addressable, related⟩ :=
            handsOn.quantizer id listed value has
          exact ⟨raw, hasRaw, shape_eq, fun _ => ⟨addressable, related⟩⟩
        · rw [quantizes.moved_other listed]
          have follows (position : Nat) (output : Output) (input : NDArray Rat)
              (read : (before.inputs id)[position]? = some output)
              (isInput : inputs[position]? = some input) :=
            induction position output input read isInput (quantizes.stays_of_read wellFormed works
              (fun isQuantizer => absurd isQuantizer listed) read)
          by_cases member : id ∈ subgraph.layers
          · exact quantizes.exists_raw_of_layer wellFormed discovers handsOn member listed has found
              length_eq computed given follows
          · exact quantizes.exists_raw_of_outside wellFormed discovers handsOn works member found
              length_eq computed given follows
      · rw [quantizes.moved_constant discovers constant, has.eq_of_constant constant]
        refine ⟨tensor.values, quantizes.hasValue_of_narrowed_constant
          ((constant?_congr live).trans constant), rfl, fun member => ?_⟩
        exact absurd rfl (works_of_constant?_ne (discovers.layer_works member) constant)

end Following

/-! ## What other nodes read -/

section Outside

variable {before narrowed chained after : Graph Rat} {subgraph : Subgraph}
  {withConvert : Bool} {narrowings : List (Narrowing Rat)} {moved : NodeId → NodeId}
  {cache : DequantizationCache Rat} {chains : NodeId → Option DequantizationChain} {id : NodeId}
  {shared : SharedScale Rat} {feeds : Assignment Rat} {value raw : NDArray Rat} {bound : Rat}
  (quantizes : before.QuantizesTogether subgraph withConvert narrowings moved cache chains narrowed
    chained after) (wellFormed : before.WellFormed)
  (discovers : Subgraph.Discovers before [] subgraph) (apart : subgraph.IsApart before)
  (shapes : before.HasConsistentShapes feeds)
  (kept : ∀ narrowing ∈ narrowings, narrowing.values = shared.dequantization)
  (real : shared.restoredType.isReal = true) (nonzero : shared.scale ≠ 0)
  (positive : 0 < shared.scale) (works : before.Works id) (outside : id ∉ subgraph.layers)

include quantizes wellFormed discovers apart shapes kept real works outside

section Nonzero

include nonzero

/-- A layer that is read from outside of the subgraph is read as what it held, but for the error
of its raw values and the shift that may have been dropped. -/
theorem exists_restored_source {output : Output} (read : output ∈ before.inputs id)
    (isLayer : output.node ∈ subgraph.layers) (has : before.HasValue feeds output.node value)
    (hasRaw : after.HasValue feeds (moved output.node) raw)
    (follows : subgraph.Follows shared bound output.node value raw) :
    ∃ (scale : Tensor Rat) (restored : NDArray Rat),
      (∃ data, after.AppliesConstant .multiply data scale
        (dequantized chains (relocated moved output)).node) ∧
      after.HasValue feeds (dequantized chains (relocated moved output)).node restored ∧
      restored.shape = value.shape ∧ ∀ index, value.shape.Holds index →
        scale.values.read index = shared.scale ∧
          |restored.get index - value.get index| ≤ (bound + 1 / 10 ^ 6) * |shared.scale| := by
  obtain ⟨chain, present⟩ := quantizes.exists_chain discovers works outside read isLayer
  obtain ⟨addressable, near⟩ := follows.near isLayer
  obtain ⟨values, restored, repeats, applies, hasRestored, shape_eq, each⟩ :=
    quantizes.exists_restored wellFormed discovers apart shapes kept real present isLayer has hasRaw
      follows.shape_eq addressable
  have source : dequantized chains (relocated moved output) = chain.tail :=
    dequantized_of_some present
  refine ⟨values.scale, restored, source ▸ applies, source ▸ hasRestored, shape_eq,
    fun index holds => ⟨repeats.scale.read_eq holds, ?_⟩⟩
  obtain ⟨lost, few, restored_eq⟩ := repeats.restore_eq holds (raw.get index)
  have apart : restored.get index - value.get index =
      (raw.get index - shared.position (value.get index) + lost) * shared.scale := by
    rw [each index holds, restored_eq, SharedScale.position]
    field_simp
    ring
  rw [apart, abs_mul]
  exact mul_le_mul_of_nonneg_right
    ((abs_add_le _ _).trans (add_le_add (near.near index holds) few)) (abs_nonneg _)

end Nonzero

include positive

theorem exists_source {output : Output} (read : output ∈ before.inputs id)
    (isLayer : output.node ∈ subgraph.layers) (has : before.HasValue feeds output.node value)
    (hasRaw : after.HasValue feeds (moved output.node) raw)
    (follows : subgraph.Follows shared bound output.node value raw) :
    ∃ restored,
      after.HasValue feeds (dequantized chains (relocated moved output)).node restored ∧
      restored.shape = value.shape ∧ ∀ index, value.shape.Holds index →
        |restored.get index - value.get index| ≤ (bound + 1 / 10 ^ 6) * shared.scale := by
  obtain ⟨_, restored, _, hasRestored, shape_eq, near⟩ := quantizes.exists_restored_source wellFormed
    discovers apart shapes kept real positive.ne' works outside read isLayer has hasRaw follows
  refine ⟨restored, hasRestored, shape_eq, fun index holds => ?_⟩
  have bound := (near index holds).2
  rwa [abs_of_pos positive] at bound

end Outside

end QuantizesTogether

end Graph

end QuantGraph
