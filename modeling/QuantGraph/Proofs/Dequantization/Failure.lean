import QuantGraph.Proofs.Dequantization.Decomposition
import QuantGraph.Proofs.Dequantization.EarlySubtract
import QuantGraph.Proofs.Dequantization.Move
import QuantGraph.Proofs.Dequantization.Shapes
import QuantGraph.Proofs.Revision.Failure
import QuantGraph.Proofs.Tensor.Rounding
import QuantGraph.Scalar.Exact

/-! Revisions of dequantizations that give up. They add nodes first and rewire last, so what they
leave behind when an addition is refused is new and read by nothing old. A chain is moved past an
operation in two steps, and the second comes after the operation has been replaced; it is not
refused where the Subtract of the chain reads the Convert alone on its first slot and the Convert
does not read the operation. -/

namespace QuantGraph

namespace GraphRevision

open QuantGraph.Graph Revision

variable {start graph : Graph α} {id : NodeId}

/-! ## Decomposition -/

section Attach

variable (sound : start.GrowsSoundly graph)

include sound

theorem ensures_attachConvert_sound {values : Dequantization α} {data : Output} {name : String}
    {withConvert : Bool} :
    (values.attachConvert data name withConvert).Ensures graph start.GrowsSoundly
      fun _ => start.GrowsSoundly := by
  unfold Dequantization.attachConvert
  split
  case isTrue =>
    exact ensures_bind.mpr (ensures_add_sound sound fun _ after _ sound _ => sound)
  case isFalse => exact sound

theorem ensures_attachSubtract_sound {values : Dequantization α} {data : Output} {name : String} :
    (values.attachSubtract data name).Ensures graph start.GrowsSoundly
      fun _ => start.GrowsSoundly := by
  unfold Dequantization.attachSubtract
  split
  case h_1 =>
    refine ensures_bind.mpr (ensures_addConstant_sound sound fun _ _ _ sound _ => ?_)
    exact ensures_bind.mpr (ensures_add_sound sound fun _ after _ sound _ => sound)
  case h_2 => exact sound

theorem ensures_attach_sound {values : Dequantization α} {data : Output} {name : String}
    {withConvert : Bool} :
    (values.attach data name withConvert).Ensures graph start.GrowsSoundly
      fun _ => start.GrowsSoundly := by
  unfold Dequantization.attach
  refine ensures_bind.mpr ((ensures_attachConvert_sound sound).mono (fun _ bad => bad) ?_)
  intro convert converted sound
  refine ensures_bind.mpr ((ensures_attachSubtract_sound sound).mono (fun _ bad => bad) ?_)
  intro subtract shifted sound
  refine ensures_bind.mpr (ensures_addConstant_sound sound fun _ _ _ sound _ => ?_)
  exact ensures_bind.mpr (ensures_add_sound sound fun _ after _ sound _ => sound)

end Attach

section Quantization

variable [Scalar α]

/-- A folded fake quantization goes, and with it no node that the old one reads. -/
theorem ensures_settleQuantized_sound {narrowed : NodeId} {name : String}
    {precision : ElementType} {updatePrecision : Bool} (sound : start.GrowsSoundly graph)
    (consistent : start.IsConsistent) (shares : start.SharesReads graph)
    (fresh : start.contains narrowed = false) :
    (settleQuantized narrowed name precision updatePrecision).Ensures graph start.GrowsSoundly
      fun _ => start.GrowsSoundly := by
  unfold settleQuantized
  rw [ensures_bind, ensures_get]
  refine ensures_bind.mpr (ensures_ofExcept sound fun folded _ => ?_)
  cases folded with
  | some tensor =>
      refine ensures_bind.mpr (ensures_addConstant_sound sound fun _ after added sound _ => ?_)
      refine ensures_bind.mpr (ensures_modify.mpr ?_)
      exact sound.prune consistent (shares.add added (by simp [Op.draft])) fresh
  | none =>
      refine ensures_ite_bind start.GrowsSoundly ?_ (fun _ => sound) fun _ sound => sound
      exact fun _ => ensures_setPrecision_sound sound fresh fun _ sound => sound

theorem ensures_decomposeFakeQuantize_sound (consistent : graph.IsConsistent)
    {target : TargetRange α} {updatePrecision : Bool} :
    (decomposeFakeQuantize id target updatePrecision).Ensures graph graph.GrowsSoundly
      fun _ _ => True := by
  have sound := GrowsSoundly.refl consistent
  unfold decomposeFakeQuantize
  rw [ensures_bind, ensures_get]
  refine ensures_bind.mpr (ensures_ofExcept sound fun view found => ?_)
  refine ensures_bind.mpr (ensures_ofExcept sound fun values _ => ?_)
  refine ensures_bind.mpr (ensures_addConstant_sound sound fun low _ addedLow sound lowNew => ?_)
  refine ensures_bind.mpr (ensures_addConstant_sound sound fun high _ addedHigh sound highNew => ?_)
  refine ensures_bind.mpr (ensures_add_sound sound fun narrowed _ added sound fresh => ?_)
  have shares := (((SharesReads.refl graph).add addedLow (by simp [Op.draft])).add addedHigh
    (by simp [Op.draft])).add added (by
      intro connection member old
      have read {output : Output} (member : output ∈ graph.inputs id) :
          ∃ other, graph.Reads output.node other := ⟨id, reads_of_mem_inputs member⟩
      rw [(fakeQuantizeNode_eq_ok found).2.2] at read
      simp only [Draft.relax, FakeQuantizeNode.draftWithOutputs, Draft.input, Op.draft,
        List.nil_append, List.cons_append, List.mem_cons, List.not_mem_nil, or_false] at member
      rcases member with rfl | rfl | rfl | rfl | rfl
      case inr.inr.inr.inl => exact absurd old (Bool.eq_false_iff.mp lowNew)
      case inr.inr.inr.inr => exact absurd old (Bool.eq_false_iff.mp highNew)
      all_goals exact read (by simp))
  refine ensures_bind.mpr ((ensures_settleQuantized_sound sound consistent shares fresh).mono
    (fun _ bad => bad) fun quantize _ sound => ?_)
  refine ensures_bind.mpr ((ensures_attach_sound sound).mono (fun _ bad => bad)
    fun chain _ sound => ?_)
  exact ensures_bind.mpr (ensures_replace_sound sound fun _ _ => trivial)

omit [Scalar α] in
theorem ensures_narrowFakeQuantize_sound (consistent : graph.IsConsistent)
    {precision : ElementType} {min max : α} :
    (narrowFakeQuantize id precision min max).Ensures graph graph.GrowsSoundly
      fun _ _ => True := by
  have sound := GrowsSoundly.refl consistent
  unfold narrowFakeQuantize
  rw [ensures_bind, ensures_get]
  refine ensures_bind.mpr (ensures_ofExcept sound fun view _ => ?_)
  refine ensures_bind.mpr (ensures_addConstant_sound sound fun _ _ _ sound _ => ?_)
  refine ensures_bind.mpr (ensures_addConstant_sound sound fun _ _ _ sound _ => ?_)
  refine ensures_bind.mpr (ensures_add_sound sound fun _ _ _ sound _ => ?_)
  exact ensures_bind.mpr (ensures_replace_sound sound fun _ _ => trivial)

/-! ## Simplification -/

theorem ensures_subtractBeforeConvert_sound (sound : start.GrowsSoundly graph) :
    (subtractBeforeConvert id).Ensures graph start.GrowsSoundly fun _ _ => True := by
  unfold subtractBeforeConvert
  rw [ensures_bind, ensures_get]
  split
  case h_1 => trivial
  case h_2 =>
    refine ensures_bind.mpr (ensures_addConstant_sound sound fun _ _ _ sound _ => ?_)
    refine ensures_bind.mpr (ensures_add_sound sound fun _ _ _ sound _ => ?_)
    exact ensures_bind.mpr (ensures_replace_sound sound fun _ _ => trivial)

theorem ensures_mergeMultiplies_sound (sound : start.GrowsSoundly graph) :
    (mergeMultiplies id).Ensures graph start.GrowsSoundly fun _ _ => True := by
  unfold mergeMultiplies
  rw [ensures_bind, ensures_get]
  split
  case h_1 => trivial
  case h_2 =>
    refine ensures_bind.mpr (ensures_folded sound fun _ _ => ?_)
    refine ensures_bind.mpr (ensures_addConstant_sound sound fun _ _ _ sound _ => ?_)
    refine ensures_bind.mpr (ensures_add_sound sound fun _ _ _ sound _ => ?_)
    exact ensures_bind.mpr (ensures_replace_sound sound fun _ _ => trivial)

theorem ensures_swapMultiplyAndAdd_sound (sound : start.GrowsSoundly graph) {branch : Nat} :
    (swapMultiplyAndAdd id branch).Ensures graph start.GrowsSoundly fun _ _ => True := by
  unfold swapMultiplyAndAdd
  rw [ensures_bind, ensures_get]
  refine ensures_bind.mpr (ensures_ofExcept sound fun found _ => ?_)
  refine ensures_bind.mpr (ensures_folded sound fun _ _ => ?_)
  cases graph.elementType? id with
  | none => exact sound
  | some precision =>
      refine ensures_bind.mpr (ensures_addConstant_sound sound fun _ _ _ sound _ => ?_)
      refine ensures_bind.mpr (ensures_add_sound sound fun _ _ _ sound _ => ?_)
      refine ensures_bind.mpr (ensures_add_sound sound fun _ _ _ sound _ => ?_)
      exact ensures_bind.mpr (ensures_replace_sound sound fun _ _ => trivial)

/-! ## Moving a chain -/

omit [Scalar α] in
theorem ensures_adoptPrecision_sound {source : Output} {name : String}
    (sound : start.GrowsSoundly graph) (fresh : start.contains id = false) :
    (adoptPrecision id source name).Ensures graph start.GrowsSoundly
      fun _ => start.GrowsSoundly := by
  unfold adoptPrecision
  rw [ensures_bind, ensures_get]
  dsimp only
  split
  case isTrue => exact sound
  case isFalse =>
    cases graph.elementType? source.node with
    | none => exact sound
    | some precision => exact ensures_overridePrecision_sound sound fresh fun _ sound => sound

omit [Scalar α] in
theorem ensures_convertLike_sound {chain : DequantizationChain} {plan : ChainMove}
    (sound : start.GrowsSoundly graph) :
    (convertLike id chain plan).Ensures graph start.GrowsSoundly
      fun _ => start.GrowsSoundly := by
  unfold convertLike
  rw [ensures_bind, ensures_get]
  dsimp only
  cases graph.elementType? plan.multiply with
  | none => exact sound
  | some multiplyType =>
      dsimp only
      split
      case isTrue => exact sound
      case isFalse => exact ensures_add_sound sound fun _ _ _ sound _ => sound

omit [Scalar α] in
theorem ensures_shiftLike_sound {plan : ChainMove} (sound : start.GrowsSoundly graph) :
    (shiftLike id plan).Ensures graph start.GrowsSoundly fun _ => start.GrowsSoundly := by
  unfold shiftLike
  cases plan.shift with
  | none => exact sound
  | some shift => exact ensures_add_sound sound fun _ _ _ sound _ => sound

end Quantization

end GraphRevision

namespace Graph

variable [Scalar α] {start grown after : Graph α} {id tail subtract convert constant : NodeId}
  {tensor : Tensor α} {found : SubtractAfterConvert α}

/-- In a graph with inferred shapes, the rounded shift broadcasts with what the Convert reads. -/
theorem SubtractsConverted.exists_broadcast
    (pattern : start.SubtractsConverted subtract convert constant tensor found)
    (inferred : start.IsInferred) (consistent : start.IsConsistent)
    (once : start.ReadsOnce subtract 0) :
    ∃ source shape, start.shape? found.data.node = some source ∧
      source.broadcast found.shift.shape = some shape := by
  obtain ⟨left, readsLeft, rfl⟩ := Option.map_eq_some_iff.mp pattern.readsConvert
  obtain ⟨right, readsRight, rfl⟩ := Option.map_eq_some_iff.mp pattern.readsConstant
  obtain ⟨rest, inputs⟩ := once.inputs_eq_cons readsLeft readsRight
  obtain ⟨op, isOp, elementwise⟩ := exists_elementwise pattern.isSubtract (Or.inl rfl)
  obtain ⟨source, other, shape, isSource, isOther, _, common⟩ :=
    inferred.broadcast_of_inputs consistent isOp elementwise inputs
  have shift_eq : found.shift.shape = other := by
    rw [inferred.shape?_constant pattern.isConstant] at isOther
    rw [pattern.shift_eq, ← Option.some.inj isOther]
    exact Tensor.shape_roundWithTolerance _ _ _
  refine ⟨source, shape, ?_, shift_eq ▸ common⟩
  rw [← isSource, inferred.shape?_convert consistent pattern.isConvert pattern.readsData]

/-- A new Multiply has taken the place of a node, after other nodes were added. -/
structure Supplants (start : Graph α) (id tail : NodeId) (grown after : Graph α) : Prop where
  sound : start.GrowsSoundly grown
  fresh : start.contains tail = false
  isMultiply : grown.kind? tail = some .multiply
  sheds : (grown.redirect id tail).Sheds id after

namespace Supplants

section Reading

omit [Scalar α]

variable (supplants : start.Supplants id tail grown after) {other reader : NodeId}

include supplants

theorem node_eq (live : after.contains other = true) (old : start.contains other = true) :
    after.node? other = start.node? other :=
  (supplants.sheds.node_eq other live).trans (supplants.sound.grows.node_eq other old)

theorem ne_tail {kind : OpKind} (found : after.kind? other = some kind)
    (different : kind ≠ .multiply) : other ≠ tail := by
  rintro rfl
  have same := kind?_congr (supplants.sheds.node_eq other (contains_of_kind? found))
  exact different (Option.some.inj (found.symm.trans (same.trans supplants.isMultiply)))

/-- An old node reads the new Multiply only if it has read what that has replaced. -/
theorem reads_of_reads_tail (consistent : start.IsConsistent) (reads : after.Reads tail reader)
    (old : start.contains reader = true) : start.Reads id reader := by
  obtain ⟨edge, member, source, target⟩ := reads
  have redirected : (grown.redirect id tail).Reads tail reader :=
    ⟨edge, (supplants.sheds.mem_edges.mp member).1, source, target⟩
  rcases supplants.sound.grows.reads_of_redirect old redirected with reads | ⟨_, reads⟩
  · have live := (consistent.reads_live reads).1
    rw [supplants.fresh] at live
    cases live
  · exact reads

/-- What an old node reads on a slot it has read there before, unless it is the new Multiply. -/
theorem input?_eq {slot : Nat} {output : Output} (read : after.input? reader slot = some output)
    (old : start.contains reader = true) (elsewhere : output.node ≠ tail) :
    start.input? reader slot = some output := by
  have live := (supplants.sheds.consistent.reads_live (reads_of_input? read)).2
  rw [input?, supplants.sheds.incoming_eq live] at read
  rw [← supplants.sound.grows.input?_eq old]
  exact input?_of_redirect read elsewhere

theorem inputNode?_eq {slot : Nat} {kind : OpKind}
    (read : after.inputNode? reader slot = some other) (old : start.contains reader = true)
    (isKind : after.kind? other = some kind) (different : kind ≠ .multiply) :
    start.inputNode? reader slot = some other := by
  obtain ⟨output, found, rfl⟩ := Option.map_eq_some_iff.mp read
  exact Option.map_eq_some_iff.mpr
    ⟨output, supplants.input?_eq found old (supplants.ne_tail isKind different), rfl⟩

end Reading

/-- A Subtract that can be moved before a Convert afterwards could be before, if the Convert does
not read what has been replaced. -/
theorem subtractsConverted (supplants : start.Supplants id tail grown after)
    (consistent : start.IsConsistent)
    (pattern : after.SubtractsConverted subtract convert constant tensor found)
    (old : start.contains subtract = true)
    (apart : start.inputNode? subtract 0 = some convert → ¬ start.Reads id convert) :
    start.SubtractsConverted subtract convert constant tensor found := by
  have isConstant : after.kind? constant = some .constant := by
    rw [kind?_eq_map_op?, constant?_eq_some_iff.mp pattern.isConstant]
    rfl
  have readsConvert := supplants.inputNode?_eq pattern.readsConvert old pattern.isConvert
    (fun equal => by cases equal)
  have readsConstant := supplants.inputNode?_eq pattern.readsConstant old isConstant
    (fun equal => by cases equal)
  have convertOld := (consistent.reads_live (reads_of_inputNode? readsConvert)).1
  have readsData : start.input? convert 0 = some found.data := by
    refine supplants.input?_eq pattern.readsData convertOld fun equal => ?_
    have reads := pattern.reads_data
    rw [equal] at reads
    exact apart readsConvert (supplants.reads_of_reads_tail consistent reads convertOld)
  have dataLive := supplants.sheds.consistent.reads_live pattern.reads_data
  have sameSubtract := supplants.node_eq pattern.live old
  have sameConvert := supplants.node_eq dataLive.2 convertOld
  have sameData := supplants.node_eq dataLive.1
    (consistent.reads_live (reads_of_input? readsData)).1
  have sameConstant := supplants.node_eq (contains_of_kind? isConstant)
    (consistent.reads_live (reads_of_inputNode? readsConstant)).1
  exact
    { isSubtract := (kind?_congr sameSubtract).symm.trans pattern.isSubtract
      readsConvert := readsConvert
      isConvert := (kind?_congr sameConvert).symm.trans pattern.isConvert
      restores := (elementType?_congr sameConvert).symm.trans pattern.restores
      isReal := pattern.isReal
      readsData := readsData
      typed := (elementType?_congr sameData).symm.trans pattern.typed
      readsConstant := readsConstant
      isConstant := (constant?_congr sameConstant).symm.trans pattern.isConstant
      shift_eq := pattern.shift_eq
      name_eq := by rw [pattern.name_eq, name, name, sameSubtract] }

end Supplants

end Graph

namespace GraphRevision

open QuantGraph.Graph Revision

variable [Scalar α] {start graph grown after : Graph α} {id tail subtract : NodeId}
  {chain : DequantizationChain} {updatePrecision moveSubtract : Bool}

/-- Subtracting before a Convert is not refused where the shift broadcasts with what the Convert
reads. -/
theorem ensures_subtractBeforeConvert_of_broadcast (consistent : graph.IsConsistent)
    (broadcasts : ∀ found, graph.subtractAfterConvert? id = some found →
      ∃ source shape, graph.shape? found.data.node = some source ∧
        source.broadcast found.shift.shape = some shape) :
    (subtractBeforeConvert id).Ensures graph (fun _ => False) fun _ _ => True := by
  unfold subtractBeforeConvert
  rw [ensures_bind, ensures_get]
  split
  case h_1 => trivial
  case h_2 found present =>
    obtain ⟨_, _, _, pattern⟩ := subtractAfterConvert?_eq_some_iff.mp present
    obtain ⟨source, shape, isSource, common⟩ := broadcasts found present
    obtain ⟨constant, first, added⟩ := exists_add_constant graph found.shift ""
    have gainsConstant := gains_of_add consistent (readsInOrder_constant _ _) added
    refine ensures_bind.mpr (ensures_of_add added ?_)
    have sourceKept : first.shape? found.data.node = some source :=
      (shape?_congr (gainsConstant.grows.node_eq _ (live_of_shape? isSource))).trans isSource
    obtain ⟨replacement, second, added⟩ : ∃ replacement second, first.add
        (((Op.subtract.draft found.name).input found.data 0).input constant.output 1
          |>.withPrecision found.restoredType) = .ok (replacement, second) :=
      exists_add_elementwise .subtract ⟨rfl, by simp⟩ rfl rfl sourceKept
        (gainsConstant.shape?_new (graph.draftedType_constant found.shift "")) common
    have gains : first.Gains _ [found.data, constant.output] replacement second :=
      gains_of_add gainsConstant.consistent ⟨rfl, by simp⟩ added
    have live := gainsConstant.grows.live pattern.live
    refine ensures_bind.mpr (ensures_of_add added (ensures_bind.mpr (ensures_change.mpr ?_)))
    rw [(replace_eq_ok (gains.ne_of_live live)).mpr ⟨gains.grows.live live, gains.live, rfl⟩]
    trivial

/-- Once the chain has moved, its Subtract can be moved before its Convert if it can be at all. -/
theorem ensures_subtractBeforeConvert_behind (supplants : start.Supplants id tail grown after)
    (inferred : start.IsInferred) (consistent : start.IsConsistent)
    (old : start.contains subtract = true) (once : start.ReadsOnce subtract 0)
    (apart : ∀ convert, start.inputNode? subtract 0 = some convert → ¬ start.Reads id convert) :
    (subtractBeforeConvert subtract).Ensures after (fun _ => False) fun _ _ => True := by
  refine ensures_subtractBeforeConvert_of_broadcast supplants.sheds.consistent ?_
  intro found present
  obtain ⟨convert, constant, tensor, pattern⟩ := subtractAfterConvert?_eq_some_iff.mp present
  have earlier := supplants.subtractsConverted consistent pattern old (apart convert)
  obtain ⟨source, shape, isSource, common⟩ := earlier.exists_broadcast inferred consistent once
  have dataLive := (supplants.sheds.consistent.reads_live pattern.reads_data).1
  have same := supplants.node_eq dataLive (live_of_shape? isSource)
  exact ⟨source, shape, (shape?_congr same).trans isSource, common⟩

theorem ensures_moveChainAfter_sound (inferred : graph.IsInferred)
    (consistent : graph.IsConsistent)
    (settles : moveSubtract = false → ∀ convert subtract, chain.convert = some convert →
      chain.subtract = some subtract → graph.inputNode? subtract 0 = some convert ∧
        graph.ReadsOnce subtract 0 ∧ ¬ graph.Reads id convert) :
    (moveChainAfter id chain updatePrecision moveSubtract).Ensures graph graph.GrowsSoundly
      fun _ _ => True := by
  have sound := GrowsSoundly.refl consistent
  unfold moveChainAfter
  rw [ensures_bind, ensures_get]
  refine ensures_bind.mpr (ensures_ofExcept sound fun plan planned => ?_)
  refine ensures_bind.mpr (ensures_addCopy_sound sound fun copy _ old sound fresh => ?_)
  refine ensures_ite_bind graph.GrowsSoundly
    (fun _ => ensures_adoptPrecision_sound sound fresh) (fun _ => sound) fun _ sound => ?_
  refine ensures_bind.mpr ((ensures_convertLike_sound sound).mono (fun _ bad => bad)
    fun converted _ sound => ?_)
  refine ensures_bind.mpr ((ensures_shiftLike_sound sound).mono (fun _ bad => bad)
    fun shifted before sound => ?_)
  refine ensures_bind.mpr (ensures_add_sound sound fun tail grown added sound' fresh => ?_)
  refine ensures_bind.mpr (ensures_replace_sound sound' fun after replaced => ?_)
  have gains : before.Gains _ [shifted.output, plan.scale.output] tail grown :=
    gains_of_add sound.consistent ⟨rfl, by simp⟩ added
  have isMultiply : grown.kind? tail = some .multiply := by
    rw [kind?_eq_map_op?, gains.op?_new]
    rfl
  have supplants : graph.Supplants id tail grown after :=
    ⟨sound', fresh, isMultiply,
      (sheds_of_replace sound'.consistent (ne_of_contains old fresh) replaced).2⟩
  split
  case h_1 convert subtract isConvert isSubtract =>
    obtain ⟨reads, once, apart⟩ := settles rfl convert subtract isConvert isSubtract
    refine ensures_bind.mpr ((ensures_subtractBeforeConvert_behind supplants inferred consistent
      (consistent.reads_live (reads_of_inputNode? reads)).2 once fun other also => ?_).mono
      (fun _ bad => bad.elim) fun _ _ done => done)
    cases Option.some.inj (reads.symm.trans also)
    exact apart
  case h_2 => trivial

/-! ## Giving up -/

omit [Scalar α] in
theorem dequantization_stages {parent convert : NodeId} {slot : Nat}
    (isConvert : (graph.dequantization parent slot).convert = some convert)
    (isSubtract : (graph.dequantization parent slot).subtract = some subtract) :
    graph.inputNode? subtract 0 = some convert := by
  cases found : graph.input? parent slot with
  | none =>
      rw [dequantization_of_none found] at isConvert
      cases isConvert
  | some output =>
      obtain ⟨scaled, shifted, isChain⟩ := isChain_dequantization found
      obtain ⟨rfl, _, operand, present, first, rfl, _⟩ := isChain.exists_shift isSubtract
      obtain ⟨rfl, _⟩ := isChain.convert.stage_eq isConvert
      have read := (constantOperand?_eq_some present).2.2.1
      rw [first] at read
      rw [inputNode?, read, Option.map_some]

/-- A revision of a dequantization that gives up leaves the nodes that there were as they were, and
what it has added is read by nothing old. Moving a chain past an operation does so where the shapes
are inferred, unless the Subtract of the chain stays and reads several outputs on its first slot, or
the Convert before it reads the operation. -/
theorem failsIntact_of_isConsistent (consistent : graph.IsConsistent) :
    (∀ id target updatePrecision,
      FailsIntact (decomposeFakeQuantize id target updatePrecision) graph) ∧
    (∀ id precision min max, FailsIntact (narrowFakeQuantize id precision min max) graph) ∧
    (∀ id, FailsIntact (subtractBeforeConvert id) graph) ∧
    (∀ id, FailsIntact (mergeMultiplies id) graph) ∧
    (∀ id branch, FailsIntact (swapMultiplyAndAdd id branch) graph) ∧
    (graph.IsInferred → ∀ id parent slot updatePrecision moveSubtract,
      (moveSubtract = false → ∀ convert subtract,
        (graph.dequantization parent slot).convert = some convert →
        (graph.dequantization parent slot).subtract = some subtract →
          graph.ReadsOnce subtract 0 ∧ ¬ graph.Reads id convert) →
      FailsIntact (moveChainAfter id (graph.dequantization parent slot) updatePrecision
        moveSubtract) graph) := by
  have sound := GrowsSoundly.refl consistent
  refine ⟨fun _ _ _ => failsIntact_of_ensures consistent ?decompose,
    fun _ _ _ _ => failsIntact_of_ensures consistent ?narrow,
    fun _ => failsIntact_of_ensures consistent ?subtract,
    fun _ => failsIntact_of_ensures consistent ?merge,
    fun _ _ => failsIntact_of_ensures consistent ?swap,
    fun inferred id parent slot _ _ apart => failsIntact_of_ensures consistent ?move⟩
  case decompose => exact ensures_decomposeFakeQuantize_sound consistent
  case narrow => exact ensures_narrowFakeQuantize_sound consistent
  case subtract => exact ensures_subtractBeforeConvert_sound sound
  case merge => exact ensures_mergeMultiplies_sound sound
  case swap => exact ensures_swapMultiplyAndAdd_sound sound
  case move =>
    refine ensures_moveChainAfter_sound inferred consistent
      fun stays convert subtract isConvert isSubtract => ?_
    exact ⟨dequantization_stages isConvert isSubtract,
      apart stays convert subtract isConvert isSubtract⟩

/-- A chain in front of an operation that accepts no precision, and weights that are quantized
with more lower limits than they have channels. -/
def refusedRevisions : List (Draft Rat) :=
  [{ op := .parameter, name := "pixels", declared := some { elementType := .u8, shape := [2] } },
    ((Op.convert .f32).draft "converted").readAll [NodeId.mk 0],
    (Op.constant (.scalar .f32 3)).draft "shift",
    (Op.subtract.draft "shifted").readAll [NodeId.mk 1, NodeId.mk 2],
    (Op.constant (.scalar .f32 2)).draft "scale",
    (Op.multiply.draft "scaled").readAll [NodeId.mk 3, NodeId.mk 4],
    (Op.relu.draft "positive").readAll [NodeId.mk 5],
    (Op.result.draft "output").readAll [NodeId.mk 6],
    (Op.constant { elementType := .f32, values := .replicate [2] (1 : Rat) }).draft "weights",
    (Op.constant { elementType := .f32, values := .replicate [3] (0 : Rat) }).draft "lows",
    (Op.constant (.scalar .f32 0)).draft "low",
    (Op.constant (.scalar .f32 255)).draft "high",
    ((Op.fakeQuantize 256).draft "quantized").readAll
      [NodeId.mk 8, NodeId.mk 9, NodeId.mk 11, NodeId.mk 10, NodeId.mk 11],
    (Op.result.draft "limited").readAll [NodeId.mk 12]]

set_option synthInstance.maxSize 1024 in
theorem failsIntact_of_isConsistent_refused :
    ∃ (graph decomposed moved : Graph Rat) (target : TargetRange Rat) (slot : Nat)
      (cardinality capability : RevisionError),
      Graph.empty.addAll refusedRevisions = .ok graph ∧ graph.IsConsistent ∧ graph.IsInferred ∧
      (decomposeFakeQuantize (NodeId.mk 12) target true).runOn graph =
        (.error cardinality, decomposed) ∧
      (moveChainAfter (NodeId.mk 6) (graph.dequantization (NodeId.mk 6) slot) true false).runOn
        graph = (.error capability, moved) ∧
      graph.contains (NodeId.mk 14) = false ∧ decomposed.contains (NodeId.mk 14) = true ∧
      moved.contains (NodeId.mk 14) = true ∧
      graph.LeavesIntact decomposed ∧ graph.LeavesIntact moved := by
  let target : TargetRange Rat := { precision := .u8, min := 0, max := 255, hasZeroPoint := false }
  have ordered : ∀ draft ∈ refusedRevisions, draft.IsInOrder := by decide
  have made : (Graph.empty.addAll refusedRevisions).map (fun graph =>
      let chain := graph.dequantization (NodeId.mk 6) 0
      let decomposed := (decomposeFakeQuantize (NodeId.mk 12) target true).runOn graph
      let moved := (moveChainAfter (NodeId.mk 6) chain true false).runOn graph
      (decide graph.IsInferred, decomposed.1, moved.1, graph.contains (NodeId.mk 14),
        decomposed.2.contains (NodeId.mk 14), moved.2.contains (NodeId.mk 14), chain.convert,
        graph.inputs (NodeId.mk 1))) =
      .ok (true, .error (.limitCardinality "quantized_original" .inputLow 3 2),
        .error (.precisionOverrideUnsupported "positive"), false, true, true, some (NodeId.mk 1),
        [(NodeId.mk 0).output]) := by decide +kernel
  obtain ⟨graph, added, facts⟩ := Outcome.map_eq_ok.mp made
  simp only [Prod.mk.injEq] at facts
  obtain ⟨inferred, decomposed, moved, vacant, first, second, isConvert, inputs⟩ := facts
  have inferred := of_decide_eq_true inferred
  have wellFormed := Graph.wellFormed_empty.addAll ordered added
  have ranDecompose : (decomposeFakeQuantize (NodeId.mk 12) target true).runOn graph = (_, _) :=
    Prod.ext decomposed rfl
  have ranMove : (moveChainAfter (NodeId.mk 6) (graph.dequantization (NodeId.mk 6) 0) true
      false).runOn graph = (_, _) := Prod.ext moved rfl
  obtain ⟨decomposes, _, _, _, _, moves⟩ := failsIntact_of_isConsistent wellFormed.consistent
  refine ⟨graph, _, _, target, 0, _, _, added, wellFormed.consistent, inferred, ranDecompose,
    ranMove, vacant, first, second, decomposes _ _ _ _ _ ranDecompose,
    moves inferred _ _ _ _ _ ?_ _ _ ranMove⟩
  intro _ convert subtract converts _
  cases Option.some.inj (isConvert.symm.trans converts)
  refine ⟨(wellFormed.exact subtract).hasDistinctSlots.readsOnce 0, fun reads => ?_⟩
  obtain ⟨output, member, source⟩ := reads_iff_mem_inputs.mp reads
  rw [inputs, List.mem_singleton] at member
  cases member
  cases source

/-! ### Too late -/

/-- A chain whose Subtract reads two outputs on its first slot, and a shift that is longer than
either of them. -/
def crowdedChain : List (Draft Rat) :=
  [{ op := .parameter, name := "x", declared := some { elementType := .f32, shape := [2] } },
    { op := .parameter, name := "pixels", declared := some { elementType := .u8, shape := [2] } },
    ((Op.convert .f32).draft "converted").readAll [NodeId.mk 1],
    (Op.constant { elementType := .f32, values := .replicate [3] (1 : Rat) }).draft "shift",
    (((Op.subtract.draft "shifted").input (NodeId.mk 0).output 0).input (NodeId.mk 2).output 0).input
      (NodeId.mk 3).output 1,
    (Op.constant (.scalar .f32 2)).draft "scale",
    (Op.multiply.draft "scaled").readAll [NodeId.mk 4, NodeId.mk 5],
    (Op.relu.draft "positive").readAll [NodeId.mk 6],
    (Op.result.draft "output").readAll [NodeId.mk 7]]

/-- A convolution with dequantized weights that can be read by the Convert of their chain. -/
def cyclicChain : List (Draft Rat) :=
  [{ op := .parameter, name := "x", declared := some { elementType := .f32, shape := [1, 3, 1] } },
    { op := .parameter, name := "image"
      declared := some { elementType := .f32, shape := [1, 1, 1] } },
    ((Op.convert .f32).draft "converted").readAll [NodeId.mk 0],
    (Op.constant { elementType := .f32, values := .replicate [2, 3, 1] (1 : Rat) }).draft "shift",
    (Op.subtract.draft "shifted").readAll [NodeId.mk 2, NodeId.mk 3],
    (Op.constant { elementType := .f32, values := .replicate [3, 1, 1, 1] (2 : Rat) }).draft
      "scale",
    (Op.multiply.draft "scaled").readAll [NodeId.mk 4, NodeId.mk 5],
    (Op.convolution.draft "convolution").readAll [NodeId.mk 1, NodeId.mk 6],
    (Op.result.draft "output").readAll [NodeId.mk 7]]

/-- The last step of a move can be refused once the operation is gone: where the Subtract reads two
outputs on its first slot, and where the Convert reads the operation. -/
theorem not_leavesIntact_crowded_and_cyclic :
    (∃ graph after error, Graph.empty.addAll crowdedChain = .ok graph ∧ graph.IsConsistent ∧
      graph.IsInferred ∧
      (moveChainAfter (NodeId.mk 7) (graph.dequantization (NodeId.mk 7) 0) false false).runOn
        graph = (.error error, after) ∧ ¬ graph.LeavesIntact after) ∧
    ∃ drafted graph after error, Graph.empty.addAll cyclicChain = .ok drafted ∧
      drafted.setInput (NodeId.mk 2) 0 (NodeId.mk 7).output = .ok graph ∧ graph.IsConsistent ∧
      graph.IsInferred ∧
      (moveChainAfter (NodeId.mk 7) (graph.dequantization (NodeId.mk 7) 1) false false).runOn
        graph = (.error error, after) ∧ ¬ graph.LeavesIntact after := by
  have lost {graph after : Graph Rat} {id : NodeId} (live : graph.contains id = true)
      (gone : after.contains id = false) : ¬ graph.LeavesIntact after := by
    intro intact
    rw [contains_congr (intact.node_eq id live), live] at gone
    cases gone
  constructor
  case left =>
    have made : (Graph.empty.addAll crowdedChain).map (fun graph =>
        let moved := (moveChainAfter (NodeId.mk 7) (graph.dequantization (NodeId.mk 7) 0) false
          false).runOn graph
        (decide graph.IsInferred, moved.1, graph.contains (NodeId.mk 7),
          moved.2.contains (NodeId.mk 7))) =
        .ok (true, .error (.graph (.graph (.inference (.notBroadcastable .subtract [2] [3])))),
          true, false) := by decide +kernel
    obtain ⟨graph, added, facts⟩ := Outcome.map_eq_ok.mp made
    simp only [Prod.mk.injEq] at facts
    obtain ⟨inferred, moved, live, gone⟩ := facts
    exact ⟨graph, _, _, added, (Graph.wellFormed_empty.consistent.addAll added).1,
      of_decide_eq_true inferred, Prod.ext moved rfl, lost live gone⟩
  case right =>
    have made : (Graph.empty.addAll cyclicChain).map (fun drafted =>
        (drafted.setInput (NodeId.mk 2) 0 (NodeId.mk 7).output).map fun graph =>
          let moved := (moveChainAfter (NodeId.mk 7) (graph.dequantization (NodeId.mk 7) 1) false
            false).runOn graph
          (decide graph.IsInferred, moved.1, graph.contains (NodeId.mk 7),
            moved.2.contains (NodeId.mk 7))) =
        .ok (.ok (true, .error (.graph (.graph (.inference
          (.notBroadcastable .subtract [3, 1, 2, 1] [2, 3, 1])))), true, false)) := by decide +kernel
    obtain ⟨drafted, added, facts⟩ := Outcome.map_eq_ok.mp made
    obtain ⟨graph, updated, facts⟩ := Outcome.map_eq_ok.mp facts
    simp only [Prod.mk.injEq] at facts
    obtain ⟨inferred, moved, live, gone⟩ := facts
    have consistent := (Graph.wellFormed_empty.consistent.addAll added).1
    exact ⟨drafted, graph, _, _, added, updated, isConsistent_setInput consistent updated,
      of_decide_eq_true inferred, Prod.ext moved rfl, lost live gone⟩

end GraphRevision

end QuantGraph
