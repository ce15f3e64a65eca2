import QuantGraph.Proofs.Dequantization.Decomposition

/-! The fake quantizations of a graph while one of them is split or narrowed: it goes, at
most one comes, and all others stay. -/

namespace QuantGraph

namespace Graph

/-- A fake quantization with an identity number stands at an index. -/
def IsQuantizer (graph : Graph α) (id : NodeId) (uid : Nat) : Prop :=
  graph.uid? id = some uid ∧ graph.kind? id = some .fakeQuantize

/-- A fake quantization has given way. Only at `new` may there be one that was not there. -/
def Exchanges (before : Graph α) (id new : NodeId) (after : Graph α) : Prop :=
  ∀ other uid, after.IsQuantizer other uid → other = new ∨ other ≠ id ∧ before.IsQuantizer other uid

variable {before middle after graph : Graph α} {id other old new : NodeId} {uid : Nat}
  {draft : Draft α} {outputs : List Output}

theorem IsQuantizer.congr (quantizer : before.IsQuantizer id uid)
    (equal : after.node? id = before.node? id) : after.IsQuantizer id uid :=
  ⟨(uid?_congr equal).trans quantizer.1, (kind?_congr equal).trans quantizer.2⟩

theorem exists_isQuantizer (kind : graph.kind? id = some .fakeQuantize) :
    ∃ uid, graph.IsQuantizer id uid := by
  obtain ⟨node, present, _⟩ := Option.map_eq_some_iff.mp kind
  exact ⟨node.uid, by rw [uid?, present, Option.map_some], kind⟩

theorem IsQuantizer.live (quantizer : graph.IsQuantizer id uid) : graph.contains id = true :=
  contains_of_kind? quantizer.2

theorem Adds.isQuantizer (adds : before.Adds draft outputs new after)
    (quantizer : after.IsQuantizer other uid) (different : other ≠ new) :
    before.IsQuantizer other uid :=
  quantizer.congr (adds.node_old other different).symm

/-- The addition of another operation. -/
theorem Adds.isQuantizer_of_kind (adds : before.Adds draft outputs new after)
    (kind : draft.op.kind ≠ .fakeQuantize) (quantizer : after.IsQuantizer other uid) :
    before.IsQuantizer other uid := by
  refine adds.isQuantizer quantizer ?_
  rintro rfl
  have found := kind?_of_op? adds.op?_new
  rw [quantizer.2] at found
  exact kind (Option.some.inj found).symm

theorem Sheds.isQuantizer (sheds : before.Sheds id after)
    (quantizer : after.IsQuantizer other uid) : before.IsQuantizer other uid :=
  quantizer.congr (sheds.node_eq other quantizer.live).symm

theorem Declares.isQuantizer {change : Node α → Node α} (declares : before.Declares id change after)
    (redeclared : ∀ node, IsRedeclared node (change node))
    (quantizer : after.IsQuantizer other uid) : before.IsQuantizer other uid := by
  obtain ⟨isUid, isKind⟩ := quantizer
  refine ⟨?_, (declares.sameAt redeclared other).kind?_eq.symm.trans isKind⟩
  rw [uid?, declares.node_eq] at isUid
  split at isUid
  case isTrue equal =>
    rw [Option.map_map] at isUid
    rw [uid?, equal, ← isUid]
    exact congrFun (congrArg Option.map (funext fun node => (redeclared node).uid_eq.symm)) _
  case isFalse => exact isUid

/-- The replaced node is none of those that are left. -/
theorem Replaces.isQuantizer (replaces : before.Replaces old new after)
    (quantizer : after.IsQuantizer other uid) : other ≠ old ∧ before.IsQuantizer other uid := by
  have earlier := quantizer.congr (replaces.node_eq quantizer.live).symm
  refine ⟨?_, earlier⟩
  rintro rfl
  have gone := replaces.gone ⟨.fakeQuantize, earlier.2, rfl⟩
  rw [quantizer.live] at gone
  cases gone

section Attaches

variable {values : Dequantization α} {data : Output} {name : String} {withConvert : Bool}

theorem AttachesConvert.isQuantizer {convert : Option NodeId}
    (attaches : before.AttachesConvert values data name withConvert convert after)
    (quantizer : after.IsQuantizer other uid) : before.IsQuantizer other uid := by
  unfold AttachesConvert at attaches
  split at attaches
  case isTrue =>
    obtain ⟨_, _, adds⟩ := attaches
    exact adds.isQuantizer_of_kind (by simp [Draft.input, Op.draft, Op.kind]) quantizer
  case isFalse =>
    obtain ⟨_, rfl⟩ := attaches
    exact quantizer

theorem AttachesSubtract.isQuantizer {subtract : Option NodeId}
    (attaches : before.AttachesSubtract values data name subtract after)
    (quantizer : after.IsQuantizer other uid) : before.IsQuantizer other uid := by
  unfold AttachesSubtract at attaches
  split at attaches
  case h_1 =>
    obtain ⟨_, _, _, _, addsConstant, adds⟩ := attaches
    have withConstant := adds.isQuantizer_of_kind (by simp [Draft.input, Op.draft, Op.kind]) quantizer
    exact addsConstant.isQuantizer_of_kind (by simp [Op.draft, Op.kind]) withConstant
  case h_2 =>
    obtain ⟨_, rfl⟩ := attaches
    exact quantizer

theorem Attaches.isQuantizer {chain : DequantizationChain}
    (attaches : before.Attaches values data name withConvert chain after)
    (quantizer : after.IsQuantizer other uid) : before.IsQuantizer other uid := by
  obtain ⟨converted, shifted, constant, multiply, withConstant, attachesConvert, attachesSubtract,
    addsConstant, addsMultiply, _⟩ := attaches
  have withConstant := addsMultiply.isQuantizer_of_kind (by simp [Draft.input, Op.draft, Op.kind])
    quantizer
  have shifted := addsConstant.isQuantizer_of_kind (by simp [Op.draft, Op.kind]) withConstant
  exact attachesConvert.isQuantizer (attachesSubtract.isQuantizer shifted)

end Attaches

/-! ## Splitting and narrowing -/

theorem Narrows.exchanges {precision : ElementType} {min max : α} {narrowed : NodeId}
    (narrows : before.Narrows id precision min max narrowed after) :
    before.Exchanges id narrowed after := by
  obtain ⟨view, low, high, withLow, withHigh, withNarrowed, _, addsLow, addsHigh, adds,
    replaces⟩ := narrows
  intro other uid quantizer
  obtain ⟨different, quantizer⟩ := replaces.isQuantizer quantizer
  by_cases isNew : other = narrowed
  · exact Or.inl isNew
  · have withHigh := adds.isQuantizer quantizer isNew
    have withLow := addsHigh.isQuantizer_of_kind (by simp [Op.draft, Op.kind]) withHigh
    exact Or.inr ⟨different, addsLow.isQuantizer_of_kind (by simp [Op.draft, Op.kind]) withLow⟩

theorem SettlesQuantized.isQuantizer [Scalar α] {narrowed quantize : NodeId} {name : String}
    {precision : ElementType} {updatePrecision : Bool}
    (settles : before.SettlesQuantized narrowed name precision updatePrecision quantize after)
    (quantizer : after.IsQuantizer other uid) : before.IsQuantizer other uid := by
  rcases settles with ⟨folded, middle, _, adds, sheds, _⟩ | ⟨_, rfl, declares⟩
  · exact adds.isQuantizer_of_kind (by simp [Op.draft, Op.kind]) (sheds.isQuantizer quantizer)
  · split at declares
    case isTrue =>
      exact declares.isQuantizer (GraphRevision.isRedeclared_declaring precision) quantizer
    case isFalse => exact declares ▸ quantizer

end Graph

namespace GraphRevision

open QuantGraph.Graph Revision

variable [Scalar α] {graph : Graph α} {id : NodeId}

/-- A fake quantization that nothing reads goes when a constant takes its place. -/
theorem ensures_settleQuantized_gone {narrowed : NodeId} {name : String} {precision : ElementType}
    {updatePrecision : Bool} (wellFormed : graph.WellFormed)
    (kind : graph.kind? narrowed = some .fakeQuantize)
    (unread : ∀ reader, ¬ graph.Reads narrowed reader) :
    (settleQuantized narrowed name precision updatePrecision).Ensures graph (fun _ => True)
      fun quantize after => quantize = narrowed ∨ after.contains narrowed = false := by
  unfold settleQuantized
  rw [ensures_bind, ensures_get, ensures_bind]
  refine ensures_ofExcept trivial fun outcome folds => ?_
  cases outcome with
  | some folded =>
      dsimp only
      have supports : graph.Supports narrowed [] := ⟨wellFormed, contains_of_kind? kind, by simp⟩
      rw [ensures_bind]
      refine (ensures_addConstantOn supports .refl fun constant middle adds _ _ => ?_).mono
        (fun _ _ => trivial) (fun _ _ done => done)
      rw [ensures_bind, prune, ensures_modify, ensures_pure]
      right
      refine contains_prune_of_isDead (isDead_of_not_reads
        ((kind?_congr (adds.grows.node_eq narrowed supports.live)).trans kind) rfl ?_)
      intro reader reads
      rcases adds.reads reads with reads | ⟨_, output, member, _⟩
      · exact unread reader reads
      · cases member
  | none =>
      exact ensures_ite_bind (fun _ => True) (fun _ => ensures_trivial) (fun _ => trivial)
        fun _ _ => Or.inl rfl

theorem ensures_decomposeFakeQuantize_exchanges {target : TargetRange α} {updatePrecision : Bool}
    (wellFormed : graph.WellFormed) :
    (decomposeFakeQuantize id target updatePrecision).Ensures graph graph.Evolves
      fun result after => graph.Exchanges id result.1 after := by
  unfold decomposeFakeQuantize
  rw [ensures_bind, ensures_get, ensures_bind]
  refine ensures_ofExcept .refl fun view isView => ?_
  rw [ensures_bind]
  refine ensures_ofExcept .refl fun values _ => ?_
  have supports := supports_fakeQuantizeNode wellFormed isView
  rw [ensures_bind]
  refine ensures_addConstantOn supports .refl fun low withLow addsLow supports evolves => ?_
  rw [ensures_bind]
  refine ensures_addConstantOn supports evolves fun high withHigh addsHigh supports evolves => ?_
  rw [ensures_bind]
  refine ensures_addOn [view.data, view.inputLow, view.inputHigh, low.output, high.output]
    supports evolves ⟨rfl, by simp⟩ rfl (by simp [NodeId.output])
    fun narrowed withNarrowed adds supports evolves => ?_
  have kind : withNarrowed.kind? narrowed = some .fakeQuantize := kind?_of_op? adds.op?_new
  refine ensures_bind.mpr (((ensures_settleQuantized supports evolves kind).and
    (ensures_settleQuantized_gone supports.wellFormed kind
      (adds.not_reads_new addsHigh.wellFormed.consistent))).mono (fun _ bad => bad.1) ?_)
  rintro quantize settled ⟨⟨settles, supports, evolves⟩, gone⟩
  refine ensures_bind.mpr ((Dequantization.ensures_attach supports evolves
    (by simp [NodeId.output])).mono (fun _ bad => bad) ?_)
  rintro chain attached ⟨attaches, supports, evolves⟩
  rw [ensures_bind]
  refine ensures_replaceOn supports evolves fun after replaces _ => ?_
  intro other uid quantizer
  obtain ⟨different, quantizer⟩ := replaces.isQuantizer quantizer
  have inSettled := attaches.isQuantizer quantizer
  have inNarrowed := settles.isQuantizer inSettled
  by_cases isNew : other = narrowed
  · rcases gone with rfl | gone
    · exact Or.inl isNew
    · rw [← isNew, inSettled.live] at gone
      cases gone
  · have inHigh := adds.isQuantizer inNarrowed isNew
    have inLow := addsHigh.isQuantizer_of_kind (by simp [Op.draft, Op.kind]) inHigh
    exact Or.inr ⟨different, addsLow.isQuantizer_of_kind (by simp [Op.draft, Op.kind]) inLow⟩

end GraphRevision

end QuantGraph
