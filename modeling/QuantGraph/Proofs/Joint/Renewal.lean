import QuantGraph.Proofs.Graph.Usage
import QuantGraph.Proofs.Joint.Requantization
import QuantGraph.Proofs.Revision.Creation

/-! A fake quantization that gives way to a new one, in any graph whose bookkeeping is in order,
cycles and repeated slots included. Where its output limits are constants that read nothing, they
may go with it, and all other operations stay. -/

namespace QuantGraph

namespace Graph

/-- A constant that reads nothing. -/
structure IsQuiet (graph : Graph α) (id : NodeId) : Prop where
  constant : ∃ tensor, graph.constant? id = some tensor
  silent : graph.inputs id = []

/-- The last two inputs of a fake quantization are constants that read nothing. -/
def HasQuietOutputLimits (graph : Graph α) (id : NodeId) : Prop :=
  ∀ view, graph.fakeQuantizeNode id = .ok view →
    graph.IsQuiet view.outputLow.node ∧ graph.IsQuiet view.outputHigh.node

/-- A fake quantization of the same data is added and takes the readers of one, and what nothing
reads any more is gone. -/
structure RenewsLimit (before : Graph α) (id : NodeId) (view : FakeQuantizeNode α) (new : NodeId)
    (drafted after : Graph α) : Prop where
  isView : before.fakeQuantizeNode id = .ok view
  grows : before.Grows drafted
  consistent : drafted.IsConsistent
  fresh : before.contains new = false
  reads : ∀ output ∈ [view.data, view.inputLow, view.inputHigh], drafted.Reads output.node new
  op_new : drafted.op? new = some view.node.op
  uid_new : drafted.uid? new = some (before.nextUid + 2)
  nextUid_eq : after.nextUid = before.nextUid + 3
  pruned : after = ((drafted.redirect id new).prune id).2

variable {before drafted after graph : Graph α} {id new other source : NodeId}
  {view : FakeQuantizeNode α}

theorem IsQuiet.not_reads (quiet : graph.IsQuiet id) : ¬ graph.Reads source id := by
  intro reads
  obtain ⟨_, member, _⟩ := reads_iff_mem_inputs.mp reads
  rw [quiet.silent] at member
  cases member

theorem IsQuiet.ne_of_works (quiet : graph.IsQuiet id) (works : graph.Works other) :
    other ≠ id := by
  obtain ⟨_, constant⟩ := quiet.constant
  exact (works_of_constant?_ne works constant).symm

theorem IsQuiet.live (quiet : graph.IsQuiet id) : graph.contains id = true := by
  obtain ⟨_, constant⟩ := quiet.constant
  exact contains_of_constant? constant

theorem Works.of_fakeQuantize {levels : Nat} (found : graph.op? id = some (.fakeQuantize levels)) :
    graph.Works id :=
  .of_kind (kind?_of_op? found) (by simp [Op.kind])

theorem exists_fakeQuantizeNode {node : Node α} {levels : Nat}
    (present : graph.node? id = some node) (isOp : node.op = .fakeQuantize levels) (count : (graph.inputs id).length = 5) :
    ∃ view, graph.fakeQuantizeNode id = .ok view := by
  unfold fakeQuantizeNode
  rw [present]
  dsimp only
  rw [isOp]
  match inputs : graph.inputs id, count with
  | [data, inputLow, inputHigh, outputLow, outputHigh], _ => exact ⟨_, rfl⟩

namespace RenewsLimit

variable (renews : before.RenewsLimit id view new drafted after)

include renews

theorem works_id : before.Works id := HasConstantLimits.works_of_view renews.isView

theorem ne_new (live : before.contains other = true) : other ≠ new :=
  ne_of_contains live renews.fresh

theorem new_live : drafted.contains new = true := contains_of_op? renews.op_new

theorem consistent_redirect : (drafted.redirect id new).IsConsistent :=
  isConsistent_redirect renews.consistent renews.new_live

theorem sheds : (drafted.redirect id new).Sheds id after :=
  renews.pruned ▸ sheds_prune renews.consistent_redirect id

/-- A node that was there and stays is the same. -/
theorem node_eq (live : before.contains other = true) (stays : after.contains other = true) :
    after.node? other = before.node? other :=
  (renews.sheds.node_eq other stays).trans (renews.grows.node_eq other live)

/-- A constant that reads nothing still reads nothing where it stays. -/
theorem quiet_kept (quietBefore : before.IsQuiet other) (stays : after.contains other = true) :
    after.IsQuiet other := by
  obtain ⟨tensor, constant⟩ := quietBefore.constant
  have live := quietBefore.live
  refine ⟨⟨tensor, (constant?_congr (renews.node_eq live stays)).trans constant⟩, ?_⟩
  have unread : ¬ drafted.Reads id other := fun reads =>
    quietBefore.not_reads ((renews.grows.reads_iff live).mp reads)
  rw [renews.sheds.inputs_eq stays, inputs_redirect_of_not_reads unread,
    renews.grows.inputs_eq live, quietBefore.silent]

/-! ## What stays -/

/-- The new node reads what the old one reads, apart from the output limits. -/
theorem reads_new (reads : before.Reads source id) :
    source ∈ [view.outputLow.node, view.outputHigh.node] ∨
      (drafted.redirect id new).Reads source new := by
  obtain ⟨_, _, inputs⟩ := fakeQuantizeNode_eq_ok renews.isView
  obtain ⟨output, member, rfl⟩ := reads_iff_mem_inputs.mp reads
  rw [inputs] at member
  by_cases early : output ∈ [view.data, view.inputLow, view.inputHigh]
  · obtain ⟨edge, listed, isSource, isNew⟩ := renews.reads output early
    exact Or.inr ⟨edge, mem_edges_redirect.mpr (Or.inr ⟨listed, fun moves => moves.2 isNew⟩),
      isSource, isNew⟩
  · left
    simp only [List.mem_cons, List.not_mem_nil, or_false, not_or] at member early ⊢
    rcases member with equal | equal | equal | rfl | rfl
    · exact absurd equal early.1
    · exact absurd equal early.2.1
    · exact absurd equal early.2.2
    · exact Or.inl rfl
    · exact Or.inr rfl

variable (quiet : before.HasQuietOutputLimits id)

include quiet

theorem quiet_of_mem (member : other ∈ [view.outputLow.node, view.outputHigh.node]) :
    before.IsQuiet other := by
  obtain ⟨quietLow, quietHigh⟩ := quiet view renews.isView
  rcases List.mem_pair.mp member with rfl | rfl
  · exact quietLow
  · exact quietHigh

/-- At most the old node and its output limits go. -/
theorem keeps (live : drafted.contains other = true)
    (outside : other ∉ [id, view.outputLow.node, view.outputHigh.node]) :
    after.contains other = true := by
  rw [renews.pruned]
  by_cases itself : before.Reads id id
  · -- The new node reads the old one, which stays, and so does everything else.
    rcases renews.reads_new itself with isLimit | readByNew
    · exact absurd rfl ((renews.quiet_of_mem quiet isLimit).ne_of_works renews.works_id)
    · rw [prune_eq_self_of_reads readByNew]
      exact live
  · have sustains := renews.grows.sustains renews.consistent_redirect renews.fresh renews.new_live
      (List.mem_cons_self : id ∈ [id, view.outputLow.node, view.outputHigh.node])
      (fun goes listed => by
        rcases List.mem_cons.mp listed with rfl | isLimit
        · exact renews.works_id.1
        · exact (renews.quiet_of_mem quiet isLimit).live)
      (fun reader listed reads => by
        rcases List.mem_cons.mp listed with rfl | isLimit
        · exact itself reads
        · exact (renews.quiet_of_mem quiet isLimit).not_reads reads)
      (fun reader listed source reads outside => by
        rcases List.mem_cons.mp listed with rfl | isLimit
        · exact (renews.reads_new reads).resolve_left fun isLimit =>
            outside (List.mem_cons_of_mem _ isLimit)
        · exact absurd reads (renews.quiet_of_mem quiet isLimit).not_reads)
    exact sustains.contains_prune renews.consistent_redirect ⟨live, outside⟩

theorem keeps_works (works : before.Works other) (different : other ≠ id) :
    after.contains other = true := by
  refine renews.keeps quiet (renews.grows.live works.1) fun listed => ?_
  rcases List.mem_cons.mp listed with isOld | isLimit
  · exact different isOld
  · exact absurd rfl ((renews.quiet_of_mem quiet isLimit).ne_of_works works)

/-! ## The new node -/

theorem keeps_new : after.contains new = true := by
  refine renews.keeps quiet renews.new_live fun listed => ?_
  rcases List.mem_cons.mp listed with isOld | isLimit
  · exact renews.ne_new renews.works_id.1 isOld.symm
  · exact renews.ne_new (renews.quiet_of_mem quiet isLimit).live rfl

theorem op?_new : after.op? new = before.op? id := by
  obtain ⟨found, _, _⟩ := fakeQuantizeNode_eq_ok renews.isView
  rw [op?_congr (renews.sheds.node_eq new (renews.keeps_new quiet)), op?, op?, found]
  exact renews.op_new

theorem uid?_new : after.uid? new = some (before.nextUid + 2) :=
  (uid?_congr (renews.sheds.node_eq new (renews.keeps_new quiet))).trans renews.uid_new

theorem works_new : after.Works new := by
  obtain ⟨found, isOp, _⟩ := fakeQuantizeNode_eq_ok renews.isView
  have newOp : after.op? new = some (.fakeQuantize view.levels) := by
    rw [renews.op?_new quiet, op?, found, Option.map_some, isOp]
  exact .of_fakeQuantize newOp

/-! ## Other fake quantizations -/

/-- A constant that an operation reads on a slot afterwards it read there before. -/
theorem limit?_of_limit? (consistent : before.IsConsistent) {limit : LimitName}
    {tensor : Tensor α} (works : before.Works other) (different : other ≠ id)
    (found : after.limit? other limit = some tensor) :
    before.limit? other limit = some tensor := by
  obtain ⟨constant, isConstant, isTensor⟩ := Option.bind_eq_some_iff.mp found
  obtain ⟨output, read, rfl⟩ := Option.map_eq_some_iff.mp isConstant
  have stays := renews.keeps_works quiet works different
  have ne_new : output.node ≠ new := works_of_constant?_ne (renews.works_new quiet) isTensor
  rw [input?, renews.sheds.incoming_eq stays] at read
  have earlier := input?_of_redirect read ne_new
  rw [renews.grows.input?_eq works.1] at earlier
  obtain ⟨edge, incoming, rfl⟩ := Option.map_eq_some_iff.mp earlier
  have live := consistent.source_live edge (mem_incoming.mp (List.mem_of_find?_eq_some incoming)).1
  rw [constant?_congr (renews.node_eq live (contains_of_constant? isTensor))] at isTensor
  rw [limit?, inputNode?, earlier, Option.map_some, Option.bind_some, isTensor]

/-- The last two inputs of another fake quantization do not move, so they stay the last two. -/
theorem quietOutputLimits_kept (works : before.Works other) (different : other ≠ id)
    (quietBefore : before.HasQuietOutputLimits other) : after.HasQuietOutputLimits other := by
  intro later isLater
  obtain ⟨present, isOp, inputs⟩ := fakeQuantizeNode_eq_ok isLater
  have stays := renews.keeps_works quiet works different
  have same : (drafted.redirect id new).inputs other = after.inputs other :=
    (renews.sheds.inputs_eq stays).symm
  have count : (before.inputs other).length = 5 := by
    rw [← renews.grows.inputs_eq works.1, ← length_inputs_redirect drafted id new, same, inputs]
    rfl
  obtain ⟨earlier, isEarlier⟩ :=
    exists_fakeQuantizeNode ((renews.node_eq works.1 stays).symm.trans present) isOp count
  obtain ⟨_, _, earlierInputs⟩ := fakeQuantizeNode_eq_ok isEarlier
  obtain ⟨quietLow, quietHigh⟩ := quietBefore earlier isEarlier
  have listed : drafted.inputs other =
      [earlier.data, earlier.inputLow, earlier.inputHigh] ++
        [earlier.outputLow, earlier.outputHigh] :=
    (renews.grows.inputs_eq works.1).trans earlierInputs
  obtain ⟨others, redirected⟩ : ∃ others, (drafted.redirect id new).inputs other = others ++ _ := by
    refine exists_inputs_redirect_append listed fun output member => ?_
    rcases List.mem_pair.mp member with rfl | rfl
    · exact (quietLow.ne_of_works renews.works_id).symm
    · exact (quietHigh.ne_of_works renews.works_id).symm
  have last : [earlier.outputLow, earlier.outputHigh] = [later.outputLow, later.outputHigh] :=
    (List.append_inj' ((redirected.symm.trans same).trans inputs :
      others ++ _ = [later.data, later.inputLow, later.inputHigh] ++ _) rfl).2
  have live (output : Output) (member : output ∈ [later.outputLow, later.outputHigh]) :
      after.contains output.node = true := by
    have read : output ∈ after.inputs other := by
      rw [inputs]
      exact List.mem_append_right [later.data, later.inputLow, later.inputHigh] member
    exact (renews.sheds.consistent.reads_live (reads_of_mem_inputs read)).1
  simp only [List.cons.injEq, and_true] at last
  rw [last.1] at quietLow
  rw [last.2] at quietHigh
  exact ⟨renews.quiet_kept quietLow (live _ (by simp)),
    renews.quiet_kept quietHigh (live _ (by simp))⟩

end RenewsLimit

end Graph

namespace GraphRevision

open QuantGraph.Graph Revision

variable {graph : Graph α} {id : NodeId} {precision : ElementType} {min max : α}

theorem ensures_narrowFakeQuantize_renews (consistent : graph.IsConsistent) :
    (narrowFakeQuantize id precision min max).Ensures graph (fun _ => True) fun new after =>
      ∃ view drafted, graph.RenewsLimit id view new drafted after := by
  unfold narrowFakeQuantize addConstant add
  rw [ensures_bind, ensures_get, ensures_bind]
  refine ensures_ofExcept trivial fun view isView => ?_
  rw [ensures_bind]
  refine ensures_extend_of_eq fun low withLow addedLow => ?_
  rw [ensures_bind]
  have gainsLow : graph.Gains _ [] low withLow := gains_of_add consistent ⟨rfl, by simp⟩ addedLow
  refine ensures_extend_of_eq fun high withHigh addedHigh => ?_
  rw [ensures_bind]
  have gainsHigh : withLow.Gains _ [] high withHigh :=
    gains_of_add gainsLow.consistent ⟨rfl, by simp⟩ addedHigh
  refine ensures_extend_of_eq fun new drafted added => ?_
  rw [ensures_bind]
  have gains : withHigh.Gains _
      [view.data, view.inputLow, view.inputHigh, low.output, high.output] new drafted :=
    gains_of_add gainsHigh.consistent ⟨rfl, by simp⟩ added
  have number : withHigh.nextUid = graph.nextUid + 2 := by
    rw [nextUid_add addedHigh, nextUid_add addedLow]
  have grows := gainsLow.grows.trans gainsHigh.grows
  obtain ⟨present, isOp, _⟩ := fakeQuantizeNode_eq_ok isView
  have fresh : graph.contains new = false :=
    Bool.eq_false_iff.mpr fun live => gains.ne_of_live (grows.live live) rfl
  have different : id ≠ new := ne_of_contains (contains_of_node? present) fresh
  refine ensures_change.mpr ?_
  cases replaced : drafted.replace id new with
  | error => trivial
  | ok after =>
      refine ⟨view, drafted, ?_⟩
      exact
        { isView := isView
          grows := grows.trans gains.grows
          consistent := gains.consistent
          fresh := fresh
          reads := by
            intro output member
            refine reads_of_mem_inputs ?_
            rw [gains.inputs_new]
            exact List.mem_append_left [low.output, high.output] member
          op_new := by
            rw [gains.op?_new, isOp]
            rfl
          uid_new := by
            obtain ⟨type, _, found⟩ := gains.node_new
            rw [uid?, found, Option.map_some, draftNode, number]
          nextUid_eq := by
            rw [(retains_replace replaced).nextUid_eq, nextUid_add added, number]
          pruned := ((replace_eq_ok different).mp replaced).2.2 }

end GraphRevision

end QuantGraph
