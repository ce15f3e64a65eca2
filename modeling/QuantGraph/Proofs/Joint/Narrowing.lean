import QuantGraph.Proofs.Joint.Assembly
import QuantGraph.Proofs.Outcome

/-! What narrowing one fake quantization does to a graph whose constants read nothing:
only constants go, and the fake quantization itself. -/

namespace QuantGraph

namespace Graph

/-- An operation that is no constant stands at an index. -/
def Works (graph : Graph α) (id : NodeId) : Prop :=
  graph.contains id = true ∧ graph.constant? id = none

def ConstantsReadNothing (graph : Graph α) : Prop :=
  ∀ id tensor, graph.constant? id = some tensor → graph.inputs id = []

def HasConstantLimits (graph : Graph α) (id : NodeId) : Prop :=
  ∀ limit, ∃ tensor, graph.limit? id limit = some tensor

/-- The output that is found where a node has gone. -/
def relocated (moved : NodeId → NodeId) (output : Output) : Output :=
  { output with node := moved output.node }

/-- Where nodes are once one has taken the place of another. -/
def moving (old new : NodeId) : NodeId → NodeId := fun id => if id = old then new else id

theorem renamed_eq_relocated (old new : NodeId) :
    renamed old new = relocated (moving old new) := by
  funext output
  unfold renamed relocated moving
  split <;> rfl

@[simp] theorem relocated_id : relocated (fun id => id) = fun output => output := rfl

theorem relocated_of_moved_eq {moved : NodeId → NodeId} {output : Output}
    (same : moved output.node = output.node) : relocated moved output = output := by
  rw [relocated, same]

section Works

variable {graph after : Graph α} {id : NodeId}

theorem Works.of_kind {kind : OpKind} (found : graph.kind? id = some kind)
    (different : kind ≠ .constant) : graph.Works id := by
  refine ⟨contains_of_kind? found, ?_⟩
  obtain ⟨node, present, isKind⟩ := Option.map_eq_some_iff.mp found
  rw [constant?, present, Option.bind_some, Node.constant?]
  unfold Node.kind at isKind
  cases isOp : node.op <;> rw [isOp] at isKind <;> first | rfl | exact absurd isKind.symm different

theorem Works.congr (works : graph.Works id) (equal : after.node? id = graph.node? id) :
    after.Works id :=
  ⟨(contains_congr equal).trans works.1, (constant?_congr equal).trans works.2⟩

theorem works_of_constant?_ne {tensor : Tensor α} {other : NodeId} (works : graph.Works id)
    (constant : graph.constant? other = some tensor) : other ≠ id := by
  rintro rfl
  rw [works.2] at constant
  cases constant

theorem contains_of_constant? {tensor : Tensor α} (constant : graph.constant? id = some tensor) :
    graph.contains id = true := by
  obtain ⟨node, present, _⟩ := Option.bind_eq_some_iff.mp constant
  exact contains_of_node? present

end Works

theorem constantsReadNothing_of_all {graph : Graph α}
    (all : (graph.nodeIds.all fun id =>
      (graph.constant? id).isNone || (graph.inputs id).isEmpty) = true) :
    graph.ConstantsReadNothing := by
  intro id tensor found
  have live : graph.contains id = true := contains_of_constant? found
  have checked := List.all_eq_true.mp all id (mem_nodeIds.mpr live)
  rw [found, Option.isNone_some, Bool.false_or] at checked
  exact List.isEmpty_iff.mp checked

theorem ConstantsReadNothing.works_of_read {graph : Graph α} (constants : graph.ConstantsReadNothing)
    (wellFormed : graph.WellFormed) {consumer : NodeId} {position : Nat} {output : Output}
    (read : (graph.inputs consumer)[position]? = some output) : graph.Works consumer := by
  have reads := reads_of_mem_inputs (List.mem_of_getElem? read)
  refine ⟨live_of_reads wellFormed reads, Option.eq_none_iff_forall_ne_some.mpr ?_⟩
  intro tensor constant
  rw [constants consumer tensor constant] at read
  cases read

/-! ## One fake quantization -/

section Narrows

variable {before after : Graph α} {id : NodeId} {draft : Draft α} {outputs : List Output}

theorem Adds.constant?_new {tensor : Tensor α} {name : String}
    (adds : before.Adds ((Op.constant tensor).draft name) outputs id after) :
    after.constant? id = some tensor := by
  obtain ⟨type, _, present⟩ := adds.node_new
  rw [constant?, present]
  rfl

/-- Everything stays from which a node that stays can be reached. -/
theorem Sheds.keeps_reaching {start source reader : NodeId} (sheds : before.Sheds start after)
    (live : after.contains reader = true) (reaches : before.Reaches source reader) :
    after.contains source = true := by
  induction reaches using Relation.ReflTransGen.head_induction_on with
  | refl => exact live
  | head reads _ kept => exact sheds.keeps_sources kept reads

/-- A narrowed fake quantization has the shape of its data. -/
theorem shape_of_draftedType {view : FakeQuantizeNode α} {name : String} {low high : NodeId}
    {precision : ElementType} {type : ValueType} {data : Node α}
    (present : before.node? view.data.node = some data)
    (drafted : before.draftedType ((view.draftWithOutputs name low high).withPrecision precision) =
      .ok type) : type.shape = data.shape := by
  have ordered : orderedConnections ((view.draftWithOutputs name low high).withPrecision precision) =
      [⟨view.data, 0⟩, ⟨view.inputLow, 1⟩, ⟨view.inputHigh, 2⟩, ⟨low.output, 3⟩,
        ⟨high.output, 4⟩] := rfl
  unfold draftedType at drafted
  rw [ordered] at drafted
  have inferred := Outcome.mapError_eq_ok.mp drafted
  rw [List.filterMap_cons_some (by rw [present, Option.map_some])] at inferred
  rw [Op.eq_of_infer_fakeQuantize inferred]
  rfl

/-- A narrowed copy of a fake quantization stands beside it, with constants for its
output limits. -/
structure DraftsNarrowed (before : Graph α) (view : FakeQuantizeNode α) (precision : ElementType)
    (min max : α) (low high narrowed : NodeId) (node : Node α) (drafted : Graph α) : Prop where
  grows : before.Grows drafted
  wellFormed : drafted.WellFormed
  fresh : before.contains narrowed = false
  contains_iff : ∀ other, drafted.contains other = true ↔
    other = narrowed ∨ other = high ∨ other = low ∨ before.contains other = true
  low_constant : drafted.constant? low = some (.scalar view.node.outputType min)
  high_constant : drafted.constant? high = some (.scalar view.node.outputType max)
  low_inputs : drafted.inputs low = []
  high_inputs : drafted.inputs high = []
  node_new : drafted.node? narrowed = some node
  op_eq : node.op = .fakeQuantize view.levels
  relaxed : node.relaxed = true
  precision_eq : node.precision = some precision
  shape_eq : some node.shape = before.shape? view.data.node
  inputs_new : drafted.inputs narrowed =
    [view.data, view.inputLow, view.inputHigh, low.output, high.output]
  unread : ∀ reader, ¬ drafted.Reads narrowed reader

theorem Narrows.exists_drafted {precision : ElementType} {min max : α} {narrowed : NodeId}
    (narrows : before.Narrows id precision min max narrowed after)
    (wellFormed : before.WellFormed) :
    ∃ view low high node drafted, before.fakeQuantizeNode id = .ok view ∧
      before.DraftsNarrowed view precision min max low high narrowed node drafted ∧
      drafted.Replaces id narrowed after := by
  obtain ⟨view, low, high, withLow, withHigh, drafted, isView, addsLow, addsHigh, adds,
    replaces⟩ := narrows
  obtain ⟨type, drafts, present⟩ := adds.node_new
  refine ⟨view, low, high, withHigh.draftNode ((view.draftWithOutputs view.node.name low
    high).withPrecision precision) type, drafted, isView, ?_, replaces⟩
  obtain ⟨found, isOp, inputs⟩ := fakeQuantizeNode_eq_ok isView
  have grows_high := addsLow.grows.trans addsHigh.grows
  have data_live : before.contains view.data.node = true := by
    have reads : before.Reads view.data.node id := reads_of_mem_inputs (by rw [inputs]; simp)
    exact (wellFormed.consistent.reads_live reads).1
  exact
    { grows := grows_high.trans adds.grows
      wellFormed := adds.wellFormed
      fresh := by
        refine Bool.eq_false_iff.mpr fun live => ?_
        have dead := adds.fresh
        rw [grows_high.live live] at dead
        cases dead
      contains_iff := by
        intro other
        rw [adds.contains_iff, addsHigh.contains_iff, addsLow.contains_iff]
      low_constant := by
        rw [← addsLow.constant?_new]
        exact constant?_congr ((addsHigh.grows.trans adds.grows).node_eq low addsLow.live)
      high_constant := by
        rw [← addsHigh.constant?_new]
        exact constant?_congr (adds.grows.node_eq high addsHigh.live)
      low_inputs := by
        rw [(addsHigh.grows.trans adds.grows).inputs_eq addsLow.live, addsLow.inputs_new]
      high_inputs := by rw [adds.grows.inputs_eq addsHigh.live, addsHigh.inputs_new]
      node_new := present
      op_eq := rfl
      relaxed := rfl
      precision_eq := rfl
      shape_eq := by
        obtain ⟨data, isData⟩ := contains_eq_true_iff.mp data_live
        rw [shape?, isData, Option.map_some]
        refine congrArg some (shape_of_draftedType ?_ drafts)
        rw [grows_high.node_eq view.data.node data_live, isData]
      inputs_new := adds.inputs_new
      unread := adds.not_reads_new addsHigh.wellFormed.consistent }

end Narrows

namespace DraftsNarrowed

variable {before drafted after : Graph α} {view : FakeQuantizeNode α} {precision : ElementType}
  {min max : α} {id low high narrowed : NodeId} {node : Node α}

theorem ne_of_live
    (drafts : before.DraftsNarrowed view precision min max low high narrowed node drafted)
    {other : NodeId} (live : before.contains other = true) : other ≠ narrowed :=
  ne_of_contains live drafts.fresh

theorem keeps_narrowed
    (drafts : before.DraftsNarrowed view precision min max low high narrowed node drafted)
    (replaces : drafted.Replaces id narrowed after) (live : before.contains id = true) :
    after.contains narrowed = true := by
  refine replaces.keeps drafts.wellFormed.acyclic (contains_of_node? drafts.node_new)
    fun reaches => ?_
  rcases Relation.ReflTransGen.cases_head reaches with equal | ⟨reader, reads, _⟩
  · exact drafts.ne_of_live live equal.symm
  · exact drafts.unread reader reads

/-- What the narrowed fake quantization reads stays. -/
theorem keeps_source
    (drafts : before.DraftsNarrowed view precision min max low high narrowed node drafted)
    (replaces : drafted.Replaces id narrowed after) (live : before.contains id = true)
    (output : Output)
    (member : output ∈ [view.data, view.inputLow, view.inputHigh, low.output, high.output]) :
    after.contains output.node = true := by
  refine replaces.sheds.keeps_sources (drafts.keeps_narrowed replaces live) ?_
  rw [reads_iff_mem_inputs, inputs_redirect (drafts.wellFormed.exact narrowed), if_pos rfl,
    drafts.inputs_new]
  exact ⟨output, member, rfl⟩

theorem inputs_redirected
    (drafts : before.DraftsNarrowed view precision min max low high narrowed node drafted)
    {other : NodeId} (live : before.contains other = true) :
    (drafted.redirect id narrowed).inputs other =
      (before.inputs other).map (relocated (moving id narrowed)) := by
  rw [inputs_redirect (drafts.wellFormed.exact other), if_neg (drafts.ne_of_live live),
    drafts.grows.inputs_eq live, renamed_eq_relocated]

/-- Only constants go, and the fake quantization itself. -/
theorem keeps_works
    (drafts : before.DraftsNarrowed view precision min max low high narrowed node drafted)
    (replaces : drafted.Replaces id narrowed after) (isView : before.fakeQuantizeNode id = .ok view)
    (wellFormed : before.WellFormed) (constants : before.ConstantsReadNothing)
    (limits : before.HasConstantLimits id) {other : NodeId} (works : before.Works other)
    (different : other ≠ id) : after.contains other = true := by
  obtain ⟨present, _, inputs⟩ := fakeQuantizeNode_eq_ok isView
  have live := contains_of_node? present
  by_contra gone
  have drafted_live := drafts.grows.live works.1
  obtain ⟨kind, found⟩ : ∃ kind, drafted.kind? other = some kind := by
    obtain ⟨node, present⟩ := contains_eq_true_iff.mp drafted_live
    exact ⟨node.kind, by rw [kind?, present, Option.map_some]⟩
  obtain ⟨_, reaches⟩ := replaces.sheds.removed other kind found (Bool.not_eq_true _ ▸ gone)
  rcases Relation.ReflTransGen.cases_tail_iff _ _ _ |>.mp reaches with equal | ⟨last, path, reads⟩
  · exact different equal.symm
  obtain ⟨_, member, rfl⟩ := reads_iff_mem_inputs.mp reads
  rw [drafts.inputs_redirected live, List.mem_map] at member
  obtain ⟨output, member, rfl⟩ := member
  have apart : output.node ≠ id := by
    intro equal
    have loop := reads_of_mem_inputs member
    rw [equal] at loop
    exact wellFormed.acyclic id (Relation.TransGen.single loop)
  have same : relocated (moving id narrowed) output = output :=
    relocated_of_moved_eq (if_neg apart)
  rw [same] at path
  -- The last node on the way is read by the new fake quantization as well, or it is a
  -- constant, which no way leads to.
  by_cases kept : after.contains output.node = true
  · exact gone (replaces.sheds.keeps_reaching kept path)
  · obtain ⟨limit, read⟩ : ∃ limit : LimitName, (before.inputs id)[limit.slot]? = some output := by
      rw [inputs] at member ⊢
      simp only [List.mem_cons, List.not_mem_nil, or_false] at member
      rcases member with rfl | rfl | rfl | rfl | rfl
      · exact absurd (drafts.keeps_source replaces live _ (by simp)) kept
      · exact ⟨.inputLow, rfl⟩
      · exact ⟨.inputHigh, rfl⟩
      · exact ⟨.outputLow, rfl⟩
      · exact ⟨.outputHigh, rfl⟩
    obtain ⟨tensor, isLimit⟩ := limits limit
    have constant : before.constant? output.node = some tensor := by
      rw [← isLimit, limit?_of_read (wellFormed.exact id) read]
    rcases Relation.ReflTransGen.cases_tail_iff _ _ _ |>.mp path with equal | ⟨_, _, reads⟩
    · exact works_of_constant?_ne works constant equal
    · rw [reads_iff_mem_inputs, drafts.inputs_redirected (contains_of_constant? constant),
        constants output.node tensor constant] at reads
      simp at reads

end DraftsNarrowed

end Graph

end QuantGraph
