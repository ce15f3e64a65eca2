import QuantGraph.Proofs.Graph.Evolution

/-! The primitive steps of a revision: when they give up, the graph has evolved no
further, and otherwise by the one change that they stand for. -/

namespace QuantGraph

namespace GraphRevision

open QuantGraph.Graph Revision

variable {start graph : Graph α} {id : NodeId}

@[simp] theorem ensures_change {change : Graph α → Except GraphError (Graph α)}
    {failed : Graph α → Prop} {done : PUnit → Graph α → Prop} :
    (GraphRevision.change change).Ensures graph failed done ↔
      match change graph with
      | .ok after => done PUnit.unit after
      | .error _ => failed graph := by
  unfold GraphRevision.change
  rw [ensures_bind, ensures_get]
  cases change graph <;> rfl

@[simp] theorem ensures_extend {extension : Graph α → Except GraphError (NodeId × Graph α)}
    {failed : Graph α → Prop} {done : NodeId → Graph α → Prop} :
    (GraphRevision.extend extension).Ensures graph failed done ↔
      match extension graph with
      | .ok (id, after) => done id after
      | .error _ => failed graph := by
  unfold GraphRevision.extend
  rw [ensures_bind, ensures_get]
  cases extension graph <;> rfl

theorem ensures_folded {result : Except BroadcastError β} {failed : Graph α → Prop}
    {done : β → Graph α → Prop} (error : failed graph)
    (ok : ∀ value, result = .ok value → done value graph) :
    (GraphRevision.folded result).Ensures graph failed done := by
  refine ensures_ofExcept error fun value equal => ?_
  cases result with
  | error => cases equal
  | ok => exact ok value (congrArg Except.ok (Except.ok.inj equal))

/-- In any graph whose bookkeeping is in order, an addition gives a graph with one node more. -/
theorem ensures_gain {draft : Draft α} {failed : Graph α → Prop}
    {done : NodeId → Graph α → Prop} (consistent : graph.IsConsistent) (outputs : List Output)
    (reads : draft.ReadsInOrder outputs) (error : failed graph)
    (ok : ∀ id after, graph.Gains draft outputs id after → done id after) :
    (GraphRevision.add draft).Ensures graph failed done := by
  apply ensures_extend.mpr
  cases added : graph.add draft with
  | error => exact error
  | ok result => exact ok _ _ (gains_of_add consistent reads added)

/-- A constant is added, and then a node that reads something and the constant. -/
theorem ensures_gainWithConstant {tensor : Tensor α} {name : String} {draft : NodeId → Draft α}
    {next : NodeId → GraphRevision α β} {failed : Graph α → Prop} {done : β → Graph α → Prop}
    (consistent : graph.IsConsistent) (data : Output)
    (reads : ∀ constant : NodeId, (draft constant).ReadsInOrder [data, constant.output])
    (error : ∀ graph, failed graph)
    (ok : ∀ constant middle id after,
      graph.Gains ((Op.constant tensor).draft name) [] constant middle →
      middle.Gains (draft constant) [data, constant.output] id after →
        (next id).Ensures after failed done) :
    (do let constant ← addConstant tensor name
        let id ← add (draft constant)
        next id).Ensures graph failed done := by
  apply ensures_bind.mpr
  apply ensures_gain consistent [] ⟨rfl, by simp⟩ (error graph)
  intro constant middle gainsConstant
  apply ensures_bind.mpr
  apply ensures_gain gainsConstant.consistent _ (reads constant) (error middle)
  exact fun id after gains => ok constant middle id after gainsConstant gains

theorem ensures_add {draft : Draft α} {outputs : List Output} {done : NodeId → Graph α → Prop}
    (wellFormed : graph.WellFormed) (evolves : start.Evolves graph)
    (reads : draft.ReadsInOrder outputs) (unfixed : isFixedKind draft.op.kind = false)
    (ok : ∀ id after, graph.Adds draft outputs id after → start.Evolves after → done id after) :
    (GraphRevision.add draft).Ensures graph start.Evolves done := by
  refine ensures_extend.mpr ?_
  cases added : graph.add draft with
  | error => exact evolves
  | ok result =>
      have adds := adds_of_add wellFormed reads added
      exact ok _ _ adds (evolves.tail (.add unfixed adds))

theorem ensures_addConstant {tensor : Tensor α} {name : String} {done : NodeId → Graph α → Prop}
    (wellFormed : graph.WellFormed) (evolves : start.Evolves graph)
    (ok : ∀ id after, graph.Adds ((Op.constant tensor).draft name) [] id after →
      start.Evolves after → done id after) :
    (GraphRevision.addConstant tensor name).Ensures graph start.Evolves done :=
  ensures_add wellFormed evolves ⟨rfl, by simp⟩ rfl ok

/-- A node that is built on others does not depend on what they do not depend on. -/
theorem ensures_addOn {op : NodeId} {nodes : List NodeId} {draft : Draft α}
    {done : NodeId → Graph α → Prop} (outputs : List Output)
    (supports : graph.Supports op nodes) (evolves : start.Evolves graph)
    (reads : draft.ReadsInOrder outputs) (unfixed : isFixedKind draft.op.kind = false)
    (sources : ∀ output ∈ outputs, output.node ∈ nodes)
    (ok : ∀ id after, graph.Adds draft outputs id after → after.Supports op (id :: nodes) →
      start.Evolves after → done id after) :
    (GraphRevision.add draft).Ensures graph start.Evolves done :=
  ensures_add supports.wellFormed evolves reads unfixed fun id after adds =>
    ok id after adds (supports.of_adds adds sources)

theorem ensures_addConstantOn {op : NodeId} {nodes : List NodeId} {tensor : Tensor α}
    {name : String} {done : NodeId → Graph α → Prop}
    (supports : graph.Supports op nodes) (evolves : start.Evolves graph)
    (ok : ∀ id after, graph.Adds ((Op.constant tensor).draft name) [] id after →
      after.Supports op (id :: nodes) → start.Evolves after → done id after) :
    (GraphRevision.addConstant tensor name).Ensures graph start.Evolves done :=
  ensures_addOn [] supports evolves ⟨rfl, by simp⟩ rfl (by simp) ok

/-- What a copy shares with its original. -/
theorem copyDraft_eq (node : Node α) (outputs : List Output) :
    (copyDraft node outputs).op = node.op ∧ (copyDraft node outputs).declared = none ∧
      (copyDraft node outputs).connections =
        ((node.op.draft node.name).readOutputs outputs).connections := by
  unfold copyDraft
  rw [Draft.readOutputs_eq]
  cases node.relaxed <;> cases node.precision <;> exact ⟨rfl, rfl, rfl⟩

theorem copyDraft_readsInOrder (node : Node α) {outputs : List Output}
    (bound : outputs.length ≤ 256) : (copyDraft node outputs).ReadsInOrder outputs := by
  have reads := Draft.readOutputs_readsInOrder (node.op.draft node.name) outputs rfl bound
  exact ⟨(copyDraft_eq node outputs).2.2.trans reads.connections_eq, bound⟩

/-- A copy of a parameter is refused, since nothing declares its type. -/
theorem ensures_addCopyOn {op : NodeId} {nodes : List NodeId} {outputs : List Output}
    {done : NodeId → Graph α → Prop}
    (supports : graph.Supports op nodes) (evolves : start.Evolves graph)
    (bound : outputs.length ≤ 256) (not_result : graph.kind? id ≠ some .result)
    (sources : ∀ output ∈ outputs, output.node ∈ nodes)
    (ok : ∀ node copy after, graph.node? id = some node → isFixedKind node.kind = false →
      graph.Adds (copyDraft node outputs) outputs copy after →
      after.Supports op (copy :: nodes) → start.Evolves after → done copy after) :
    (GraphRevision.addCopy id outputs).Ensures graph start.Evolves done := by
  refine ensures_extend.mpr ?_
  obtain missing | ⟨node, found⟩ := Option.eq_none_or_eq_some (graph.node? id)
  · rw [Graph.addCopy, missing]
    exact evolves
  rw [Graph.addCopy, found]
  dsimp only
  cases added : graph.add (copyDraft node outputs) with
  | error => exact evolves
  | ok result =>
      have adds := adds_of_add supports.wellFormed (copyDraft_readsInOrder node bound) added
      obtain ⟨op_eq, declared, _⟩ := copyDraft_eq node outputs
      have not_parameter : node.op.kind ≠ .parameter := op_eq ▸ adds.kind_ne_parameter declared
      rw [kind?, found, Option.map_some, ne_eq, Option.some.injEq] at not_result
      have unfixed : isFixedKind node.kind = false := by
        rw [Node.kind] at not_result ⊢
        simp [isFixedKind, not_parameter, not_result]
      refine ok node _ _ found unfixed adds (supports.of_adds adds sources)
        (evolves.tail (.add ?_ adds))
      rw [op_eq]
      exact unfixed

theorem ensures_replace {old new : NodeId} {done : PUnit → Graph α → Prop}
    (wellFormed : graph.WellFormed) (evolves : start.Evolves graph)
    (apart : ¬ graph.Reaches old new)
    (ok : ∀ after, graph.Replaces old new after → start.Evolves after → done PUnit.unit after) :
    (GraphRevision.replace old new).Ensures graph start.Evolves done := by
  refine ensures_change.mpr ?_
  cases replaced : graph.replace old new with
  | error => exact evolves
  | ok after =>
      have replaces := replaces_of_replace wellFormed apart replaced
      exact ok after replaces (evolves.tail (.replace replaces))

/-- The node that was built last takes the place of the one it was built for. -/
theorem ensures_replaceOn {old new : NodeId} {nodes : List NodeId}
    {done : PUnit → Graph α → Prop}
    (supports : graph.Supports old (new :: nodes)) (evolves : start.Evolves graph)
    (ok : ∀ after, graph.Replaces old new after → start.Evolves after → done PUnit.unit after) :
    (GraphRevision.replace old new).Ensures graph start.Evolves done :=
  ensures_replace supports.wellFormed evolves
    (supports.independent new List.mem_cons_self) ok

theorem ensures_setInput {consumer : NodeId} {slot : UInt8} {source : Output}
    {done : PUnit → Graph α → Prop}
    (wellFormed : graph.WellFormed) (evolves : start.Evolves graph)
    (apart : ¬ graph.Reaches consumer source.node)
    (ok : ∀ after, graph.Resources consumer slot source after → start.Evolves after →
      done PUnit.unit after) :
    (GraphRevision.setInput consumer slot source).Ensures graph start.Evolves done := by
  refine ensures_change.mpr ?_
  cases updated : graph.setInput consumer slot source with
  | error => exact evolves
  | ok after =>
      have resources := resources_of_setInput wellFormed apart updated
      exact ok after resources (evolves.tail (.setInput resources))

theorem ensures_prune {done : PUnit → Graph α → Prop}
    (wellFormed : graph.WellFormed) (evolves : start.Evolves graph)
    (ok : ∀ after, graph.Sheds id after → after.WellFormed → start.Evolves after →
      done PUnit.unit after) :
    (GraphRevision.prune id).Ensures graph start.Evolves done := by
  have sheds := sheds_prune wellFormed.consistent id
  have kept := sheds.wellFormed wellFormed
  exact ok _ sheds kept (evolves.tail (.prune sheds kept))

/-- The change that declares an output precision. -/
def declaring (precision : ElementType) (node : Node α) : Node α :=
  if node.relaxed then { node with precision := some precision }
  else { node with outputType := precision }

theorem isRedeclared_declaring (precision : ElementType) (node : Node α) :
    IsRedeclared node (declaring precision node) := by
  unfold declaring
  split <;> exact ⟨rfl, rfl, rfl, rfl⟩

theorem ensures_setPrecision {precision : ElementType} {done : PUnit → Graph α → Prop}
    (wellFormed : graph.WellFormed) (evolves : start.Evolves graph)
    (unfixed : graph.Unfixed id)
    (ok : ∀ after, graph.contains id = true → graph.Declares id (declaring precision) after →
      start.Evolves after → done PUnit.unit after) :
    (GraphRevision.setPrecision id precision).Ensures graph start.Evolves done := by
  refine ensures_change.mpr ?_
  unfold Graph.setPrecision
  by_cases live : graph.contains id = true
  · rw [if_pos live]
    have redeclared := isRedeclared_declaring (α := α) precision
    have declares : graph.Declares id (declaring precision) _ :=
      declares_modify wellFormed redeclared
    exact ok _ live declares (evolves.tail (.declare unfixed redeclared declares))
  · rw [if_neg live]
    exact evolves

theorem ensures_overridePrecision {precision : ElementType} {done : PUnit → Graph α → Prop}
    (wellFormed : graph.WellFormed) (evolves : start.Evolves graph)
    (unfixed : graph.Unfixed id)
    (ok : ∀ after, graph.isRelaxed id = true →
      graph.Declares id (fun node => { node with precision := some precision }) after →
      start.Evolves after → done PUnit.unit after) :
    (GraphRevision.overridePrecision id precision).Ensures graph start.Evolves done := by
  refine ensures_change.mpr ?_
  unfold Graph.overridePrecision
  cases found : graph.node? id with
  | none => exact evolves
  | some node =>
      dsimp only
      by_cases relaxed : node.relaxed = true
      · rw [if_pos relaxed]
        have redeclared (node : Node α) :
            IsRedeclared node { node with precision := some precision } := ⟨rfl, rfl, rfl, rfl⟩
        have declares : graph.Declares id _ _ := declares_modify wellFormed redeclared
        refine ok _ ?_ declares (evolves.tail (.declare unfixed redeclared declares))
        rw [isRelaxed, found]
        exact relaxed
      · rw [if_neg relaxed]
        exact evolves

end GraphRevision

end QuantGraph
