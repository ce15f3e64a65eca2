import QuantGraph.Proofs.Dequantization.Division
import QuantGraph.Proofs.Joint.Passes
import QuantGraph.Proofs.Joint.Renewal

/-! While the fake quantizations of a subgraph are narrowed one after the other, the subgraph and
the cache follow them, though the indices that become vacant are given to new nodes meanwhile. -/

namespace QuantGraph

namespace DequantizationCache

variable {cache : DequantizationCache α} {id new : NodeId} {values : Dequantization α}

/-- An entry that is made for a node and goes to another comes in front of those there are. -/
theorem entries_rekey_insert (different : id ≠ new)
    (apart : ∀ entry ∈ cache.entries, entry.1 ≠ id ∧ entry.1 ≠ new) :
    ((cache.insert id values).rekey id new).entries = (new, values) :: cache.entries := by
  have unlisted : ∀ place values, (place, values) ∈ cache.entries → ¬place = new ∧ ¬place = id :=
    fun place values member => (apart (place, values) member).symm
  unfold rekey
  rw [if_neg different, get?_insert, if_pos rfl]
  simpa [insert, erase] using unlisted

/-- Where every key stands once, an entry is found under its key. -/
theorem get?_of_mem (nodup : (cache.entries.map Prod.fst).Nodup)
    (member : (id, values) ∈ cache.entries) : cache.get? id = some values := by
  obtain ⟨earlier, later, entries_eq⟩ := List.append_of_mem member
  refine List.lookup_eq_some_iff.mpr ⟨earlier, later, entries_eq, fun entry listed => ?_⟩
  rw [entries_eq, List.map_append, List.map_cons, List.nodup_append] at nodup
  exact bne_iff_ne.mpr
    (nodup.2.2 entry.1 (List.mem_map_of_mem listed) id List.mem_cons_self).symm

end DequantizationCache

/-- The members of a subgraph are operations of a graph, and its fake quantizations are listed
once. -/
structure Subgraph.StandsIn (subgraph : Subgraph) (graph : Graph α) : Prop where
  quantizers_nodup : subgraph.quantizers.Nodup
  quantizer_layer : ∀ id ∈ subgraph.quantizers, id ∈ subgraph.layers
  concat_layer : ∀ id ∈ subgraph.concats, id ∈ subgraph.layers
  works : ∀ id ∈ subgraph.layers, graph.Works id

theorem Subgraph.Discovers.standsIn {graph : Graph α} {subgraph : Subgraph}
    (discovers : Discovers graph [] subgraph) : subgraph.StandsIn graph where
  quantizers_nodup := discovers.quantizers_nodup
  quantizer_layer := fun id member => (discovers.quantizer_layer id member).1
  concat_layer := fun id member => (discovers.concat_layer id member).1
  works := fun _ => discovers.layer_works

/-- In a well-formed graph whose constants read nothing, constant limits are enough. -/
theorem Graph.HasConstantLimits.hasQuietOutputLimits {graph : Graph α} {id : NodeId}
    (limits : graph.HasConstantLimits id) (wellFormed : graph.WellFormed)
    (constants : graph.ConstantsReadNothing) : graph.HasQuietOutputLimits id := by
  intro view isView
  obtain ⟨_, _, inputs⟩ := fakeQuantizeNode_eq_ok isView
  have quiet {limit : LimitName} {output : Output}
      (read : (graph.inputs id)[limit.slot]? = some output) : graph.IsQuiet output.node := by
    obtain ⟨tensor, isLimit⟩ := limits limit
    rw [limit?_of_read (wellFormed.exact id) read] at isLimit
    exact ⟨⟨tensor, isLimit⟩, constants output.node tensor isLimit⟩
  exact ⟨@quiet .outputLow _ (by rw [inputs]; rfl), @quiet .outputHigh _ (by rw [inputs]; rfl)⟩

namespace JointState

open QuantGraph.Graph

/-! ## One turn -/

/-- Some of the fake quantizations of a subgraph have given way to new ones, and the others wait
for their turns, with the limits that they had. -/
structure Renewing (start : JointState α) (done waiting : List NodeId) (moved : NodeId → NodeId)
    (values : List (Dequantization α)) (cache : DequantizationCache α) (state : JointState α) :
    Prop where
  quantizers_eq : start.subgraph.quantizers = done ++ waiting
  consistent : state.graph.IsConsistent
  subgraph_eq : state.subgraph = start.subgraph.relocate moved
  moved_other : ∀ id, id ∉ done → moved id = id
  injective : ∀ left ∈ start.subgraph.layers, ∀ right ∈ start.subgraph.layers,
    moved left = moved right → left = right
  works : ∀ id ∈ start.subgraph.layers, state.graph.Works (moved id)
  length_eq : values.length = done.length
  entries_eq : cache.entries = ((done.map moved).zip values).reverse
  nextUid_eq : state.graph.nextUid = start.graph.nextUid + 3 * done.length
  renewed : ∀ position id, done[position]? = some id →
    (∃ levels, start.graph.op? id = some (.fakeQuantize levels) ∧
      state.graph.op? (moved id) = some (.fakeQuantize levels)) ∧
      state.graph.uid? (moved id) = some (start.graph.nextUid + 3 * position + 2)
  node_waiting : ∀ id ∈ waiting, state.graph.node? id = start.graph.node? id
  limit_waiting : ∀ id ∈ waiting, ∀ limit tensor,
    state.graph.limit? id limit = some tensor → start.graph.limit? id limit = some tensor
  quiet_waiting : ∀ id ∈ waiting, state.graph.HasQuietOutputLimits id

variable {start state after : JointState α} {done waiting : List NodeId} {moved : NodeId → NodeId}
  {values : List (Dequantization α)} {cache : DequantizationCache α} {id new : NodeId}
  {view : FakeQuantizeNode α} {drafted : Graph α} {value : Dequantization α}

theorem renewing_start (consistent : start.graph.IsConsistent)
    (members : start.subgraph.StandsIn start.graph)
    (quiet : ∀ id ∈ start.subgraph.quantizers, start.graph.HasQuietOutputLimits id) :
    start.Renewing [] start.subgraph.quantizers (fun id => id) [] .empty start where
  quantizers_eq := rfl
  consistent := consistent
  subgraph_eq := by simp [Subgraph.relocate]
  moved_other := fun _ _ => rfl
  injective := fun _ _ _ _ equal => equal
  works := members.works
  length_eq := rfl
  entries_eq := rfl
  nextUid_eq := rfl
  renewed := by simp
  node_waiting := fun _ _ => rfl
  limit_waiting := fun _ _ _ _ found => found
  quiet_waiting := quiet

namespace Renewing

section Turn

variable (renewing : start.Renewing done (id :: waiting) moved values cache state)
  (members : start.subgraph.StandsIn start.graph)

include renewing members

theorem layer_waiting {other : NodeId} (member : other ∈ id :: waiting) :
    other ∈ start.subgraph.layers :=
  members.quantizer_layer other (renewing.quantizers_eq ▸ List.mem_append_right done member)

theorem layer_done {other : NodeId} (member : other ∈ done) : other ∈ start.subgraph.layers :=
  members.quantizer_layer other (renewing.quantizers_eq ▸ List.mem_append_left _ member)

theorem not_done {other : NodeId} (member : other ∈ id :: waiting) : other ∉ done := by
  have nodup := members.quantizers_nodup
  rw [renewing.quantizers_eq, List.nodup_append] at nodup
  exact fun isDone => nodup.2.2 other isDone other member rfl

theorem moved_waiting {other : NodeId} (member : other ∈ id :: waiting) : moved other = other :=
  renewing.moved_other other (renewing.not_done members member)

theorem ne_of_mem_waiting {other : NodeId} (member : other ∈ waiting) : other ≠ id := by
  have nodup := members.quantizers_nodup
  rw [renewing.quantizers_eq, List.nodup_append] at nodup
  rintro rfl
  exact (List.nodup_cons.mp nodup.2.1).1 member

/-- No other member stands where the next fake quantization stands. -/
theorem moved_eq_iff {other : NodeId} (layer : other ∈ start.subgraph.layers) :
    moved other = id ↔ other = id := by
  have self := renewing.moved_waiting members (List.mem_cons_self : id ∈ id :: waiting)
  constructor
  · intro equal
    exact renewing.injective other layer id
      (renewing.layer_waiting members List.mem_cons_self) (equal.trans self.symm)
  · rintro rfl
    exact self

theorem moved_done {other : NodeId} (member : other ∈ done) : moved other ≠ id := by
  rw [ne_eq, renewing.moved_eq_iff members (renewing.layer_done members member)]
  rintro rfl
  exact renewing.not_done members List.mem_cons_self member

variable (renews : state.graph.RenewsLimit id view new drafted after.graph)

include renews

omit members in
theorem ne_new {other : NodeId} (layer : other ∈ start.subgraph.layers) : moved other ≠ new :=
  renews.ne_new (renewing.works other layer).1

/-- Nothing is kept for the next fake quantization, nor for the index of the new one. -/
theorem entries_next :
    ((cache.insert id value).rekey id new).entries =
      (((done ++ [id]).map (moving id new ∘ moved)).zip (values ++ [value])).reverse := by
  have self := renewing.moved_waiting members (List.mem_cons_self : id ∈ id :: waiting)
  have different := renews.ne_new renews.works_id.1
  have same : done.map (moving id new ∘ moved) = done.map moved :=
    List.map_congr_left fun other member => if_neg (renewing.moved_done members member)
  have last : moving id new (moved id) = new := if_pos self
  rw [DequantizationCache.entries_rekey_insert different, renewing.entries_eq, List.map_append,
    same, List.zip_append (by rw [List.length_map, renewing.length_eq])]
  · simp [last]
  · intro entry member
    rw [renewing.entries_eq, List.mem_reverse] at member
    obtain ⟨other, isDone, equal⟩ := List.mem_map.mp (List.of_mem_zip member).1
    rw [← equal]
    exact ⟨renewing.moved_done members isDone,
      renewing.ne_new renews (renewing.layer_done members isDone)⟩

theorem next (subgraph_eq : after.subgraph = state.subgraph.replace id new) :
    start.Renewing (done ++ [id]) waiting (moving id new ∘ moved) (values ++ [value])
      ((cache.insert id value).rekey id new) after := by
  have isNext : id ∈ id :: waiting := List.mem_cons_self
  have self := renewing.moved_waiting members isNext
  have quiet := renewing.quiet_waiting id isNext
  have stays {other : NodeId} (layer : other ∈ start.subgraph.layers) (different : other ≠ id) :
      moving id new (moved other) = moved other :=
    if_neg (mt (renewing.moved_eq_iff members layer).mp different)
  have kept {other : NodeId} (layer : other ∈ start.subgraph.layers) (different : other ≠ id) :
      after.graph.node? (moved other) = state.graph.node? (moved other) := by
    have works := renewing.works other layer
    exact renews.node_eq works.1 (renews.keeps_works quiet works
      (mt (renewing.moved_eq_iff members layer).mp different))
  have waits {other : NodeId} (member : other ∈ waiting) :
      state.graph.Works other ∧ other ≠ id := by
    have listed := List.mem_cons_of_mem id member
    refine ⟨?_, renewing.ne_of_mem_waiting members member⟩
    rw [← renewing.moved_waiting members listed]
    exact renewing.works other (renewing.layer_waiting members listed)
  exact
    { quantizers_eq := by rw [renewing.quantizers_eq, List.append_assoc, List.singleton_append]
      consistent := renews.sheds.consistent
      subgraph_eq := by
        rw [subgraph_eq, renewing.subgraph_eq]
        simp [Subgraph.relocate, Subgraph.replace, moving, Function.comp_def]
      moved_other := by
        intro other outside
        rw [List.mem_append, not_or, List.mem_singleton] at outside
        rw [Function.comp_apply, renewing.moved_other other outside.1]
        exact if_neg outside.2
      injective := by
        intro left leftLayer right rightLayer equal
        rw [Function.comp_apply, Function.comp_apply] at equal
        by_cases leftNext : left = id <;> by_cases rightNext : right = id
        · exact leftNext.trans rightNext.symm
        · rw [stays rightLayer rightNext, leftNext, self, moving, if_pos rfl] at equal
          exact absurd equal.symm (renewing.ne_new renews rightLayer)
        · rw [stays leftLayer leftNext, rightNext, self, moving, if_pos rfl] at equal
          exact absurd equal (renewing.ne_new renews leftLayer)
        · rw [stays leftLayer leftNext, stays rightLayer rightNext] at equal
          exact renewing.injective left leftLayer right rightLayer equal
      works := by
        intro other layer
        rw [Function.comp_apply]
        by_cases isId : other = id
        · rw [isId, self, moving, if_pos rfl]
          exact renews.works_new quiet
        · rw [stays layer isId]
          exact (renewing.works other layer).congr (kept layer isId)
      length_eq := by rw [List.length_append, List.length_append, renewing.length_eq]; rfl
      entries_eq := renewing.entries_next members renews
      nextUid_eq := by
        rw [renews.nextUid_eq, renewing.nextUid_eq, List.length_append, List.length_singleton]
        omega
      renewed := by
        intro position other found
        rw [Function.comp_apply]
        rw [List.getElem?_append] at found
        split at found
        case isTrue =>
          have member := List.mem_of_getElem? found
          have layer := renewing.layer_done members member
          have different : other ≠ id :=
            mt (renewing.moved_eq_iff members layer).mpr (renewing.moved_done members member)
          rw [stays layer different, op?_congr (kept layer different),
            uid?_congr (kept layer different)]
          exact renewing.renewed position other found
        case isFalse late =>
          obtain ⟨inside, isLast⟩ := List.getElem?_eq_some_iff.mp found
          rw [List.getElem_singleton] at isLast
          rw [List.length_singleton] at inside
          have last : position = done.length := by omega
          obtain ⟨present, isOp, _⟩ := fakeQuantizeNode_eq_ok renews.isView
          have found : state.graph.op? id = some (.fakeQuantize view.levels) := by
            rw [op?, present, Option.map_some, isOp]
          rw [← isLast, self, moving, if_pos rfl, renews.op?_new quiet, renews.uid?_new quiet,
            renewing.nextUid_eq, last, ← op?_congr (renewing.node_waiting id isNext)]
          exact ⟨⟨view.levels, found, found⟩, rfl⟩
      node_waiting := by
        intro other member
        obtain ⟨works, different⟩ := waits member
        rw [renews.node_eq works.1 (renews.keeps_works quiet works different)]
        exact renewing.node_waiting other (List.mem_cons_of_mem id member)
      limit_waiting := by
        intro other member limit tensor found
        obtain ⟨works, different⟩ := waits member
        exact renewing.limit_waiting other (List.mem_cons_of_mem id member) limit tensor
          (renews.limit?_of_limit? quiet renewing.consistent works different found)
      quiet_waiting := by
        intro other member
        obtain ⟨works, different⟩ := waits member
        exact renews.quietOutputLimits_kept quiet works different
          (renewing.quiet_waiting other (List.mem_cons_of_mem id member)) }

end Turn

end Renewing

/-! ## All turns -/

/-- Every fake quantization of a subgraph has given way to one that was created in its turn, as the
last of three nodes. The members are there, and one dequantization is kept for each new fake
quantization and for nothing else. -/
structure Follows (before : JointState α) (moved : NodeId → NodeId)
    (values : List (Dequantization α)) (cache : DequantizationCache α) (after : JointState α) :
    Prop where
  subgraph_eq : after.subgraph = before.subgraph.relocate moved
  moved_other : ∀ id, id ∉ before.subgraph.quantizers → moved id = id
  live : ∀ id ∈ after.subgraph.quantizers ++ after.subgraph.concats ++ after.subgraph.layers,
    after.graph.contains id = true
  renewed : ∀ position id, before.subgraph.quantizers[position]? = some id →
    (∃ levels, before.graph.op? id = some (.fakeQuantize levels) ∧
      after.graph.op? (moved id) = some (.fakeQuantize levels)) ∧
      after.graph.uid? (moved id) = some (before.graph.nextUid + 3 * position + 2)
  length_eq : values.length = before.subgraph.quantizers.length
  entries_eq : cache.entries = (after.subgraph.quantizers.zip values).reverse
  keys_nodup : (cache.entries.map Prod.fst).Nodup
  kept : ∀ entry ∈ after.subgraph.quantizers.zip values, cache.get? entry.1 = some entry.2

theorem Renewing.follows
    (renewing : start.Renewing start.subgraph.quantizers [] moved values cache state)
    (members : start.subgraph.StandsIn start.graph) : start.Follows moved values cache state := by
  have quantizers_eq : state.subgraph.quantizers = start.subgraph.quantizers.map moved := by
    rw [renewing.subgraph_eq]
    rfl
  have entries_eq : cache.entries = (state.subgraph.quantizers.zip values).reverse := by
    rw [renewing.entries_eq, quantizers_eq]
  have nodup : state.subgraph.quantizers.Nodup := by
    rw [quantizers_eq]
    refine members.quantizers_nodup.map_on fun left leftMember right rightMember equal => ?_
    exact renewing.injective left (members.quantizer_layer left leftMember) right
      (members.quantizer_layer right rightMember) equal
  have keys_nodup : (cache.entries.map Prod.fst).Nodup := by
    rw [entries_eq, List.map_reverse, List.nodup_reverse, List.map_fst_zip]
    · exact nodup
    · rw [quantizers_eq, List.length_map, renewing.length_eq]
  exact
    { subgraph_eq := renewing.subgraph_eq
      moved_other := renewing.moved_other
      live := by
        have stands {id : NodeId} (layer : id ∈ start.subgraph.layers) :
            state.graph.contains (moved id) = true := (renewing.works id layer).1
        rw [renewing.subgraph_eq]
        intro id member
        simp only [Subgraph.relocate, List.mem_append, List.mem_map] at member
        rcases member with (⟨id, listed, rfl⟩ | ⟨id, listed, rfl⟩) | ⟨id, listed, rfl⟩
        · exact stands (members.quantizer_layer id listed)
        · exact stands (members.concat_layer id listed)
        · exact stands listed
      renewed := renewing.renewed
      length_eq := renewing.length_eq
      entries_eq := entries_eq
      keys_nodup := keys_nodup
      kept := by
        rintro ⟨new, value⟩ member
        rw [← List.mem_reverse, ← entries_eq] at member
        exact cache.get?_of_mem keys_nodup member }

end JointState

namespace JointRevision

open QuantGraph.Graph QuantGraph.JointState Revision

variable {start state : JointState α} {done waiting : List NodeId} {moved : NodeId → NodeId}
  {values : List (Dequantization α)} {cache : DequantizationCache α} {id : NodeId}

theorem ensures_narrow_renewing {value : Dequantization α} {precision : ElementType} {min max : α}
    (renewing : start.Renewing done (id :: waiting) moved values cache state)
    (members : start.subgraph.StandsIn start.graph) :
    (narrow cache id value precision min max).Ensures state (fun _ => True) fun next after =>
      ∃ new, start.Renewing (done ++ [id]) waiting (moving id new ∘ moved) (values ++ [value]) next
        after := by
  unfold narrow
  simp only [ensures_bind, ensures_onGraph, ensures_modify, ensures_markHandled, ensures_pure]
  refine (GraphRevision.ensures_narrowFakeQuantize_renews renewing.consistent).mono
    (fun _ _ => trivial) ?_
  rintro new after ⟨view, drafted, renews⟩
  let run : RunState α := { graph := after, handled := state.handled }
  have renews : state.graph.RenewsLimit id view new drafted (run.markHandled new).graph := by
    rw [RunState.graph_markHandled]
    exact renews
  exact ⟨new, renewing.next members renews rfl⟩

/-- All fake quantizations take their turns, and what each turn keeps is as the turns say. -/
theorem ensures_turns {β : Type} {entries : List (NodeId × β)}
    {related : NodeId × β → Dequantization α → Prop}
    {body : DequantizationCache α → NodeId × β → JointRevision α (DequantizationCache α)}
    (consistent : start.graph.IsConsistent) (members : start.subgraph.StandsIn start.graph)
    (quiet : ∀ id ∈ start.subgraph.quantizers, start.graph.HasQuietOutputLimits id)
    (ids_eq : entries.map Prod.fst = start.subgraph.quantizers)
    (each : ∀ entry done waiting moved values cache (middle : JointState α),
      start.Renewing done (entry.1 :: waiting) moved values cache middle →
        (body cache entry).Ensures middle (fun _ => True) fun next after =>
          ∃ new value, related entry value ∧ start.Renewing (done ++ [entry.1]) waiting
            (moving entry.1 new ∘ moved) (values ++ [value]) next after) :
    (entries.foldlM body .empty).Ensures start (fun _ => True) fun cache after =>
      ∃ moved values, start.Follows moved values cache after ∧
        List.Forall₂ related entries values := by
  have renewing := JointState.renewing_start consistent members quiet
  rw [← ids_eq] at renewing
  have turns : (entries.foldlM body .empty).Ensures start (fun _ => True) fun cache after =>
      ∃ front moved values, entries = front ++ [] ∧
        start.Renewing (front.map Prod.fst) [] moved values cache after ∧
        List.Forall₂ related front values := by
    refine ensures_foldlM (fun rest cache (middle : JointState α) => ∃ front moved values,
      entries = front ++ rest ∧
        start.Renewing (front.map Prod.fst) (rest.map Prod.fst) moved values cache middle ∧
        List.Forall₂ related front values) ⟨[], _, [], rfl, renewing, .nil⟩ ?_
    rintro head tail cache middle ⟨front, moved, values, entries_eq, renewing, relates⟩
    refine (each head _ _ moved values cache middle renewing).mono (fun _ _ => trivial) ?_
    rintro next after ⟨new, value, relatesHead, renewing⟩
    refine ⟨front ++ [head], moving head.1 new ∘ moved, values ++ [value], by simp [entries_eq], ?_,
      List.rel_append relates (.cons relatesHead .nil)⟩
    rw [List.map_append]
    exact renewing
  refine turns.mono (fun _ _ => trivial) ?_
  rintro cache after ⟨front, moved, values, entries_eq, renewing, relates⟩
  rw [List.append_nil] at entries_eq
  subst entries_eq
  rw [ids_eq] at renewing
  exact ⟨moved, values, renewing.follows members, relates⟩

variable [Scalar α] {updatePrecisions : Bool}

theorem ensures_narrowToTarget_renewing {entry : NodeId × TargetRange α}
    (members : start.subgraph.StandsIn start.graph)
    (renewing : start.Renewing done (entry.1 :: waiting) moved values cache state) :
    (narrowToTarget updatePrecisions cache entry).Ensures state (fun _ => True) fun next after =>
      ∃ new value, start.graph.restoringDequantization entry.1 entry.2 = .ok value ∧
        start.Renewing (done ++ [entry.1]) waiting (moving entry.1 new ∘ moved) (values ++ [value])
          next after := by
  unfold narrowToTarget
  rw [ensures_bind, ensures_get, ensures_bind]
  refine ensures_ofExcept trivial fun value restores => ?_
  refine (ensures_narrow_renewing renewing members).mono (fun _ _ => trivial) ?_
  rintro next after ⟨new, renewing'⟩
  refine ⟨new, value, ?_, renewing'⟩
  obtain ⟨low, high, _, isLow, isHigh, _⟩ := exists_width_of_restoring restores
  have limit := renewing.limit_waiting entry.1 List.mem_cons_self
  rw [← restores, restoringDequantization_congr (renewing.node_waiting entry.1 List.mem_cons_self)
    (limit _ low isLow) (limit _ high isHigh) isLow isHigh]

theorem ensures_narrowToShare_renewing {shared : SharedScale α}
    {entry : NodeId × QuantizationLimits α} (members : start.subgraph.StandsIn start.graph)
    (renewing : start.Renewing done (entry.1 :: waiting) moved values cache state) :
    (narrowToShare shared updatePrecisions cache entry).Ensures state (fun _ => True)
      fun next after => ∃ new value, shared.dequantization = value ∧
        start.Renewing (done ++ [entry.1]) waiting (moving entry.1 new ∘ moved) (values ++ [value])
          next after := by
  unfold narrowToShare
  rw [ensures_bind, ensures_get]
  refine (ensures_narrow_renewing renewing members).mono (fun _ _ => trivial) ?_
  rintro next after ⟨new, renewing⟩
  exact ⟨new, _, rfl, renewing⟩

section Loops

variable (consistent : state.graph.IsConsistent) (members : state.subgraph.StandsIn state.graph)
  (quiet : ∀ id ∈ state.subgraph.quantizers, state.graph.HasQuietOutputLimits id)

include consistent members quiet

theorem ensures_narrowToTargets_follows {targets : List (TargetRange α)}
    (length_eq : targets.length = state.subgraph.quantizers.length) :
    (narrowToTargets targets updatePrecisions).Ensures state (fun _ => True) fun cache after =>
      ∃ moved values, state.Follows moved values cache after ∧
        List.Forall₂ (fun entry value =>
          state.graph.restoringDequantization entry.1 entry.2 = .ok value)
          (state.subgraph.quantizers.zip targets) values := by
  rw [narrowToTargets_eq, ensures_bind, ensures_get]
  exact ensures_turns consistent members quiet (List.map_fst_zip (Nat.le_of_eq length_eq.symm))
    fun _ _ _ _ _ _ _ renewing => ensures_narrowToTarget_renewing members renewing

theorem ensures_narrowToShares_follows {shared : SharedScale α}
    (length_eq : shared.limits.length = state.subgraph.quantizers.length) :
    (narrowToShares shared updatePrecisions).Ensures state (fun _ => True) fun cache after =>
      ∃ moved, state.Follows moved (state.subgraph.quantizers.map fun _ => shared.dequantization)
        cache after := by
  have ids_eq := List.map_fst_zip (Nat.le_of_eq length_eq.symm)
  rw [narrowToShares_eq, ensures_bind, ensures_get]
  refine (ensures_turns consistent members quiet ids_eq fun _ _ _ _ _ _ _ renewing =>
    ensures_narrowToShare_renewing members renewing).mono (fun _ _ => trivial) ?_
  rintro cache after ⟨moved, values, follows, relates⟩
  have same : (state.subgraph.quantizers.map fun _ => shared.dequantization) = values := by
    rw [← ids_eq, List.map_map, ← List.forall₂_eq_eq_eq, List.forall₂_map_left_iff]
    exact relates
  exact ⟨moved, same ▸ follows⟩

/-- The subgraph and the cache follow fake quantizations that are narrowed one after the other, to
targets of their own or to shares of one range, whatever indices become vacant and are given to new
nodes on the way. -/
theorem follows_of_narrowing {policy : Policy} :
    (∀ found cache after,
      ChannelTargets.forSubgraph state.graph state.subgraph policy = .ok (some found) →
      (narrowToTargets found.targets policy.updatePrecisions).runOn state = (.ok cache, after) →
      ∃ moved values, state.Follows moved values cache after ∧
        List.Forall₂ (fun entry value =>
          state.graph.restoringDequantization entry.1 entry.2 = .ok value)
          (state.subgraph.quantizers.zip found.targets) values) ∧
    ∀ shared cache after,
      SharedScale.forSubgraph state.graph state.subgraph policy = .ok (some shared) →
      (narrowToShares shared policy.updatePrecisions).runOn state = (.ok cache, after) →
      ∃ moved, state.Follows moved (state.subgraph.quantizers.map fun _ => shared.dequantization)
        cache after := by
  constructor
  · intro found cache after resolves ran
    exact (ensures_narrowToTargets_follows consistent members quiet
      (targets_of_forSubgraph resolves).1).of_runOn ran
  · intro shared cache after resolves ran
    exact (ensures_narrowToShares_follows consistent members quiet
      (limits_of_forSubgraph resolves).1).of_runOn ran

end Loops

/-- A pixel that is quantized twice with the same constants for its limits, and a Concat of both. -/
def sharedLimits : List (Draft Rat) :=
  let quantize (name : String) (levels : Nat) : Draft Rat :=
    ((Op.fakeQuantize levels).draft name).readOutputs
      [(NodeId.mk 0).output, (NodeId.mk 1).output, (NodeId.mk 2).output, (NodeId.mk 1).output,
        (NodeId.mk 2).output]
  [{ op := .parameter, name := "pixel"
     declared := some { elementType := .f32, shape := [1, 1, 1, 1] } },
    (Op.constant (.scalar .f32 0)).draft "zero",
    (Op.constant (.scalar .f32 510)).draft "wide",
    quantize "first" 256,
    quantize "second" 256,
    ((Op.concat 1).draft "joined").readAll [NodeId.mk 3, NodeId.mk 4],
    (Op.result.draft "output").readAll [NodeId.mk 5]]

/-- The second fake quantization gets its lower limit where the first one stood. -/
theorem follows_of_narrowing_sharedLimits :
    ∃ (state perChannel withShare : JointState Rat) (found : ChannelTargets Rat)
      (shared : SharedScale Rat) (cache sharedCache : DequantizationCache Rat) (graph : Graph Rat),
      Graph.empty.addAll sharedLimits = .ok graph ∧ state.toRunState = .ofGraph graph ∧
      Subgraph.around? (.all {}) state.graph (NodeId.mk 5) = some state.subgraph ∧
      state.graph.IsConsistent ∧ state.subgraph.StandsIn state.graph ∧
      (∀ id ∈ state.subgraph.quantizers, state.graph.HasQuietOutputLimits id) ∧
      ChannelTargets.forSubgraph state.graph state.subgraph {} = .ok (some found) ∧
      (narrowToTargets found.targets true).runOn state = (.ok cache, perChannel) ∧
      SharedScale.forSubgraph state.graph state.subgraph {} = .ok (some shared) ∧
      (narrowToShares shared true).runOn state = (.ok sharedCache, withShare) ∧
      perChannel.graph.isConstant (NodeId.mk 3) = true ∧
      (∃ moved values, state.Follows moved values cache perChannel ∧
        List.Forall₂ (fun entry value =>
          state.graph.restoringDequantization entry.1 entry.2 = .ok value)
          (state.subgraph.quantizers.zip found.targets) values) ∧
      ∃ moved, state.Follows moved (state.subgraph.quantizers.map fun _ => shared.dequantization)
        sharedCache withShare := by
  let subgraph : Subgraph :=
    { quantizers := [NodeId.mk 3, NodeId.mk 4], concats := [NodeId.mk 5]
      layers := [NodeId.mk 5, NodeId.mk 3, NodeId.mk 4] }
  have ordered : ∀ draft ∈ sharedLimits, draft.IsInOrder := by decide
  have made : (Graph.empty.addAll sharedLimits).map (fun graph =>
      (graph.kind? (NodeId.mk 5), Subgraph.around? (.all {}) graph (NodeId.mk 5),
        graph.nodeIds.all fun id => (graph.constant? id).isNone || (graph.inputs id).isEmpty)) =
      .ok (some .concat, some subgraph, true) := by decide +kernel
  have ran : (Graph.empty.addAll sharedLimits).map (fun graph =>
      let state : JointState Rat := { toRunState := .ofGraph graph, subgraph := subgraph }
      ((ChannelTargets.forSubgraph graph subgraph {}).map (Option.map fun found =>
          let ran := (narrowToTargets found.targets true).runOn state
          (ran.1.map DequantizationCache.size, ran.2.graph.isConstant (NodeId.mk 3))),
        (SharedScale.forSubgraph graph subgraph {}).map (Option.map fun shared =>
          ((narrowToShares shared true).runOn state).1.map DequantizationCache.size))) =
      .ok (.ok (some (.ok 2, true)), .ok (some (.ok 2))) := by decide +kernel
  obtain ⟨graph, added, facts⟩ := Outcome.map_eq_ok.mp made
  simp only [Prod.mk.injEq] at facts
  obtain ⟨kind, around, constants⟩ := facts
  rw [added] at ran
  obtain ⟨byChannel, byShare⟩ := Prod.mk.inj (Except.ok.inj ran)
  obtain ⟨_, resolves, isFound⟩ := Outcome.map_eq_ok.mp byChannel
  obtain ⟨found, rfl, facts⟩ := Option.map_eq_some_iff.mp isFound
  obtain ⟨narrowed, reused⟩ := Prod.mk.inj facts
  obtain ⟨cache, isCache, _⟩ := Outcome.map_eq_ok.mp narrowed
  obtain ⟨_, resolvesShared, isShared⟩ := Outcome.map_eq_ok.mp byShare
  obtain ⟨shared, rfl, narrowed⟩ := Option.map_eq_some_iff.mp isShared
  obtain ⟨sharedCache, isSharedCache, _⟩ := Outcome.map_eq_ok.mp narrowed
  have wellFormed := Graph.wellFormed_empty.addAll ordered added
  have members := (Subgraph.discovers_around? kind around).1.standsIn
  have limits := (targets_of_forSubgraph resolves).2
  have quiet : ∀ id ∈ subgraph.quantizers, graph.HasQuietOutputLimits id := fun id member =>
    (limits id member).hasQuietOutputLimits wellFormed (constantsReadNothing_of_all constants)
  let state : JointState Rat := { toRunState := .ofGraph graph, subgraph := subgraph }
  have ran : (narrowToTargets found.targets true).runOn state = (.ok cache, _) :=
    Prod.ext isCache rfl
  have ranShared : (narrowToShares shared true).runOn state = (.ok sharedCache, _) :=
    Prod.ext isSharedCache rfl
  obtain ⟨byChannel, byShare⟩ :=
    @follows_of_narrowing Rat state _ wellFormed.consistent members quiet {}
  exact ⟨state, _, _, found, shared, cache, sharedCache, graph, added, rfl, around,
    wellFormed.consistent, members, quiet, resolves, ran, resolvesShared, ranShared, reused,
    byChannel found cache _ resolves ran, byShare shared sharedCache _ resolvesShared ranShared⟩

/-- A subgraph that stands around a Concat is to be quantized with one scale, and a member is gone
when its fake quantizations have been narrowed. -/
def LosesMember (drafts : List (Draft Rat)) (concat member : NodeId) : Prop :=
  ∃ (graph : Graph Rat) (state after : JointState Rat) (shared : SharedScale Rat)
    (cache : DequantizationCache Rat), Graph.empty.addAll drafts = .ok graph ∧
    state.toRunState = .ofGraph graph ∧ state.graph.kind? concat = some .concat ∧
    Subgraph.around? (.all {}) state.graph concat = some state.subgraph ∧
    SharedScale.forSubgraph state.graph state.subgraph {} = .ok (some shared) ∧
    (narrowToShares shared true).runOn state = (.ok cache, after) ∧
    member ∈ after.subgraph.concats ∧ after.graph.contains member = false

theorem losesMember_of_run {drafts : List (Draft Rat)} {subgraph : Subgraph}
    {concat member : NodeId}
    (made : (Graph.empty.addAll drafts).map (fun graph =>
      (graph.kind? concat, Subgraph.around? (.all {}) graph concat,
        (SharedScale.forSubgraph graph subgraph {}).map (Option.map fun shared =>
          let ran := (narrowToShares shared true).runOn
            { toRunState := .ofGraph graph, subgraph := subgraph }
          (ran.1.map DequantizationCache.size, ran.2.subgraph.concats.contains member,
            ran.2.graph.contains member)))) =
      .ok (some .concat, some subgraph, .ok (some (.ok 2, true, false)))) :
    LosesMember drafts concat member := by
  obtain ⟨graph, added, facts⟩ := Outcome.map_eq_ok.mp made
  simp only [Prod.mk.injEq] at facts
  obtain ⟨kind, around, narrowed⟩ := facts
  obtain ⟨_, resolves, isShared⟩ := Outcome.map_eq_ok.mp narrowed
  obtain ⟨shared, rfl, facts⟩ := Option.map_eq_some_iff.mp isShared
  simp only [Prod.mk.injEq] at facts
  obtain ⟨kept, listed, gone⟩ := facts
  obtain ⟨cache, isCache, _⟩ := Outcome.map_eq_ok.mp kept
  exact ⟨graph, { toRunState := .ofGraph graph, subgraph := subgraph }, _, shared, cache, added,
    rfl, kind, around, resolves, Prod.ext isCache rfl, List.contains_iff_mem.mp listed, gone⟩

/-- A pixel and a plane that are quantized, the plane with a Concat of the quantized pixel behind
its limits, and a Concat of both. -/
def concatBehindLimits : List (Draft Rat) :=
  let zero := (NodeId.mk 1).output
  let full := (NodeId.mk 2).output
  [{ op := .parameter, name := "pixel"
     declared := some { elementType := .f32, shape := [1, 1, 1, 1] } },
    (Op.constant (.scalar .f32 0)).draft "zero",
    (Op.constant (.scalar .f32 255)).draft "full",
    (Op.constant { elementType := .f32, values := .replicate [1, 1, 1, 1] (0 : Rat) }).draft
      "plane",
    ((Op.fakeQuantize 256).draft "first").readOutputs
      [(NodeId.mk 0).output, zero, full, zero, full],
    ((Op.concat 1).draft "inner").readAll [NodeId.mk 4],
    ((((((Op.fakeQuantize 256).draft "second").input (NodeId.mk 3).output 1).input full 2).input
      zero 3).input full 4).input (NodeId.mk 5).output 5,
    ((Op.concat 1).draft "outer").readAll [NodeId.mk 4, NodeId.mk 6],
    (Op.result.draft "output").readAll [NodeId.mk 7]]

/-- A pixel that is quantized twice, the second time with a limit that reads a Concat of the first,
though it is a constant, and a Concat of both. -/
def limitBehindConcat : List (Draft Rat) :=
  let pixel := (NodeId.mk 0).output
  let zero := (NodeId.mk 1).output
  let full := (NodeId.mk 2).output
  [{ op := .parameter, name := "pixel"
     declared := some { elementType := .f32, shape := [1, 1, 1, 1] } },
    (Op.constant (.scalar .f32 0)).draft "zero",
    (Op.constant (.scalar .f32 255)).draft "full",
    (Op.constant (.scalar .f32 7)).draft "spare",
    (Op.constant (.scalar .f32 7)).draft "other",
    ((Op.fakeQuantize 256).draft "first").readOutputs [pixel, zero, full, zero, full],
    ((Op.concat 1).draft "inner").readAll [NodeId.mk 5],
    ((Op.constant (.scalar .f32 0)).draft "low").readAll [NodeId.mk 6, NodeId.mk 3, NodeId.mk 4],
    ((Op.fakeQuantize 256).draft "second").readOutputs
      [pixel, zero, full, (NodeId.mk 7).output, full],
    ((Op.concat 1).draft "outer").readAll [NodeId.mk 5, NodeId.mk 8],
    (Op.result.draft "output").readAll [NodeId.mk 9]]

set_option synthInstance.maxSize 512 in
/-- The last two inputs of a fake quantization must be constants, and these must read nothing. -/
theorem losesMember_concatBehindLimits_and_limitBehindConcat :
    LosesMember concatBehindLimits (NodeId.mk 7) (NodeId.mk 5) ∧
      LosesMember limitBehindConcat (NodeId.mk 9) (NodeId.mk 6) := by
  constructor
  · exact @losesMember_of_run _
      { quantizers := [NodeId.mk 4, NodeId.mk 6], concats := [NodeId.mk 7, NodeId.mk 5]
        layers := [NodeId.mk 7, NodeId.mk 4, NodeId.mk 5, NodeId.mk 6] } _ _ (by decide +kernel)
  · exact @losesMember_of_run _
      { quantizers := [NodeId.mk 5, NodeId.mk 8], concats := [NodeId.mk 9, NodeId.mk 6]
        layers := [NodeId.mk 9, NodeId.mk 5, NodeId.mk 6, NodeId.mk 8] } _ _ (by decide +kernel)

end JointRevision

end QuantGraph
