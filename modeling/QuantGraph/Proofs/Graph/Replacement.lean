import Mathlib.Data.List.Find
import QuantGraph.Proofs.Graph.Pruning

/-! Rewiring. Edges get other sources and keep their targets and input slots, so
slots stay exact; no cycle arises when the new source does not depend on the old
one. -/

namespace QuantGraph

namespace Graph

variable {graph after : Graph α} {id old new : NodeId}

/-! ## Edges with other sources -/

/-- The edges into a node are those of another graph, up to their order and with
other sources. -/
structure Rewires (graph : Graph α) (change : Edge → Edge) (after : Graph α) : Prop where
  target_eq : ∀ edge, (change edge).target = edge.target
  slot_eq : ∀ edge, (change edge).inputSlot = edge.inputSlot
  edges_perm : after.edges.Perm (graph.edges.map change)

namespace Rewires

variable {change : Edge → Edge}

theorem incoming_perm (rewires : graph.Rewires change after) (id : NodeId) :
    (after.incoming id).Perm ((graph.incoming id).map change) := by
  refine (rewires.edges_perm.filter _).trans (List.Perm.of_eq ?_)
  rw [incoming, List.filter_map]
  refine congrArg (List.map change) (List.filter_congr fun edge _ => ?_)
  simp [rewires.target_eq edge]

theorem hasExactSlots (rewires : graph.Rewires change after) (exact : graph.HasExactSlots id) :
    after.HasExactSlots id := by
  have perm := rewires.incoming_perm id
  have slots := perm.map fun edge => edge.inputSlot.toNat
  rw [List.map_map] at slots
  have kept : (fun edge : Edge => edge.inputSlot.toNat) ∘ change =
      fun edge => edge.inputSlot.toNat := by
    funext edge
    exact congrArg UInt8.toNat (rewires.slot_eq edge)
  rw [kept] at slots
  unfold HasExactSlots inputCount
  rw [perm.length_eq, List.length_map]
  exact slots.trans exact

/-- The inputs change where the sources of the edges do. -/
theorem inputs_eq (rewires : graph.Rewires change after) (exact : graph.HasExactSlots id)
    (rename : Nat → Output → Output)
    (source_eq : ∀ edge ∈ graph.incoming id,
      (change edge).source = rename edge.inputSlot.toNat edge.source) :
    after.inputs id = (graph.inputs id).mapIdx rename := by
  apply List.ext_getElem?
  intro slot
  apply Option.ext
  intro output
  rw [(rewires.hasExactSlots exact).getElem?_inputs, List.getElem?_mapIdx,
    Option.map_eq_some_iff]
  have member_iff {edge : Edge} : edge ∈ after.edges ∧ edge.target = id ↔
      ∃ origin ∈ graph.incoming id, change origin = edge := by
    rw [← mem_incoming, (rewires.incoming_perm id).mem_iff, List.mem_map]
  constructor
  · rintro ⟨edge, member, rfl, target, rfl⟩
    obtain ⟨origin, entering, rfl⟩ := member_iff.mp ⟨member, target⟩
    rw [rewires.slot_eq]
    exact ⟨origin.source, exact.getElem?_inputs.mpr
      ⟨origin, (mem_incoming.mp entering).1, rfl, (mem_incoming.mp entering).2, rfl⟩,
      (source_eq origin entering).symm⟩
  · rintro ⟨source, found, rfl⟩
    obtain ⟨origin, member, rfl, target, rfl⟩ := exact.getElem?_inputs.mp found
    have member : origin ∈ graph.incoming id := mem_incoming.mpr ⟨member, target⟩
    have changed := member_iff.mpr ⟨origin, member, rfl⟩
    exact ⟨change origin, changed.1, source_eq origin member, changed.2,
      congrArg UInt8.toNat (rewires.slot_eq origin)⟩

end Rewires

/-! ## Redirection -/

/-- The output that takes the place of one that is to be read elsewhere. -/
def renamed (old new : NodeId) (output : Output) : Output :=
  if output.node = old then { output with node := new } else output

private def movedEdge (old new : NodeId) (edge : Edge) : Edge :=
  if Moves old new edge then { edge with source := { edge.source with node := new } } else edge

private theorem rewires_redirect (graph : Graph α) (old new : NodeId) :
    graph.Rewires (movedEdge old new) (graph.redirect old new) where
  target_eq := by
    intro edge
    unfold movedEdge
    split <;> rfl
  slot_eq := by
    intro edge
    unfold movedEdge
    split <;> rfl
  edges_perm := by
    have parts := List.filter_append_perm (fun edge => decide (Moves old new edge)) graph.edges
    refine List.Perm.trans ?_ (parts.map (movedEdge old new))
    rw [List.map_append]
    unfold redirect
    dsimp only
    refine List.Perm.append ((List.reverse_perm _).trans (List.Perm.of_eq ?_))
      (List.Perm.of_eq ?_)
    · refine List.map_congr_left fun edge member => ?_
      rw [movedEdge, if_pos (of_decide_eq_true (List.mem_filter.mp member).2)]
    · symm
      refine (List.map_congr_left fun edge member => ?_).trans (List.map_id _)
      have stays : ¬ Moves old new edge := by simpa using (List.mem_filter.mp member).2
      rw [movedEdge, if_neg stays, id]

theorem node?_redirect (graph : Graph α) (old new id : NodeId) :
    (graph.redirect old new).node? id = graph.node? id := rfl

theorem contains_redirect (graph : Graph α) (old new id : NodeId) :
    (graph.redirect old new).contains id = graph.contains id := rfl

theorem hasExactSlots_redirect (exact : graph.HasExactSlots id) :
    (graph.redirect old new).HasExactSlots id :=
  (rewires_redirect graph old new).hasExactSlots exact

/-- The edges after a redirection: moved ones, and ones that stayed. -/
theorem mem_edges_redirect {edge : Edge} :
    edge ∈ (graph.redirect old new).edges ↔
      (∃ origin ∈ graph.edges, Moves old new origin ∧
        { origin with source := { origin.source with node := new } } = edge) ∨
      edge ∈ graph.edges ∧ ¬ Moves old new edge := by
  simp [redirect, and_assoc]

/-- After a redirection the moved edges come first. -/
theorem incoming_redirect_eq (graph : Graph α) (old new id : NodeId) :
    (graph.redirect old new).incoming id =
      (((graph.incoming id).filter fun edge => decide (Moves old new edge)).map fun edge =>
        { edge with source := { edge.source with node := new } }).reverse ++
        (graph.incoming id).filter fun edge => !decide (Moves old new edge) := by
  unfold incoming redirect
  dsimp only
  rw [List.filter_append, List.filter_reverse, List.filter_map]
  simp only [Function.comp_def, List.filter_filter, Bool.and_comm]

/-- Where no edge into a node moves, redirection leaves the edges into it alone. -/
theorem incoming_redirect (stay : ∀ edge ∈ graph.incoming id, ¬ Moves old new edge) :
    (graph.redirect old new).incoming id = graph.incoming id := by
  have none_moves := List.filter_eq_nil_iff.mpr fun edge member =>
    mt of_decide_eq_true (stay edge member)
  have all_stay : (graph.incoming id).filter (fun edge => !decide (Moves old new edge)) =
      graph.incoming id := List.filter_eq_self.mpr fun edge member => by simpa using stay edge member
  rw [incoming_redirect_eq, none_moves, all_stay]
  rfl

/-- Redirection leaves alone what does not read the old node. -/
theorem inputs_redirect_of_not_reads (unread : ¬ graph.Reads old id) :
    (graph.redirect old new).inputs id = graph.inputs id := by
  rw [inputs, incoming_redirect, inputs]
  intro edge member moves
  obtain ⟨earlier, into⟩ := mem_incoming.mp member
  exact unread ⟨edge, earlier, moves.1, into⟩

/-- Redirection keeps slots, so where they are distinct the inputs keep their order. -/
theorem inputs_redirect_of_distinct (distinct : graph.HasDistinctSlots id) :
    (graph.redirect old new).inputs id =
      if id = new then graph.inputs id else (graph.inputs id).map (renamed old new) := by
  have rewires := rewires_redirect graph old new
  have slots (edge : Edge) : (movedEdge old new edge).inputSlot.toNat = edge.inputSlot.toNat :=
    congrArg UInt8.toNat (rewires.slot_eq edge)
  have perm := rewires.incoming_perm id
  have kept : ((graph.redirect old new).incoming id).map (fun edge => edge.inputSlot.toNat) |>.Nodup := by
    refine (perm.map _).nodup_iff.mpr ?_
    rw [List.map_map]
    exact (List.map_congr_left fun edge _ => slots edge) ▸ distinct
  rw [inputs, StableSort.sortBy_eq_of_perm perm kept, StableSort.sortBy_map slots, List.map_map]
  have into {edge : Edge} (member : edge ∈
      StableSort.sortBy (fun edge : Edge => edge.inputSlot.toNat) (graph.incoming id)) :
      edge.target = id := (mem_incoming.mp (StableSort.mem_sortBy.mp member)).2
  split
  case isTrue equal =>
    refine List.map_congr_left fun edge member => ?_
    have stays : ¬ Moves old new edge := fun moves => moves.2 ((into member).trans equal)
    rw [Function.comp_apply, movedEdge, if_neg stays]
  case isFalse different =>
    rw [inputs, List.map_map]
    refine List.map_congr_left fun edge member => ?_
    have other : edge.target ≠ new := into member ▸ different
    rw [Function.comp_apply, Function.comp_apply, movedEdge, renamed]
    by_cases source : edge.source.node = old
    · rw [if_pos ⟨source, other⟩, if_pos source]
    · rw [if_neg fun moves => source moves.1, if_neg source]

theorem inputs_redirect (exact : graph.HasExactSlots id) :
    (graph.redirect old new).inputs id =
      if id = new then graph.inputs id else (graph.inputs id).map (renamed old new) :=
  inputs_redirect_of_distinct exact.hasDistinctSlots

theorem length_inputs_redirect (graph : Graph α) (old new id : NodeId) :
    ((graph.redirect old new).inputs id).length = (graph.inputs id).length := by
  rw [length_inputs, length_inputs, inputCount,
    ((rewires_redirect graph old new).incoming_perm id).length_eq, List.length_map, inputCount]

/-- The last inputs of a node stay the last ones when none of them moves. -/
theorem exists_inputs_redirect_append {first last : List Output}
    (inputs_eq : graph.inputs id = first ++ last) (stay : ∀ output ∈ last, output.node ≠ old) :
    ∃ others, (graph.redirect old new).inputs id = others ++ last := by
  obtain ⟨early, late, sorted, _, rfl⟩ := List.map_eq_append_iff.mp inputs_eq
  have unmoved {edge : Edge} (member : edge ∈ late) : ¬ Moves old new edge := fun moves =>
    stay edge.source (List.mem_map_of_mem member) moves.1
  have all_late : late.filter (fun edge => !decide (Moves old new edge)) = late :=
    List.filter_eq_self.mpr fun edge member => by simpa using unmoved member
  rw [inputs, incoming_redirect_eq, StableSort.sortBy, List.foldr_append]
  change ∃ others, ((List.foldr _ (StableSort.sortBy _ _) _).map Edge.source) = _
  rw [StableSort.sortBy_filter, sorted, List.filter_append, all_late,
    StableSort.foldr_insertBy_append, List.map_append]
  · exact ⟨_, rfl⟩
  · intro edge member other later
    rw [List.mem_reverse] at member
    obtain ⟨origin, kept, rfl⟩ := List.mem_map.mp member
    obtain ⟨listed, moves⟩ := List.mem_filter.mp kept
    have ordered := StableSort.pairwise_sortBy (fun edge : Edge => edge.inputSlot.toNat)
      (graph.incoming id)
    rw [sorted, List.pairwise_append] at ordered
    have inOrder : origin ∈ early ++ late := sorted ▸ StableSort.mem_sortBy.mpr listed
    rcases List.mem_append.mp inOrder with isEarly | isLate
    · exact ordered.2.2 origin isEarly other later
    · exact absurd (of_decide_eq_true moves) (unmoved isLate)

/-- What a node reads on a slot after a redirection it read there before, unless it is the new
node. -/
theorem input?_of_redirect {slot : Nat} {output : Output}
    (found : (graph.redirect old new).input? id slot = some output) (other : output.node ≠ new) :
    graph.input? id slot = some output := by
  obtain ⟨edge, read, rfl⟩ := Option.map_eq_some_iff.mp found
  rw [incoming_redirect_eq, List.find?_append, Option.or_eq_some_iff] at read
  rcases read with moved | ⟨unmoved, stays⟩
  · have member := List.mem_of_find?_eq_some moved
    rw [List.mem_reverse] at member
    obtain ⟨origin, _, rfl⟩ := List.mem_map.mp member
    exact absurd rfl other
  · refine Option.map_eq_some_iff.mpr ⟨edge, ?_, rfl⟩
    rw [List.find?_filter] at stays
    rw [← stays]
    refine List.find?_congr fun candidate member => ?_
    by_cases moves : Moves old new candidate
    · have elsewhere := List.find?_eq_none.mp unmoved _ (List.mem_reverse.mpr
        (List.mem_map_of_mem (List.mem_filter.mpr ⟨member, decide_eq_true moves⟩)))
      simpa [moves] using elsewhere
    · simp [moves, Bool.beq_eq_decide_eq]

theorem reads_redirect {source reader : NodeId}
    (reads : (graph.redirect old new).Reads source reader) :
    graph.Reads source reader ∨ source = new ∧ reader ≠ new ∧ graph.Reads old reader := by
  obtain ⟨edge, member, rfl, rfl⟩ := reads
  rcases mem_edges_redirect.mp member with ⟨origin, earlier, moves, rfl⟩ | ⟨earlier, _⟩
  · exact Or.inr ⟨rfl, moves.2, origin, earlier, moves.1, rfl⟩
  · exact Or.inl ⟨edge, earlier, rfl, rfl⟩

/-- Nothing reads the old node after a redirection. -/
theorem not_reads_redirect (apart : ¬ graph.Reaches old new) (reader : NodeId) :
    ¬ (graph.redirect old new).Reads old reader := by
  rintro ⟨edge, member, source, rfl⟩
  rcases mem_edges_redirect.mp member with ⟨origin, earlier, moves, rfl⟩ | ⟨earlier, stays⟩
  · exact apart (source ▸ Relation.ReflTransGen.refl)
  · have into : edge.target = new := by
      by_contra other
      exact stays ⟨source, other⟩
    exact apart (Relation.ReflTransGen.single ⟨edge, earlier, source, into⟩)

/-- A path after a redirection either was there before or, after its last moved
edge, comes down from a reader of the old node. -/
theorem reaches_redirect {source reader : NodeId}
    (reaches : (graph.redirect old new).Reaches source reader) :
    graph.Reaches source reader ∨
      ∃ moved, graph.Reads old moved ∧ moved ≠ new ∧ graph.Reaches moved reader := by
  induction reaches with
  | refl => exact Or.inl Relation.ReflTransGen.refl
  | tail _ reads induction =>
      rcases reads_redirect reads with reads | ⟨_, different, reads⟩
      · rcases induction with reaches | ⟨moved, readsOld, different, reaches⟩
        · exact Or.inl (reaches.tail reads)
        · exact Or.inr ⟨moved, readsOld, different, reaches.tail reads⟩
      · exact Or.inr ⟨_, reads, different, Relation.ReflTransGen.refl⟩

/-- Every path from one node to another is a single edge, if there is one at all. -/
def ReachesAtOnce (graph : Graph α) (old new : NodeId) : Prop :=
  ∀ reader, graph.Reads old reader → graph.Reaches reader new → reader = new

theorem reachesAtOnce_of_not_reaches (apart : ¬ graph.Reaches old new) :
    graph.ReachesAtOnce old new := fun _ reads reaches =>
  absurd (Relation.ReflTransGen.head reads reaches) apart

theorem isAcyclic_redirect (acyclic : graph.IsAcyclic) (atOnce : graph.ReachesAtOnce old new) :
    (graph.redirect old new).IsAcyclic := by
  -- A cycle without moved edges was there before; any other one passes through `new`.
  have through_new : ∀ {source reader : NodeId},
      (graph.redirect old new).Precedes source reader →
        graph.Precedes source reader ∨ (graph.redirect old new).Reaches source new ∧
          (graph.redirect old new).Precedes new reader := by
    intro source reader precedes
    induction precedes with
    | single reads =>
        rcases reads_redirect reads with old_reads | ⟨rfl, _⟩
        · exact Or.inl (Relation.TransGen.single old_reads)
        · exact Or.inr ⟨Relation.ReflTransGen.refl, Relation.TransGen.single reads⟩
    | tail path reads induction =>
        rcases induction with old_path | ⟨into, out⟩
        · rcases reads_redirect reads with old_reads | ⟨rfl, _⟩
          · exact Or.inl (old_path.tail old_reads)
          · exact Or.inr ⟨path.to_reflTransGen, Relation.TransGen.single reads⟩
        · exact Or.inr ⟨into, out.tail reads⟩
  have no_return : ¬ (graph.redirect old new).Precedes new new := by
    intro cycle
    obtain ⟨last, path, reads⟩ := Relation.TransGen.tail'_iff.mp cycle
    rcases reads_redirect reads with old_reads | ⟨_, different, _⟩
    · rcases reaches_redirect path with old_path | ⟨moved, readsOld, different, old_path⟩
      · exact acyclic new (Relation.TransGen.tail' old_path old_reads)
      · exact different (atOnce moved readsOld (old_path.tail old_reads))
    · exact different rfl
  intro id cycle
  rcases through_new cycle with old_cycle | ⟨into, out⟩
  · exact acyclic id old_cycle
  · exact no_return (out.trans_left into)

theorem isConsistent_redirect (consistent : graph.IsConsistent)
    (live : graph.contains new = true) : (graph.redirect old new).IsConsistent where
  source_live := by
    intro edge member
    rw [contains_redirect]
    have reads : (graph.redirect old new).Reads edge.source.node edge.target :=
      ⟨edge, member, rfl, rfl⟩
    rcases reads_redirect reads with reads | ⟨equal, _⟩
    · exact (consistent.reads_live reads).1
    · exact equal ▸ live
  target_live := by
    intro edge member
    rw [contains_redirect]
    have reads : (graph.redirect old new).Reads edge.source.node edge.target :=
      ⟨edge, member, rfl, rfl⟩
    rcases reads_redirect reads with reads | ⟨_, _, reads⟩
    · exact (consistent.reads_live reads).2
    · exact (consistent.reads_live reads).2
  vacant_dead := consistent.vacant_dead
  vacant_inside := consistent.vacant_inside
  vacant_nodup := consistent.vacant_nodup
  uid_lt := consistent.uid_lt
  uid_unique := consistent.uid_unique

theorem wellFormed_redirect (wellFormed : graph.WellFormed) (live : graph.contains new = true)
    (apart : ¬ graph.Reaches old new) : (graph.redirect old new).WellFormed where
  consistent := isConsistent_redirect wellFormed.consistent live
  exact := fun id => hasExactSlots_redirect (wellFormed.exact id)
  acyclic := isAcyclic_redirect wellFormed.acyclic (reachesAtOnce_of_not_reaches apart)

/-! ## Replacement -/

/-- A node stands at an index and may be removed. -/
def Removable (graph : Graph α) (id : NodeId) : Prop :=
  ∃ kind, graph.kind? id = some kind ∧ isFixedKind kind = false

/-- A graph in which one node has taken the place of another that it does not
depend on, and what nothing reads any more is gone. -/
structure Replaces (before : Graph α) (old new : NodeId) (after : Graph α) : Prop where
  apart : ¬ before.Reaches old new
  new_live : before.contains new = true
  sheds : (before.redirect old new).Sheds old after
  gone : before.Removable old → after.contains old = false
  wellFormed : after.WellFormed

theorem replace_eq_ok (different : old ≠ new) :
    graph.replace old new = .ok after ↔ graph.contains old = true ∧ graph.contains new = true ∧
      after = ((graph.redirect old new).prune old).2 := by
  unfold replace
  rw [if_neg different]
  constructor
  · intro replaced
    split at replaced
    case isTrue live =>
      rw [Bool.and_eq_true] at live
      exact ⟨live.1, live.2, (Except.ok.inj replaced).symm⟩
    case isFalse => cases replaced
  · rintro ⟨oldLive, newLive, rfl⟩
    rw [oldLive, newLive]
    rfl

/-- Wherever the bookkeeping is in order, a replacement redirects and sheds. -/
theorem sheds_of_replace (consistent : graph.IsConsistent) (different : old ≠ new)
    (replaced : graph.replace old new = .ok after) :
    graph.contains new = true ∧ (graph.redirect old new).Sheds old after := by
  obtain ⟨_, newLive, rfl⟩ := (replace_eq_ok different).mp replaced
  exact ⟨newLive, sheds_prune (isConsistent_redirect consistent newLive) old⟩

theorem replaces_of_replace (wellFormed : graph.WellFormed) (apart : ¬ graph.Reaches old new)
    (replaced : graph.replace old new = .ok after) : graph.Replaces old new after := by
  have different : old ≠ new := by
    rintro rfl
    exact apart Relation.ReflTransGen.refl
  obtain ⟨newLive, sheds⟩ := sheds_of_replace wellFormed.consistent different replaced
  refine ⟨apart, newLive, sheds, ?_, sheds.wellFormed (wellFormed_redirect wellFormed newLive apart)⟩
  rintro ⟨kind, found, unfixed⟩
  obtain ⟨_, _, rfl⟩ := (replace_eq_ok different).mp replaced
  have found : (graph.redirect old new).kind? old = some kind := found
  exact contains_prune_of_isDead (isDead_of_not_reads found unfixed (not_reads_redirect apart))

namespace Replaces

theorem live (replaces : graph.Replaces old new after) {id : NodeId}
    (live : after.contains id = true) : graph.contains id = true :=
  replaces.sheds.live live

theorem node_eq (replaces : graph.Replaces old new after) {id : NodeId}
    (live : after.contains id = true) : after.node? id = graph.node? id :=
  replaces.sheds.node_eq id live

theorem inputs_eq (replaces : graph.Replaces old new after) (exact : graph.HasExactSlots id)
    (live : after.contains id = true) :
    after.inputs id =
      if id = new then graph.inputs id else (graph.inputs id).map (renamed old new) := by
  rw [replaces.sheds.inputs_eq live, inputs_redirect exact]

/-- Everything stays that the old node does not depend on, before or after. -/
theorem keeps (replaces : graph.Replaces old new after) (acyclic : graph.IsAcyclic)
    (live : graph.contains id = true) (free : ¬ graph.Reaches id old) :
    after.contains id = true := by
  refine replaces.sheds.keeps live fun reaches => ?_
  rcases reaches_redirect reaches with reaches | ⟨_, reads, _, reaches⟩
  · exact free reaches
  · exact acyclic old (Relation.TransGen.head' reads reaches)

/-- A reader of the old node reads the new one on the same slot. -/
theorem input?_eq (replaces : graph.Replaces old new after) (wellFormed : graph.WellFormed)
    {reader : NodeId} {slot : Nat} {index : UInt8} (different : reader ≠ new)
    (reads : graph.input? reader slot = some ⟨old, index⟩) :
    after.input? reader slot = some ⟨new, index⟩ := by
  rw [(wellFormed.exact reader).input?_eq] at reads
  have edge : graph.Reads old reader := reads_of_mem_inputs (List.mem_of_getElem? reads)
  have live := replaces.keeps wellFormed.acyclic (wellFormed.consistent.reads_live edge).2
    (wellFormed.acyclic.not_reaches_of_reads edge)
  rw [(replaces.wellFormed.exact reader).input?_eq,
    replaces.inputs_eq (wellFormed.exact reader) live, if_neg different, List.getElem?_map, reads,
    Option.map_some, renamed, if_pos rfl]

theorem keeps_fixed (replaces : graph.Replaces old new after) {kind : OpKind}
    (found : graph.kind? id = some kind) (fixed : isFixedKind kind = true) :
    after.contains id = true := by
  have redirected : (graph.redirect old new).kind? id = some kind := found
  exact replaces.sheds.keeps_fixed redirected fixed

end Replaces

/-! ## Another source for one slot -/

private def resourcedEdge (consumer : NodeId) (slot : UInt8) (source : Output) (edge : Edge) :
    Edge :=
  if edge.target = consumer ∧ edge.inputSlot = slot then { edge with source := source } else edge

/-- A graph in which one node reads another output on one of its slots. -/
structure Resources (before : Graph α) (consumer : NodeId) (slot : UInt8) (source : Output)
    (after : Graph α) : Prop where
  source_live : before.contains source.node = true
  node_eq : ∀ id, after.node? id = before.node? id
  inputs_eq : ∀ id, after.inputs id =
    if id = consumer then (before.inputs id).set slot.toNat source else before.inputs id
  slot_lt : slot.toNat < (before.inputs consumer).length
  wellFormed : after.WellFormed

private theorem rewires_setInput (exact : graph.HasExactSlots id) {slot : UInt8} {source : Output}
    (updated : graph.setInput id slot source = .ok after) :
    graph.Rewires (resourcedEdge id slot source) after ∧ after.nodes = graph.nodes ∧
      graph.contains source.node = true ∧
      ∃ edge ∈ graph.incoming id, edge.inputSlot = slot := by
  unfold setInput at updated
  split at updated
  case isTrue => cases updated
  case isFalse live =>
    split at updated
    case isFalse => cases updated
    case isTrue present =>
      obtain ⟨edge, member, matched⟩ := List.any_eq_true.mp present
      have matched := of_decide_eq_true matched
      obtain ⟨found, front, back, unmatched, matched', edges, erased⟩ :=
        List.exists_of_eraseP (p := fun edge => decide (edge.target = id ∧ edge.inputSlot = slot))
          member (decide_eq_true matched)
      have matched' := of_decide_eq_true matched'
      have found_member : found ∈ graph.incoming id :=
        mem_incoming.mpr ⟨edges ▸ by simp, matched'.1⟩
      cases Except.ok.inj updated
      refine ⟨⟨?_, ?_, ?_⟩, rfl, by simpa using live, found, found_member, matched'.2⟩
      · intro edge
        unfold resourcedEdge
        split <;> rfl
      · intro edge
        unfold resourcedEdge
        split <;> rfl
      · -- Among the edges into the node, only the one that was found has the slot.
        have slots := exact.nodup_iff.mpr List.nodup_range
        have entering : graph.incoming id =
            front.filter (fun edge => decide (edge.target = id)) ++
              found :: back.filter (fun edge => decide (edge.target = id)) := by
          rw [incoming, edges, List.filter_append, List.filter_cons_of_pos (by simp [matched'.1])]
        rw [entering, List.map_append, List.map_cons, List.nodup_middle] at slots
        have slot_free := (List.nodup_cons.mp slots).1
        have front_kept : front.map (resourcedEdge id slot source) = front := by
          refine (List.map_congr_left fun other member => ?_).trans (List.map_id _)
          exact if_neg (by simpa using unmatched other member)
        have back_kept : back.map (resourcedEdge id slot source) = back := by
          refine (List.map_congr_left fun other otherMember => ?_).trans (List.map_id _)
          refine if_neg fun both => slot_free (List.mem_append_right _ ?_)
          exact List.mem_map.mpr ⟨other, List.mem_filter.mpr
            ⟨otherMember, decide_eq_true both.1⟩,
            congrArg UInt8.toNat (both.2.trans matched'.2.symm)⟩
        have found_changed : resourcedEdge id slot source found =
            { source := source, target := id, inputSlot := slot } := by
          rw [resourcedEdge, if_pos matched', matched'.1, matched'.2]
        dsimp only [connect]
        rw [erased, edges, List.map_append, List.map_cons, front_kept, back_kept, found_changed]
        exact List.perm_middle.symm

/-- Another source for one slot leaves the bookkeeping in order, also where a cycle arises. -/
theorem isConsistent_setInput (consistent : graph.IsConsistent) {slot : UInt8} {source : Output}
    (updated : graph.setInput id slot source = .ok after) : after.IsConsistent := by
  unfold setInput at updated
  split at updated
  case isTrue => cases updated
  case isFalse live =>
    split at updated
    case isFalse => cases updated
    case isTrue present =>
      obtain ⟨found, member, matched⟩ := List.any_eq_true.mp present
      have target : found.target = id := (of_decide_eq_true matched).1
      have live : graph.contains source.node = true := by simpa using live
      cases Except.ok.inj updated
      exact
        { source_live := by
            intro edge entry
            rcases List.mem_cons.mp entry with rfl | entry
            · exact live
            · exact consistent.source_live edge (List.mem_of_mem_eraseP entry)
          target_live := by
            intro edge entry
            rcases List.mem_cons.mp entry with rfl | entry
            · exact target ▸ consistent.target_live found member
            · exact consistent.target_live edge (List.mem_of_mem_eraseP entry)
          vacant_dead := consistent.vacant_dead
          vacant_inside := consistent.vacant_inside
          vacant_nodup := consistent.vacant_nodup
          uid_lt := consistent.uid_lt
          uid_unique := consistent.uid_unique }

private theorem mapIdx_ite_eq_set (entries : List β) (place : Nat) (entry : β) :
    entries.mapIdx (fun position other => if position = place then entry else other) =
      entries.set place entry := by
  apply List.ext_getElem
  · simp
  · intro position _ _
    rw [List.getElem_mapIdx, List.getElem_set]
    by_cases equal : position = place
    · rw [if_pos equal, if_pos equal.symm]
    · rw [if_neg equal, if_neg (Ne.symm equal)]

private theorem reads_setInput {change : Edge → Edge} (rewires : graph.Rewires change after)
    {source reader : NodeId} (reads : after.Reads source reader) :
    ∃ origin ∈ graph.edges, (change origin).source.node = source ∧ origin.target = reader := by
  obtain ⟨edge, member, sourceEq, target⟩ := reads
  obtain ⟨origin, earlier, rfl⟩ := List.mem_map.mp (rewires.edges_perm.mem_iff.mp member)
  exact ⟨origin, earlier, sourceEq, (rewires.target_eq origin).symm.trans target⟩

theorem resources_of_setInput (wellFormed : graph.WellFormed) {slot : UInt8} {source : Output}
    (apart : ¬ graph.Reaches id source.node)
    (updated : graph.setInput id slot source = .ok after) :
    graph.Resources id slot source after := by
  obtain ⟨rewires, nodes, live, edge, member, slotEq⟩ :=
    rewires_setInput (wellFormed.exact id) updated
  have node_eq (other : NodeId) : after.node? other = graph.node? other := by
    rw [node?, node?, nodes]
  have reads_after {left right : NodeId} (reads : after.Reads left right) :
      graph.Reads left right ∨ left = source.node ∧ right = id := by
    obtain ⟨origin, earlier, sourceEq, target⟩ := reads_setInput rewires reads
    unfold resourcedEdge at sourceEq
    split at sourceEq
    case isTrue both => exact Or.inr ⟨sourceEq.symm, target.symm.trans both.1⟩
    case isFalse => exact Or.inl ⟨origin, earlier, sourceEq, target⟩
  have precedes_after {left right : NodeId} (precedes : after.Precedes left right) :
      graph.Precedes left right ∨ graph.Reaches left source.node ∧ graph.Reaches id right := by
    induction precedes with
    | single reads =>
        rcases reads_after reads with reads | ⟨rfl, rfl⟩
        · exact Or.inl (Relation.TransGen.single reads)
        · exact Or.inr ⟨Relation.ReflTransGen.refl, Relation.ReflTransGen.refl⟩
    | tail _ reads induction =>
        rcases induction with precedes | ⟨into, out⟩
        · rcases reads_after reads with reads | ⟨rfl, rfl⟩
          · exact Or.inl (precedes.tail reads)
          · exact Or.inr ⟨precedes.to_reflTransGen, Relation.ReflTransGen.refl⟩
        · rcases reads_after reads with reads | ⟨rfl, rfl⟩
          · exact Or.inr ⟨into, out.tail reads⟩
          · exact absurd out apart
  exact
    { source_live := live
      node_eq := node_eq
      inputs_eq := by
        intro other
        split
        case isTrue equal =>
          subst equal
          rw [rewires.inputs_eq (wellFormed.exact other)
            (fun position output => if position = slot.toNat then source else output)]
          · exact mapIdx_ite_eq_set _ _ _
          · intro entering incoming
            have target := (mem_incoming.mp incoming).2
            unfold resourcedEdge
            by_cases same : entering.inputSlot = slot
            · rw [if_pos ⟨target, same⟩, if_pos (congrArg UInt8.toNat same)]
            · rw [if_neg fun both => same both.2, if_neg fun equal =>
                same (UInt8.toNat_inj.mp equal)]
        case isFalse different =>
          rw [rewires.inputs_eq (wellFormed.exact other) (fun _ output => output)]
          · simp [List.mapIdx_eq_zipIdx_map, List.zipIdx_map_fst]
          · intro entering incoming
            have target := (mem_incoming.mp incoming).2
            rw [resourcedEdge, if_neg fun both => different (target.symm.trans both.1)]
      slot_lt := by
        have feeds : graph.Feeds edge.source id slot.toNat :=
          ⟨edge, (mem_incoming.mp member).1, rfl, (mem_incoming.mp member).2,
            congrArg UInt8.toNat slotEq⟩
        exact (List.getElem?_eq_some_iff.mp
          ((wellFormed.exact id).getElem?_inputs.mpr feeds)).1
      wellFormed :=
        { consistent := isConsistent_setInput wellFormed.consistent updated
          exact := fun other => rewires.hasExactSlots (wellFormed.exact other)
          acyclic := by
            intro other cycle
            rcases precedes_after cycle with cycle | ⟨into, out⟩
            · exact wellFormed.acyclic other cycle
            · exact apart (out.trans into) } }

end Graph

end QuantGraph
