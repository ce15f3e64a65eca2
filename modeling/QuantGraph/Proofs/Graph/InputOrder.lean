import Mathlib
import QuantGraph.Proofs.Evaluation.Values
import QuantGraph.Proofs.Graph.Construction
import QuantGraph.Proofs.Revision.Primitives
import QuantGraph.Scalar.Exact

/-! The order of the inputs of a node that was given a list of them. The list has no bound, but
a slot has eight bits: positions are counted modulo 256, and of the inputs on one slot the last
one comes first. Up to 256 inputs stand in the order in which they were listed; of more, the
later ones come in between. -/

namespace QuantGraph

namespace StableSort

/-- Lists by increasing key are equal when their entries of each key are. -/
theorem eq_of_filter_eq {key : β → Nat} {left right : List β}
    (leftSorted : left.Pairwise fun first second => key first ≤ key second)
    (rightSorted : right.Pairwise fun first second => key first ≤ key second)
    (same : ∀ wanted, left.filter (fun entry => key entry == wanted) =
      right.filter fun entry => key entry == wanted) : left = right := by
  -- An entry of one list is in the other, hence not below the first one there.
  have least {head : β} {tail other : List β}
      (sorted : (head :: tail).Pairwise fun first second => key first ≤ key second)
      (alike : ∀ wanted, (head :: tail).filter (fun entry => key entry == wanted) =
        other.filter fun entry => key entry == wanted) :
      ∀ entry ∈ other, key head ≤ key entry := by
    intro entry member
    have listed : entry ∈ other.filter fun entry' => key entry' == key entry :=
      List.mem_filter.mpr ⟨member, by simp⟩
    rw [← alike] at listed
    rcases List.mem_cons.mp (List.mem_filter.mp listed).1 with rfl | later
    · exact Nat.le_refl _
    · exact (List.pairwise_cons.mp sorted).1 entry later
  induction left generalizing right with
  | nil =>
      cases right with
      | nil => rfl
      | cons head tail => simpa using same (key head)
  | cons first rest induction =>
      cases right with
      | nil => simpa using same (key first)
      | cons head tail =>
          have key_eq : key first = key head := Nat.le_antisymm
            (least leftSorted same head List.mem_cons_self)
            (least rightSorted (fun wanted => (same wanted).symm) first List.mem_cons_self)
          have heads := same (key first)
          rw [List.filter_cons_of_pos (by simp), List.filter_cons_of_pos (by simp [key_eq])] at heads
          obtain ⟨rfl, _⟩ := List.cons.inj heads
          refine congrArg _ (induction (List.pairwise_cons.mp leftSorted).2
            (List.pairwise_cons.mp rightSorted).2 fun wanted => ?_)
          have rests := same wanted
          rw [List.filter_cons, List.filter_cons] at rests
          split at rests
          · exact (List.cons.inj rests).2
          · exact rests

/-- Entries of one key keep their order. -/
theorem filter_sortBy (key : β → Nat) (wanted : Nat) (entries : List β) :
    (sortBy key entries).filter (fun entry => key entry == wanted) =
      entries.filter fun entry => key entry == wanted := by
  rw [← sortBy_filter]
  refine sortBy_of_pairwise (List.pairwise_of_forall_mem_list fun left isLeft right isRight => ?_)
  have leftKey : key left = wanted := by simpa using (List.mem_filter.mp isLeft).2
  have rightKey : key right = wanted := by simpa using (List.mem_filter.mp isRight).2
  omega

/-- Sorting what was sorted, from its end, is sorting what was there from its end. -/
theorem sortBy_reverse_sortBy (key : β → Nat) (entries : List β) :
    sortBy key (sortBy key entries).reverse = sortBy key entries.reverse := by
  refine eq_of_filter_eq (pairwise_sortBy key _) (pairwise_sortBy key _) fun wanted => ?_
  rw [filter_sortBy, filter_sortBy, List.filter_reverse, List.filter_reverse, filter_sortBy]

end StableSort

/-- Listed entries as they come out of slots that are counted modulo 256; of several on one
slot, the last one listed comes first. -/
def slotOrder (entries : List β) : List β :=
  (StableSort.sortBy (fun entry => entry.2 % 256) entries.zipIdx.reverse).map Prod.fst

section

variable {entries : List β}

theorem slotOrder_of_length_le (bound : entries.length ≤ 256) : slotOrder entries = entries := by
  have slot_eq {entry : β × Nat} (member : entry ∈ entries.zipIdx) : entry.2 % 256 = entry.2 := by
    have inside := (List.getElem?_eq_some_iff.mp (List.mem_zipIdx_iff_getElem?.mp member)).1
    omega
  have slots : entries.zipIdx.map (fun entry => entry.2 % 256) = List.range entries.length := by
    rw [List.map_congr_left fun entry member => slot_eq member, List.zipIdx_map_snd,
      List.range_eq_range']
  have increasing : entries.zipIdx.Pairwise fun first second => first.2 % 256 ≤ second.2 % 256 := by
    refine List.pairwise_map.mp ?_
    rw [slots]
    exact List.pairwise_le_range
  have distinct : (entries.zipIdx.reverse.map fun entry => entry.2 % 256).Nodup := by
    rw [List.map_reverse, List.nodup_reverse, slots]
    exact List.nodup_range
  rw [slotOrder, StableSort.sortBy_eq_of_perm (List.reverse_perm _) distinct,
    StableSort.sortBy_of_pairwise increasing, List.zipIdx_map_fst]

/-- Different entries stand as they were listed only if there is a slot for each. -/
theorem slotOrder_eq_self_iff (distinct : entries.Nodup) :
    slotOrder entries = entries ↔ entries.length ≤ 256 := by
  refine ⟨fun equal => ?_, slotOrder_of_length_le⟩
  by_contra large
  let sorted := StableSort.sortBy (fun entry : β × Nat => entry.2 % 256) entries.zipIdx.reverse
  have length_eq : sorted.length = entries.length := by simp [sorted]
  -- Since entries differ, the order of the entries says in which order their positions stand.
  have position {number : Nat} (inside : number < sorted.length) : sorted[number].2 = number := by
    have member : sorted[number] ∈ entries.zipIdx :=
      List.mem_reverse.mp (StableSort.mem_sortBy.mp (List.getElem_mem inside))
    have listed := List.mem_zipIdx_iff_getElem?.mp member
    have read := congrArg (fun entries => entries[number]?) equal
    simp only [slotOrder, List.getElem?_map] at read
    rw [List.getElem?_eq_getElem inside, Option.map_some] at read
    exact ((List.getElem?_inj (length_eq ▸ inside) distinct).mp (read.symm.trans listed.symm)).symm
  have before : 255 < sorted.length := by omega
  have after : 256 < sorted.length := by omega
  have ordered := List.pairwise_iff_getElem.mp
    (StableSort.pairwise_sortBy (fun entry : β × Nat => entry.2 % 256) entries.zipIdx.reverse)
    255 256 before after (by decide)
  have first := position before
  have second := position after
  simp only [sorted] at first second
  rw [first, second] at ordered
  omega

end

namespace Draft

variable {draft : Draft α} {outputs : List Output}

/-- The connections of listed outputs to the slots from zero on, counted modulo 256. -/
def numbered (outputs : List Output) : List Connection :=
  outputs.zipIdx.map fun entry => { source := entry.1, inputSlot := UInt8.ofNat entry.2 }

theorem connections_readAll (empty : draft.connections = []) (sources : List NodeId) :
    (draft.readAll sources).connections = numbered (sources.map NodeId.output) := by
  have general (sources : List NodeId) (draft : Draft α) :
      (draft.readAll sources).connections = draft.connections ++
        ((sources.map NodeId.output).zipIdx draft.connections.length).map fun entry =>
          { source := entry.1, inputSlot := UInt8.ofNat entry.2 } := by
    induction sources generalizing draft with
    | nil => simp [readAll]
    | cons source sources induction =>
        rw [readAll, List.foldl_cons]
        change (readAll _ sources).connections = _
        rw [induction]
        simp [input]
  rw [general, empty, numbered, List.length_nil, List.nil_append]

end Draft

namespace Graph

variable {graph after : Graph α} {draft : Draft α} {outputs : List Output} {id : NodeId}

/-- A new node lists its inputs by slot. -/
theorem inputs_of_add (consistent : graph.IsConsistent)
    (connections : draft.connections = Draft.numbered outputs)
    (added : graph.add draft = .ok (id, after)) : after.inputs id = slotOrder outputs := by
  obtain ⟨_, type, _, rfl, rfl⟩ := add_eq_ok added
  have slots : (fun entry : Output × Nat => (UInt8.ofNat entry.2).toNat) =
      fun entry => entry.2 % 256 := funext fun entry => UInt8.toNat_ofNat'
  rw [inputs, incoming_insert_nextId consistent, draftEdges, ← List.map_reverse,
    StableSort.sortBy_map_comp, orderedConnections, StableSort.sortBy_reverse_sortBy, connections,
    Draft.numbered, ← List.map_reverse, StableSort.sortBy_map_comp, slots, slotOrder]
  simp only [List.map_map]
  rfl

/-- A node reads outputs as they were listed: its inputs are those outputs in their order, on the
slots from zero on with one edge each, and if it lays arrays side by side, it does so in that
order. -/
structure ReadsAsListed [Scalar α] (graph : Graph α) (id : NodeId) (outputs : List Output) :
    Prop where
  inputs_eq : graph.inputs id = outputs
  exact : graph.HasExactSlots id
  joins : ∀ axis, graph.op? id = some (.concat axis) → ∀ (feeds values : Assignment α) arrays,
    Carries values outputs arrays → graph.evaluateNode feeds values id =
      ((NDArray.concatenate axis arrays).mapError .array).mapError (.node (graph.name id) .concat)

section

variable [Scalar α]

theorem evaluateNode_concat {axis : Nat} {arrays : List (NDArray α)} (feeds values : Assignment α)
    (isConcat : graph.op? id = some (.concat axis))
    (carries : Carries values (graph.inputs id) arrays) : graph.evaluateNode feeds values id =
      ((NDArray.concatenate axis arrays).mapError .array).mapError
        (.node (graph.name id) .concat) := by
  obtain ⟨node, found, isOp⟩ := Option.map_eq_some_iff.mp isConcat
  rw [evaluateNode, name, found]
  refine (congrArg (· >>= _) (Outcome.mapM_eq_ok.mpr (List.Forall₂.imp
    (fun output array known => ?_) carries))).trans ?_
  · rw [known]
  rw [Node.kind, isOp]
  rfl

theorem readsAsListed (inputs_eq : graph.inputs id = outputs) (exact : graph.HasExactSlots id) :
    graph.ReadsAsListed id outputs where
  inputs_eq := inputs_eq
  exact := exact
  joins := fun _ isConcat feeds values _ carries =>
    evaluateNode_concat feeds values isConcat (inputs_eq ▸ carries)

/-- What a node reads that was given a list of outputs. -/
structure ReadsBySlot (graph : Graph α) (id : NodeId) (outputs : List Output) : Prop where
  inputs_eq : graph.inputs id = slotOrder outputs
  asListed_iff : graph.ReadsAsListed id outputs ↔ outputs.length ≤ 256
  inOrder_iff : outputs.Nodup → (graph.inputs id = outputs ↔ outputs.length ≤ 256)

theorem readsBySlot_of_add (consistent : graph.IsConsistent)
    (connections : draft.connections = Draft.numbered outputs)
    (added : graph.add draft = .ok (id, after)) : after.ReadsBySlot id outputs := by
  have inputs_eq := inputs_of_add consistent connections added
  refine ⟨inputs_eq, ⟨fun asListed => ?_, fun bound => ?_⟩, fun distinct => ?_⟩
  · rw [← asListed.inputs_eq, length_inputs]
    exact asListed.exact.inputCount_le
  · have gains := gains_of_add consistent ⟨connections, bound⟩ added
    exact readsAsListed gains.inputs_new gains.exact_new
  · rw [inputs_eq]
    exact slotOrder_eq_self_iff distinct

/-- A node that is added with a list of inputs, and a copy of a node that is to read a list of
outputs, read these by slot: as they were listed if and only if there are at most 256. -/
theorem readsBySlot_of_build (consistent : graph.IsConsistent) :
    (∀ (draft : Draft α) sources id after, draft.connections = [] →
      graph.add (draft.readAll sources) = .ok (id, after) →
        after.ReadsBySlot id (sources.map NodeId.output)) ∧
    ∀ node outputs copy after, graph.addCopy node outputs = .ok (copy, after) →
      after.ReadsBySlot copy outputs := by
  constructor
  · intro draft sources id after empty added
    exact readsBySlot_of_add consistent (Draft.connections_readAll empty sources) added
  · intro original outputs copy after copied
    unfold addCopy at copied
    split at copied
    case h_1 node found =>
      refine readsBySlot_of_add consistent ?_ copied
      rw [(GraphRevision.copyDraft_eq node outputs).2.2, Draft.readOutputs_eq]
      rfl
    case h_2 => cases copied

end

/-- Two rows of one number, side by side. -/
def sideBySide : List (Draft Rat) :=
  [(Op.constant { elementType := .f32, values := .replicate [1] (1 : Rat) }).draft "often",
   (Op.constant { elementType := .f32, values := .replicate [1] (2 : Rat) }).draft "once",
   ((Op.concat 0).draft "pair").readAll [⟨0⟩, ⟨1⟩]]

/-- A new node and a copy, both with the inputs second, first, second. -/
theorem readsBySlot_sideBySide :
    ∃ graph added after copy larger, Graph.empty.addAll sideBySide = .ok graph ∧
      graph.IsConsistent ∧
      graph.add (((Op.concat 0).draft "triple").readAll [⟨1⟩, ⟨0⟩, ⟨1⟩]) = .ok (added, after) ∧
      after.ReadsAsListed added [⟨⟨1⟩, 0⟩, ⟨⟨0⟩, 0⟩, ⟨⟨1⟩, 0⟩] ∧
      graph.addCopy ⟨2⟩ [⟨⟨1⟩, 0⟩, ⟨⟨0⟩, 0⟩, ⟨⟨1⟩, 0⟩] = .ok (copy, larger) ∧
      larger.ReadsAsListed copy [⟨⟨1⟩, 0⟩, ⟨⟨0⟩, 0⟩, ⟨⟨1⟩, 0⟩] := by
  have ran : (do
      let graph ← Graph.empty.addAll sideBySide
      let grown ← graph.add (((Op.concat 0).draft "triple").readAll [⟨1⟩, ⟨0⟩, ⟨1⟩])
      let copied ← graph.addCopy ⟨2⟩ [⟨⟨1⟩, 0⟩, ⟨⟨0⟩, 0⟩, ⟨⟨1⟩, 0⟩]
      return (grown.1, copied.1) : Except GraphError (NodeId × NodeId)) = .ok (⟨3⟩, ⟨3⟩) := by cbv
  obtain ⟨graph, built, ran⟩ := Outcome.bind_eq_ok.mp ran
  obtain ⟨⟨added, after⟩, isAdded, ran⟩ := Outcome.bind_eq_ok.mp ran
  obtain ⟨⟨copy, larger⟩, isCopy, _⟩ := Outcome.bind_eq_ok.mp ran
  have consistent := (wellFormed_empty.consistent.addAll built).1
  obtain ⟨ofAdd, ofCopy⟩ := readsBySlot_of_build consistent
  refine ⟨graph, added, after, copy, larger, built, consistent, isAdded, ?_, isCopy, ?_⟩
  · exact (ofAdd _ _ added after rfl isAdded).asListed_iff.mpr (by decide)
  · exact (ofCopy _ _ copy larger isCopy).asListed_iff.mpr (by decide)

/-- One row 256 times, and another one behind. -/
def crowdedSources : List NodeId := List.replicate 256 ⟨0⟩ ++ [⟨1⟩]

/-- The last of 257 inputs is read on the first slot, and comes first. -/
theorem exists_inputs_ne_listed :
    ∃ graph : Graph Rat, Graph.empty.addAll
        (sideBySide ++ [((Op.concat 0).draft "joined").readAll crowdedSources]) = .ok graph ∧
      graph.inputs ⟨3⟩ ≠ crowdedSources.map NodeId.output ∧ ¬ graph.HasExactSlots ⟨3⟩ := by
  have built : (Graph.empty.addAll
      (sideBySide ++ [((Op.concat 0).draft "joined").readAll crowdedSources])).map
        (fun graph => ((graph.inputs ⟨3⟩).head?, graph.inputCount ⟨3⟩)) =
          .ok (some ⟨⟨1⟩, 0⟩, 257) := by decide +kernel
  obtain ⟨graph, isGraph, read⟩ := Outcome.map_eq_ok.mp built
  obtain ⟨first, count⟩ := Prod.mk.inj read
  refine ⟨graph, isGraph, fun equal => ?_, fun exact => ?_⟩
  · rw [equal] at first
    cases first
  · have bound := exact.inputCount_le
    omega

end Graph

end QuantGraph
