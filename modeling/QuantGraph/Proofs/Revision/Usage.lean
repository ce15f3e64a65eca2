import QuantGraph.Proofs.Dequantization.Attachment
import QuantGraph.Proofs.Graph.Usage
import QuantGraph.Proofs.Revision.Creation

/-! Revisions leave nothing behind that nobody reads. While one is under way, only what it has
added last may still wait for a reader; a replacement gives it the readers of the node that
goes. -/

namespace QuantGraph

namespace Graph

variable {start graph after : Graph α} {id old new : NodeId} {pending rest : List NodeId}
  {draft : Draft α} {outputs : List Output}

/-- Nodes have been added to a graph in which everything was used, and what nobody reads yet is
among those that are pending. -/
structure Prepares (start graph : Graph α) (pending : List NodeId) : Prop where
  consistent : start.IsConsistent
  allUsed : start.AllUsed
  wellFormed : graph.WellFormed
  grows : start.Grows graph
  used : graph.UsedBut pending
  fresh : ∀ id ∈ pending, start.contains id = false

theorem AllUsed.prepares (used : graph.AllUsed) (wellFormed : graph.WellFormed) :
    graph.Prepares graph [] where
  consistent := wellFormed.consistent
  allUsed := used
  wellFormed := wellFormed
  grows := .refl graph
  used := usedBut_nil.mpr used
  fresh := by simp

namespace Prepares

theorem mono (prepares : start.Prepares graph pending) (subset : ∀ id ∈ pending, id ∈ rest)
    (fresh : ∀ id ∈ rest, start.contains id = false) : start.Prepares graph rest :=
  { prepares with used := prepares.used.mono subset, fresh := fresh }

theorem adds (prepares : start.Prepares graph pending) (adds : graph.Adds draft outputs id after)
    (covered : ∀ other ∈ pending, other ∈ rest ∨ ∃ output ∈ outputs, output.node = other)
    (listed : ∀ other ∈ rest, other ∈ pending) : start.Prepares after (id :: rest) where
  consistent := prepares.consistent
  allUsed := prepares.allUsed
  wellFormed := adds.wellFormed
  grows := prepares.grows.trans adds.grows
  used := prepares.used.adds adds covered
  fresh := by
    intro other member
    rcases List.mem_cons.mp member with rfl | member
    · refine Bool.eq_false_iff.mpr fun live => ?_
      have dead := adds.fresh
      rw [prepares.grows.live live] at dead
      cases dead
    · exact prepares.fresh other (listed other member)

theorem declares {change : Node α → Node α} (prepares : start.Prepares graph pending)
    (declares : graph.Declares id change after) (waits : id ∈ pending)
    (redeclared : ∀ node, IsRedeclared node (change node)) : start.Prepares after pending where
  consistent := prepares.consistent
  allUsed := prepares.allUsed
  wellFormed := declares.wellFormed
  grows := by
    refine ⟨fun other live => ?_, ?_⟩
    · have different : other ≠ id := ne_of_contains live (prepares.fresh id waits)
      rw [declares.node_eq, if_neg different]
      exact prepares.grows.node_eq other live
    · rw [declares.edges_eq]
      exact prepares.grows.edges_eq
  used := prepares.used.declares declares redeclared
  fresh := prepares.fresh

theorem prune (prepares : start.Prepares graph (id :: rest)) :
    start.Prepares (graph.prune id).2 rest where
  consistent := prepares.consistent
  allUsed := prepares.allUsed
  wellFormed := (sheds_prune prepares.wellFormed.consistent id).wellFormed prepares.wellFormed
  grows := prepares.grows.prune prepares.consistent prepares.allUsed
  used := prepares.used.prune
  fresh := fun other member => prepares.fresh other (List.mem_cons_of_mem id member)

/-- The reader that the old node had before is not new. -/
theorem replace (prepares : start.Prepares graph [new]) (removable : start.Removable old)
    (replaced : graph.replace old new = .ok after) : after.AllUsed := by
  obtain ⟨reader, reads⟩ := prepares.allUsed old removable
  have other : reader ≠ new := ne_of_contains (prepares.consistent.reads_live reads).2
    (prepares.fresh new List.mem_cons_self)
  exact usedBut_nil.mp (prepares.used.replace
    (reads.mono fun _ => prepares.grows.mem_edges) other replaced)

end Prepares

end Graph

namespace GraphRevision

open QuantGraph.Graph Revision

variable {start graph : Graph α} {pending : List NodeId} {id : NodeId}

section Steps

variable (prepares : start.Prepares graph pending)

include prepares

/-- What the new node reads does not wait any longer. -/
theorem ensures_add_waiting {draft : Draft α} {rest : List NodeId}
    {done : NodeId → Graph α → Prop} (outputs : List Output) (reads : draft.ReadsInOrder outputs)
    (covered : ∀ other ∈ pending, other ∈ rest ∨ ∃ output ∈ outputs, output.node = other)
    (listed : ∀ other ∈ rest, other ∈ pending)
    (ok : ∀ id after, start.Prepares after (id :: rest) → done id after) :
    (GraphRevision.add draft).Ensures graph (fun _ => True) done :=
  ensures_extend_of_eq fun id after added =>
    ok id after (prepares.adds (adds_of_add prepares.wellFormed reads added) covered listed)

theorem ensures_addConstant_waiting {tensor : Tensor α} {name : String}
    {done : NodeId → Graph α → Prop}
    (ok : ∀ id after, start.Prepares after (id :: pending) → done id after) :
    (GraphRevision.addConstant tensor name).Ensures graph (fun _ => True) done :=
  ensures_add_waiting prepares [] ⟨rfl, by simp⟩ (fun _ member => Or.inl member)
    (fun _ member => member) ok

/-- The new node reads all that waits. -/
theorem ensures_addLast_waiting {draft : Draft α} {done : NodeId → Graph α → Prop}
    (outputs : List Output) (reads : draft.ReadsInOrder outputs)
    (covered : ∀ other ∈ pending, other ∈ outputs.map Output.node)
    (ok : ∀ id after, start.Prepares after [id] → done id after) :
    (GraphRevision.add draft).Ensures graph (fun _ => True) done :=
  ensures_add_waiting prepares outputs reads
    (fun other member => Or.inr (List.mem_map.mp (covered other member))) (by simp) ok

/-! ## Dequantization -/

theorem ensures_attachConvert_waiting {values : Dequantization α} {data : Output} {name : String}
    {withConvert : Bool} (covered : ∀ other ∈ pending, other = data.node) :
    (values.attachConvert data name withConvert).Ensures graph (fun _ => True)
      fun convert after => ∃ waiting, start.Prepares after waiting ∧
        ∀ other ∈ waiting, other = (stageOutput convert data).node := by
  unfold Dequantization.attachConvert
  split
  case isTrue =>
    refine ensures_bind.mpr (ensures_addLast_waiting prepares [data] ⟨rfl, by simp⟩
      (by simpa using covered) fun convert after prepares => ⟨[convert], prepares, ?_⟩)
    simp [stageOutput, NodeId.output]
  case isFalse => exact ⟨pending, prepares, covered⟩

theorem ensures_attachSubtract_waiting {values : Dequantization α} {data : Output} {name : String}
    (covered : ∀ other ∈ pending, other = data.node) :
    (values.attachSubtract data name).Ensures graph (fun _ => True)
      fun subtract after => ∃ waiting, start.Prepares after waiting ∧
        ∀ other ∈ waiting, other = (stageOutput subtract data).node := by
  unfold Dequantization.attachSubtract
  split
  case h_1 =>
    refine ensures_bind.mpr (ensures_addConstant_waiting prepares fun constant _ prepares => ?_)
    refine ensures_bind.mpr (ensures_addLast_waiting prepares [data, constant.output]
      ⟨rfl, by simp⟩ ?_ fun subtract after prepares => ⟨[subtract], prepares, ?_⟩)
    · simpa [NodeId.output] using fun other member => Or.inl (covered other member)
    · simp [stageOutput, NodeId.output]
  case h_2 => exact ⟨pending, prepares, covered⟩

/-- A dequantization whose last node waits for a reader. -/
theorem ensures_attach_waiting {values : Dequantization α} {data : Output} {name : String}
    {withConvert : Bool} {done : DequantizationChain → Graph α → Prop}
    (covered : ∀ other ∈ pending, other = data.node)
    (ok : ∀ chain after, start.Prepares after [chain.tail.node] → done chain after) :
    (values.attach data name withConvert).Ensures graph (fun _ => True) done := by
  unfold Dequantization.attach
  refine ensures_bind.mpr ((ensures_attachConvert_waiting prepares covered).mono
    (fun _ _ => trivial) ?_)
  rintro convert converted ⟨waiting, prepares, covered⟩
  refine ensures_bind.mpr ((ensures_attachSubtract_waiting prepares covered).mono
    (fun _ _ => trivial) ?_)
  rintro subtract shifted ⟨waiting, prepares, covered⟩
  refine ensures_bind.mpr (ensures_addConstant_waiting prepares fun constant _ prepares => ?_)
  refine ensures_bind.mpr (ensures_addLast_waiting prepares
    [stageOutput subtract (stageOutput convert data), constant.output] ⟨rfl, by simp⟩ ?_
    fun multiply after prepares => ok _ after prepares)
  simpa [NodeId.output] using fun other member => Or.inl (covered other member)

end Steps

theorem ensures_replace_waiting {old new : NodeId} {done : PUnit → Graph α → Prop}
    (prepares : start.Prepares graph [new]) (removable : start.Removable old)
    (ok : ∀ after, after.AllUsed → done PUnit.unit after) :
    (GraphRevision.replace old new).Ensures graph (fun _ => True) done := by
  refine ensures_change.mpr ?_
  cases replaced : graph.replace old new with
  | error => trivial
  | ok after => exact ok after (prepares.replace removable replaced)

theorem ensures_setPrecision_waiting {precision : ElementType} {done : PUnit → Graph α → Prop}
    (prepares : start.Prepares graph [id])
    (ok : ∀ after, start.Prepares after [id] → done PUnit.unit after) :
    (GraphRevision.setPrecision id precision).Ensures graph (fun _ => True) done := by
  refine ensures_change.mpr ?_
  unfold Graph.setPrecision
  split
  case h_1 after declared =>
    split at declared
    case isTrue =>
      cases Except.ok.inj declared
      have redeclared := isRedeclared_declaring (α := α) precision
      exact ok _ (prepares.declares (declares_modify prepares.wellFormed redeclared)
        List.mem_cons_self redeclared)
    case isFalse => cases declared
  case h_2 => trivial

theorem ensures_overridePrecision_waiting {precision : ElementType} {done : PUnit → Graph α → Prop}
    (prepares : start.Prepares graph [id])
    (ok : ∀ after, start.Prepares after [id] → done PUnit.unit after) :
    (GraphRevision.overridePrecision id precision).Ensures graph (fun _ => True) done := by
  refine ensures_change.mpr ?_
  unfold Graph.overridePrecision
  cases graph.node? id with
  | none => trivial
  | some node =>
      by_cases relaxed : node.relaxed = true
      · simp only [relaxed, if_true]
        have redeclared (node : Node α) :
            IsRedeclared node { node with precision := some precision } := ⟨rfl, rfl, rfl, rfl⟩
        exact ok _ (prepares.declares (declares_modify prepares.wellFormed redeclared)
          List.mem_cons_self redeclared)
      · simp [relaxed]

end GraphRevision

end QuantGraph
