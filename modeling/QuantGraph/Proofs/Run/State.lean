import QuantGraph.Proofs.Revision.Ensures
import QuantGraph.Run.State

/-! Noting that a node has been dealt with leaves the graph alone, and everything noted
before. -/

namespace QuantGraph

@[simp] theorem RunState.graph_markHandled (state : RunState α) (id : NodeId) :
    (state.markHandled id).graph = state.graph := by
  unfold markHandled
  split
  case h_1 => split <;> rfl
  case h_2 => rfl

namespace RunState

theorem mem_handled_markHandled {state : RunState α} {id : NodeId} {uid : Nat} :
    uid ∈ (state.markHandled id).handled ↔
      uid ∈ state.handled ∨ state.graph.uid? id = some uid := by
  unfold markHandled
  cases state.graph.uid? id with
  | none => simp
  | some number =>
      dsimp only
      split
      case isTrue noted =>
        rw [List.contains_iff_mem] at noted
        constructor
        · exact Or.inl
        · rintro (member | equal)
          · exact member
          · exact Option.some.inj equal ▸ noted
      case isFalse =>
        rw [List.mem_cons, Option.some.injEq, or_comm, eq_comm]

theorem isHandled_eq_of_uid? {state : RunState α} {id : NodeId} {uid : Nat}
    (found : state.graph.uid? id = some uid) :
    state.isHandled id = state.handled.contains uid := by
  rw [isHandled, found]

end RunState

namespace RunRevision

open Revision

@[simp] theorem ensures_onGraph {revision : GraphRevision α β} {state : RunState α}
    {failed : RunState α → Prop} {done : β → RunState α → Prop} :
    (onGraph revision).Ensures state failed done ↔
      revision.Ensures state.graph (fun graph => failed { state with graph := graph })
        fun value graph => done value { state with graph := graph } := ensures_onPart

@[simp] theorem ensures_markHandled {id : NodeId} {state : RunState α}
    {failed : RunState α → Prop} {done : PUnit → RunState α → Prop} :
    (markHandled id).Ensures state failed done ↔ done PUnit.unit (state.markHandled id) := Iff.rfl

end RunRevision

end QuantGraph
