import QuantGraph.Proofs.Dequantization.Exchange
import QuantGraph.Proofs.Rules.Creation
import QuantGraph.Proofs.Run.State
import QuantGraph.Rules.Quantization

/-! The passes of a run: fake quantizations that are handed over to be split or narrowed.
What has been made of one is noted as dealt with, so that every fake quantization without
a note is one of the first graph that has not been handed over yet. -/

namespace QuantGraph

/-- A fake quantization is handed over, in one graph, which leaves another. -/
structure Pass (α : Type) where
  id : NodeId
  before : Graph α
  after : Graph α

namespace Pass

/-- The identity number of the node that is handed over. -/
def given (pass : Pass α) : Option Nat := pass.before.uid? pass.id

/-- An identity number is given out in the pass. -/
def Creates (pass : Pass α) (uid : Nat) : Prop :=
  pass.before.nextUid ≤ uid ∧ uid < pass.after.nextUid

end Pass

namespace Graph

variable {start : Graph α} {past : List (Pass α)} {pass : Pass α} {uid : Nat}

/-- Where no fake quantization is created, those that are found were there. -/
theorem Creates.isQuantizer {after : Graph α} {count : Nat} {id : NodeId}
    (creates : start.Creates (fun kind => kind ≠ .fakeQuantize) count after)
    (quantizer : after.IsQuantizer id uid) : start.IsQuantizer id uid := by
  obtain ⟨isUid, isKind⟩ := quantizer
  obtain ⟨node, present, uid_eq⟩ := Option.map_eq_some_iff.mp isUid
  rw [kind?, present, Option.map_some, Option.some.injEq] at isKind
  rcases creates.exists_node present with ⟨earlier, found, earlier_uid, op_eq⟩ | ⟨_, allowed⟩
  · refine ⟨?_, ?_⟩
    · rw [uid?, found, Option.map_some, earlier_uid, uid_eq]
    · rw [kind?, found, Option.map_some, Node.kind, op_eq, ← isKind, Node.kind]
  · exact absurd isKind allowed

/-- A fake quantization of the first graph has not been handed over. -/
def Unpassed (start : Graph α) (past : List (Pass α)) (uid : Nat) : Prop :=
  (∃ id, start.IsQuantizer id uid) ∧ ∀ pass ∈ past, pass.given ≠ some uid

theorem Unpassed.concat (unpassed : start.Unpassed past uid) (different : pass.given ≠ some uid) :
    start.Unpassed (past ++ [pass]) uid := by
  refine ⟨unpassed.1, fun other member => ?_⟩
  rcases List.mem_append.mp member with earlier | last
  · exact unpassed.2 other earlier
  · exact List.mem_singleton.mp last ▸ different

/-- Only fake quantizations of the first graph are handed over, and none of them twice. -/
structure PassesOnce (start : Graph α) (passes : List (Pass α)) : Prop where
  given_start : ∀ pass ∈ passes, ∃ id uid, pass.given = some uid ∧ start.IsQuantizer id uid
  nodup : (passes.map Pass.given).Nodup
  nextUid_le : ∀ pass ∈ passes, start.nextUid ≤ pass.before.nextUid

namespace PassesOnce

theorem nil (start : Graph α) : start.PassesOnce [] := ⟨by simp, by simp, by simp⟩

theorem concat (once : start.PassesOnce past) (unpassed : start.Unpassed past uid)
    (given : pass.given = some uid) (nextUid_le : start.nextUid ≤ pass.before.nextUid) :
    start.PassesOnce (past ++ [pass]) where
  given_start := by
    intro other member
    rcases List.mem_append.mp member with earlier | last
    · exact once.given_start other earlier
    · obtain ⟨id, quantizer⟩ := unpassed.1
      exact ⟨id, uid, List.mem_singleton.mp last ▸ given, quantizer⟩
  nodup := by
    rw [List.map_append, List.map_singleton, ← List.concat_eq_append, List.nodup_concat]
    refine ⟨fun member => ?_, once.nodup⟩
    obtain ⟨other, earlier, equal⟩ := List.mem_map.mp member
    exact unpassed.2 other earlier (equal.trans given)
  nextUid_le := by
    intro other member
    rcases List.mem_append.mp member with earlier | last
    · exact once.nextUid_le other earlier
    · exact List.mem_singleton.mp last ▸ nextUid_le

/-- What is given out in a pass was not there in the first graph. -/
theorem not_created (once : start.PassesOnce past) (consistent : start.IsConsistent)
    {other : Pass α} (member : pass ∈ past) (otherMember : other ∈ past)
    (given : other.given = some uid) : ¬ pass.Creates uid := by
  rintro ⟨late, _⟩
  obtain ⟨id, number, equal, quantizer⟩ := once.given_start other otherMember
  cases equal.symm.trans given
  have early := consistent.uid_lt id uid quantizer.1
  have bound := once.nextUid_le pass member
  omega

end PassesOnce

end Graph

namespace RunState

variable {start graph : Graph α} {past : List (Pass α)} {pass : Pass α} {state : RunState α}
  {id new : NodeId} {uid : Nat}

/-- The passes so far are sound, and every fake quantization without a note is one that has
not been handed over. -/
structure Tracks (start : Graph α) (past : List (Pass α)) (state : RunState α) : Prop where
  nextUid_le : start.nextUid ≤ state.graph.nextUid
  once : start.PassesOnce past
  settled : ∀ id uid, state.graph.IsQuantizer id uid →
    uid ∈ state.handled ∨ start.Unpassed past uid

namespace Tracks

theorem unpassed (tracks : Tracks start past state) (quantizer : state.graph.IsQuantizer id uid)
    (unhandled : state.isHandled id = false) : start.Unpassed past uid := by
  rcases tracks.settled id uid quantizer with noted | unpassed
  · rw [isHandled_eq_of_uid? quantizer.1, List.contains_iff_mem.mpr noted] at unhandled
    cases unhandled
  · exact unpassed

/-- Nothing is handed over. -/
theorem idle (tracks : Tracks start past state) :
    start.PassesOnce (past ++ []) ∧ Tracks start (past ++ []) state := by
  rw [List.append_nil]
  exact ⟨tracks.once, tracks⟩

/-- One fake quantization is handed over, and what has been made of it is noted. -/
theorem exchange (tracks : Tracks start past state) (consistent : state.graph.IsConsistent)
    (found : state.graph.uid? id = some uid) (given : pass.given = some uid)
    (once : start.PassesOnce (past ++ [pass])) (exchanges : state.graph.Exchanges id new graph)
    (nextUid_le : state.graph.nextUid ≤ graph.nextUid) :
    Tracks start (past ++ [pass]) ({ state with graph := graph }.markHandled new) where
  nextUid_le := by
    rw [graph_markHandled]
    exact Nat.le_trans tracks.nextUid_le nextUid_le
  once := once
  settled := by
    intro other number quantizer
    rw [graph_markHandled] at quantizer
    rw [mem_handled_markHandled]
    rcases exchanges other number quantizer with rfl | ⟨different, earlier⟩
    · exact Or.inl (Or.inr quantizer.1)
    · refine (tracks.settled other number earlier).imp Or.inl fun unpassed => ?_
      refine unpassed.concat fun equal => ?_
      cases given.symm.trans equal
      exact different (consistent.uid_unique other id uid earlier.1 found)

/-- No fake quantization is created, and no note goes. -/
theorem creates {after : RunState α} {count : Nat} (tracks : Tracks start past state)
    (creates : state.graph.Creates (fun kind => kind ≠ .fakeQuantize) count after.graph)
    (noted : ∀ uid ∈ state.handled, uid ∈ after.handled) : Tracks start past after where
  nextUid_le := by
    rw [creates.nextUid_eq]
    exact Nat.le_trans tracks.nextUid_le (Nat.le_add_right _ _)
  once := tracks.once
  settled := fun other number quantizer =>
    (tracks.settled other number (creates.isQuantizer quantizer)).imp_left (noted number)

end Tracks

end RunState

/-! ## The rule that splits fake quantizations -/

namespace RunRevision

open QuantGraph.Graph Revision

variable [Scalar α]

/-- The pass of an attempt to split a fake quantization, if there is one. -/
def passesQuantizing (registry : Registry) (policy : Policy) (id : NodeId) (state : RunState α) :
    List (Pass α) :=
  if state.isHandled id then []
  else
    match registry.target? state.graph id policy with
    | none => []
    | some target =>
        let split := GraphRevision.decomposeFakeQuantize id target policy.updatePrecisions
        [{ id := id, before := state.graph, after := (split.runOn state.graph).2 }]

variable {start : Graph α} {past : List (Pass α)} {state : RunState α} {registry : Registry}
  {policy : Policy} {id : NodeId}

theorem tracks_quantize (tracks : state.Tracks start past) (wellFormed : state.graph.WellFormed)
    (kind : state.graph.kind? id = some .fakeQuantize) :
    start.PassesOnce (past ++ passesQuantizing registry policy id state) ∧
      (quantize registry policy id).Ensures state (fun _ => True) fun _ after =>
        after.Tracks start (past ++ passesQuantizing registry policy id state) := by
  unfold quantize passesQuantizing
  rw [ensures_bind, ensures_get]
  split
  case isTrue => exact tracks.idle
  case isFalse unhandled =>
    cases registry.target? state.graph id policy with
    | none => exact tracks.idle
    | some target =>
        obtain ⟨uid, isQuantizer⟩ := exists_isQuantizer kind
        have found := isQuantizer.1
        have unpassed := tracks.unpassed isQuantizer (Bool.not_eq_true _ ▸ unhandled)
        dsimp only
        generalize isPass : Pass.mk id state.graph _ = pass
        have given : pass.given = some uid := by rw [← isPass, Pass.given, found]
        have once := tracks.once.concat unpassed given (by rw [← isPass]; exact tracks.nextUid_le)
        refine ⟨once, ?_⟩
        rw [ensures_bind, ensures_onGraph]
        refine ((GraphRevision.ensures_decomposeFakeQuantize_exchanges wellFormed).and
          (GraphRevision.ensures_decomposeFakeQuantize_makes Creates.allowsQuantization_any
            .none)).mono (fun _ _ => trivial) ?_
        rintro ⟨quantizer, tail⟩ after ⟨exchanges, more, makes⟩
        rw [ensures_bind, ensures_markHandled, ensures_pure]
        refine tracks.exchange wellFormed.consistent found given once exchanges ?_
        rw [Creates.nextUid_eq makes.creates]
        exact Nat.le_add_right _ _

end RunRevision

end QuantGraph
