import QuantGraph.Proofs.Run.Relaxation
import QuantGraph.Run

/-! The calls of transformations in a run, one after the other, also of a run that
gives up. What every call keeps holds after every call, and the last call leaves the
state in which the run ends. -/

namespace QuantGraph

namespace RunRevision

open Revision

section Calls

variable [Scalar α]

/-- The states that the calls of transformations on one node leave. -/
def callsInTurn (registry : Registry) (id : NodeId) :
    List Transformation → RunState α → List (RunState α)
  | [], _ => []
  | transformation :: rest, state =>
      match (transformation.apply registry id).runOn state with
      | (.ok false, after) => after :: callsInTurn registry id rest after
      | (_, after) => [after]

/-- The states that the calls on a visit to a node leave. -/
def callsAt (registry : Registry) (select : OpKind → List Transformation) (id : NodeId)
    (uid : Nat) (state : RunState α) : List (RunState α) :=
  if state.graph.uid? id ≠ some uid then []
  else
    match state.graph.kind? id with
    | some kind => callsInTurn registry id (select kind) state
    | none => []

/-- The states that the calls on visits to several nodes leave. -/
def callsAlong (registry : Registry) (select : OpKind → List Transformation) :
    List (NodeId × Nat) → RunState α → List (RunState α)
  | [], _ => []
  | (id, uid) :: rest, state =>
      callsAt registry select id uid state ++
        match (visit registry select id uid).runOn state with
        | (.ok _, after) => callsAlong registry select rest after
        | (.error _, _) => []

/-- The states that the calls in a traversal leave. -/
def callsIn (registry : Registry) (select : OpKind → List Transformation)
    (state : RunState α) : List (RunState α) :=
  match snapshot state.graph with
  | .ok nodes => callsAlong registry select nodes state
  | .error _ => []

/-- The states that the calls in several traversals leave. -/
def callsThrough (registry : Registry) :
    List (OpKind → List Transformation) → RunState α → List (RunState α)
  | [], _ => []
  | select :: rest, state =>
      callsIn registry select state ++
        match (traverse registry select).runOn state with
        | (.ok _, after) => callsThrough registry rest after
        | (.error _, _) => []

end Calls

variable {registry : Registry} {select : OpKind → List Transformation} {id : NodeId}
  {uid : Nat} {state : RunState α}

/-! ## The last call -/

private theorem getLastD_append (front back : List β) (start : β) :
    (front ++ back).getLastD start = back.getLastD (front.getLastD start) := by
  induction front generalizing start with
  | nil => rfl
  | cons head tail induction => rw [List.cons_append, List.getLastD_cons, induction,
      List.getLastD_cons]

/-- What holds at the start and after every call holds at the end. -/
theorem invariant_getLastD (invariant : RunState α → Prop) {calls : List (RunState α)}
    (start : invariant state) (kept : ∀ after ∈ calls, invariant after) : invariant (calls.getLastD state) := by
  rcases List.mem_cons.mp (List.getLastD_mem_cons (l := calls) (a := state)) with equal | member
  · rw [equal]
    exact start
  · exact kept _ member

private theorem runOn_phase (name : String) (body : RunRevision α Nat) (state : RunState α) :
    (phase name body).runOn state =
      match body.runOn state with
      | (.ok revisions, after) =>
          (.ok
            { name := name
              revisions := revisions
              nodesBefore := state.graph.nodeCount
              nodesAfter := after.graph.nodeCount }, after)
      | (.error error, after) => (.error error, after) := by
  have unfolded : (phase name body).runOn state =
      (body >>= fun revisions => do
        return {
          name := name
          revisions := revisions
          nodesBefore := state.graph.nodeCount
          nodesAfter := (← get).graph.nodeCount } : RunRevision α PhaseReport).runOn state := rfl
  rw [unfolded, runOn_bind]
  rcases body.runOn state with ⟨outcome, after⟩
  cases outcome <;> rfl

variable [Scalar α] {invariant : RunState α → Prop}

theorem runOn_tryInTurn (transformations : List Transformation) (state : RunState α) :
    ((tryInTurn registry id transformations).runOn state).2 =
      (callsInTurn registry id transformations state).getLastD state := by
  induction transformations generalizing state with
  | nil => rfl
  | cons transformation rest induction =>
      rw [tryInTurn, runOn_bind, callsInTurn]
      split
      case h_1 changed after ran =>
        rw [ran]
        cases changed with
        | false =>
            rw [List.getLastD_cons]
            exact induction after
        | true => rfl
      case h_2 error after ran =>
        rw [ran]
        rfl

theorem runOn_visit (state : RunState α) :
    ((visit registry select id uid).runOn state).2 =
      (callsAt registry select id uid state).getLastD state := by
  have unfolded : (visit registry select id uid).runOn state =
      (if state.graph.uid? id ≠ some uid then pure false
        else match state.graph.kind? id with
          | some kind => tryInTurn registry id (select kind)
          | none => pure false : RunRevision α Bool).runOn state := rfl
  rw [unfolded, callsAt]
  split
  case isTrue => rfl
  case isFalse =>
    cases state.graph.kind? id with
    | none => rfl
    | some kind => exact runOn_tryInTurn (select kind) state

/-- Visit a node and count the revision, if there is one. -/
def visitEntry (registry : Registry) (select : OpKind → List Transformation)
    (revisions : Nat) (entry : NodeId × Nat) : RunRevision α Nat := do
  if ← visit registry select entry.1 entry.2 then return revisions + 1 else return revisions

theorem runOn_visitEntry (revisions : Nat) (entry : NodeId × Nat) (state : RunState α) :
    (visitEntry registry select revisions entry).runOn state =
      match (visit registry select entry.1 entry.2).runOn state with
      | (.ok changed, after) => (.ok (if changed then revisions + 1 else revisions), after)
      | (.error error, after) => (.error error, after) := by
  rw [visitEntry, runOn_bind]
  rcases (visit registry select entry.1 entry.2).runOn state with ⟨outcome, after⟩
  rcases outcome with error | changed
  · rfl
  · cases changed <;> rfl

private theorem runOn_visits (nodes : List (NodeId × Nat)) (revisions : Nat)
    (state : RunState α) :
    ((nodes.foldlM (visitEntry registry select) revisions).runOn state).2 =
      (callsAlong registry select nodes state).getLastD state := by
  induction nodes generalizing revisions state with
  | nil => rfl
  | cons entry rest induction =>
      obtain ⟨id, uid⟩ := entry
      rw [List.foldlM_cons, runOn_bind, runOn_visitEntry, callsAlong, getLastD_append,
        ← runOn_visit]
      rcases (visit registry select id uid).runOn state with ⟨outcome, after⟩
      cases outcome with
      | error => rfl
      | ok changed => exact induction _ after

theorem runOn_traverse (state : RunState α) :
    ((traverse registry select).runOn state).2 =
      (callsIn registry select state).getLastD state := by
  have unfolded : (traverse registry select).runOn state =
      (Revision.ofExcept (snapshot state.graph) >>= fun nodes =>
        nodes.foldlM (visitEntry registry select) 0 : RunRevision α Nat).runOn state := rfl
  rw [unfolded, runOn_bind, callsIn]
  cases snapshot state.graph with
  | error => rfl
  | ok nodes => exact runOn_visits nodes 0 state

private theorem runOn_phases (passes : List (String × (OpKind → List Transformation)))
    (state : RunState α) :
    (((passes.map fun pass => phase pass.1 (traverse registry pass.2)).mapM
      fun step => step).runOn state).2 =
        (callsThrough registry (passes.map Prod.snd) state).getLastD state := by
  induction passes generalizing state with
  | nil => rfl
  | cons pass rest induction =>
      obtain ⟨name, select⟩ := pass
      rw [List.map_cons, List.mapM_cons, runOn_bind, runOn_phase, List.map_cons, callsThrough,
        getLastD_append, ← runOn_traverse]
      rcases (traverse registry select).runOn state with ⟨outcome, after⟩
      cases outcome with
      | error => rfl
      | ok revisions =>
          dsimp only
          rw [← induction after, runOn_bind]
          generalize (List.mapM (fun step => step) _ : RunRevision α _).runOn after = ran
          rcases ran with ⟨outcome, last⟩
          cases outcome <;> rfl

private theorem runOn_all (state relaxed : RunState α) {revisions : Nat}
    (ran : (relaxNodes : RunRevision α Nat).runOn state = (.ok revisions, relaxed)) :
    ((all registry).runOn state).2 =
      (callsThrough registry ((traversals registry).map Prod.snd) relaxed).getLastD relaxed := by
  have unfolded : (all registry).runOn state =
      ((phase "TypeRelaxation" relaxNodes :: (traversals registry).map fun pass =>
          phase pass.1 (traverse registry pass.2)).mapM (fun step => step) >>= fun reports => do
        let final := (← get).graph
        return {
          initialNodes := state.graph.nodeCount
          finalNodes := final.nodeCount
          initialEdges := state.graph.edgeCount
          finalEdges := final.edgeCount
          phases := reports } : RunRevision α RunReport).runOn state := rfl
  rw [unfolded, List.mapM_cons, bind_assoc, runOn_bind, runOn_phase, ran]
  dsimp only
  rw [bind_assoc, runOn_bind, ← runOn_phases]
  generalize (List.mapM (fun step => step) _ : RunRevision α _).runOn relaxed = ended
  rcases ended with ⟨outcome, last⟩
  cases outcome <;> rfl

/-! ## What every call keeps -/

/-- Every call of a transformation of a selection keeps an invariant, and nothing changes
in a call that tells of no change. -/
def Keeps (registry : Registry) (select : OpKind → List Transformation)
    (invariant : RunState α → Prop) : Prop :=
  ∀ kind, ∀ transformation ∈ select kind, ∀ id state, invariant state →
    state.graph.kind? id = some kind →
      (transformation.apply registry id).Ensures state invariant fun changed after =>
        invariant after ∧ (changed = false → after = state)

theorem Keeps.callsInTurn (keeps : Keeps registry select invariant) {kind : OpKind}
    (found : state.graph.kind? id = some kind) (start : invariant state) :
    ∀ {transformations}, (∀ transformation ∈ transformations, transformation ∈ select kind) →
      ∀ after ∈ callsInTurn registry id transformations state, invariant after := by
  intro transformations
  induction transformations with
  | nil =>
      intro _ after member
      cases member
  | cons transformation rest induction =>
      intro selected after member
      have kept := keeps kind transformation (selected _ List.mem_cons_self) id state start found
      rw [RunRevision.callsInTurn] at member
      split at member
      case h_1 last ran =>
        obtain ⟨kept, unchanged⟩ := kept.of_runOn ran
        rcases List.mem_cons.mp member with rfl | member
        · exact kept
        · rw [unchanged rfl] at member
          exact induction (fun other known => selected other (List.mem_cons_of_mem _ known))
            after member
      case h_2 outcome last _ ran =>
        rw [List.mem_singleton.mp member]
        cases outcome with
        | error => exact kept.of_runOn_error ran
        | ok => exact (kept.of_runOn ran).1

theorem Keeps.callsAt (keeps : Keeps registry select invariant) (start : invariant state) :
    ∀ after ∈ callsAt registry select id uid state, invariant after := by
  intro after member
  rw [RunRevision.callsAt] at member
  split at member
  case isTrue => cases member
  case isFalse =>
    split at member
    case h_1 kind found =>
      exact keeps.callsInTurn found start (fun _ selected => selected) after member
    case h_2 => cases member

theorem Keeps.visit (keeps : Keeps registry select invariant) (id : NodeId) (uid : Nat)
    (start : invariant state) :
    invariant ((visit registry select id uid).runOn state).2 := by
  rw [runOn_visit]
  exact invariant_getLastD invariant start (keeps.callsAt start)

theorem Keeps.callsAlong (keeps : Keeps registry select invariant)
    (nodes : List (NodeId × Nat)) (start : invariant state) :
    ∀ after ∈ callsAlong registry select nodes state, invariant after := by
  induction nodes generalizing state with
  | nil =>
      intro after member
      cases member
  | cons entry rest induction =>
      intro after member
      rw [RunRevision.callsAlong] at member
      rcases List.mem_append.mp member with member | member
      · exact keeps.callsAt start after member
      · have kept := keeps.visit entry.1 entry.2 start
        split at member
        case h_1 changed last ran =>
          rw [ran] at kept
          exact induction kept after member
        case h_2 => cases member

theorem Keeps.callsIn (keeps : Keeps registry select invariant) (start : invariant state) :
    ∀ after ∈ callsIn registry select state, invariant after := by
  rw [RunRevision.callsIn]
  split
  case h_1 nodes _ => exact keeps.callsAlong nodes start
  case h_2 =>
    intro after member
    cases member

theorem Keeps.traverse (keeps : Keeps registry select invariant) (start : invariant state) :
    invariant ((traverse registry select).runOn state).2 := by
  rw [runOn_traverse]
  exact invariant_getLastD invariant start (keeps.callsIn start)

theorem invariant_of_mem_callsThrough {selections : List (OpKind → List Transformation)}
    (keeps : ∀ select ∈ selections, Keeps registry select invariant) (start : invariant state) :
    ∀ after ∈ callsThrough registry selections state, invariant after := by
  induction selections generalizing state with
  | nil =>
      intro after member
      cases member
  | cons select rest induction =>
      intro after member
      have first := keeps select List.mem_cons_self
      rw [callsThrough] at member
      rcases List.mem_append.mp member with member | member
      · exact first.callsIn start after member
      · have kept := first.traverse start
        split at member
        case h_1 revisions last ran =>
          rw [ran] at kept
          exact induction (fun other known => keeps other (List.mem_cons_of_mem select known))
            kept after member
        case h_2 => cases member

end RunRevision

/-! ## The calls of a run -/

namespace Registry

/-- The state of a run in which nodes have been relaxed and no transformation has been
called. -/
def relaxed (graph : Graph α) : RunState α :=
  (RunRevision.relaxNodes.runOn (.ofGraph graph)).2

theorem evolves_relaxed {graph : Graph α} (wellFormed : graph.WellFormed) :
    graph.Evolves (relaxed graph).graph := by
  have ensures := RunRevision.ensures_relaxNodes (.ofGraph graph) wellFormed
  unfold relaxed
  rcases ran : RunRevision.relaxNodes.runOn (RunState.ofGraph graph) with ⟨outcome, after⟩
  cases outcome with
  | error => exact (ensures.of_runOn_error ran).elim
  | ok => exact ensures.of_runOn ran

theorem makes_relaxed (allowed : OpKind → Prop) (graph : Graph α) :
    graph.Makes allowed 0 (relaxed graph).graph ∧ (relaxed graph).graph.edges = graph.edges := by
  have ensures := RunRevision.ensures_relaxNodes_makes allowed (.ofGraph graph)
  unfold relaxed
  rcases ran : RunRevision.relaxNodes.runOn (RunState.ofGraph graph) with ⟨outcome, after⟩
  cases outcome with
  | error => exact (ensures.of_runOn_error ran).elim
  | ok => exact ensures.of_runOn ran

variable [Scalar α]

/-- The states that the calls of transformations in a run leave, in their order. -/
def calls (registry : Registry) (graph : Graph α) : List (RunState α) :=
  if (registry.general .fakeQuantize).isEmpty then []
  else
    RunRevision.callsThrough registry ((RunRevision.traversals registry).map Prod.snd)
      (relaxed graph)

/-- A run ends in the state that its last call leaves. -/
theorem graph_transform {registry : Registry} {graph : Graph α}
    (wellFormed : graph.WellFormed)
    (present : (registry.general .fakeQuantize).isEmpty = false) :
    (registry.transform graph).2 =
      ((registry.calls graph).getLastD (relaxed graph)).graph := by
  have never := RunRevision.ensures_relaxNodes (.ofGraph graph) wellFormed
  rw [transform, present, if_neg Bool.false_ne_true, calls, present, if_neg Bool.false_ne_true]
  rcases ran : RunRevision.relaxNodes.runOn (RunState.ofGraph graph) with ⟨outcome, after⟩
  have equal : relaxed graph = after := congrArg Prod.snd ran
  cases outcome with
  | error => exact (never.of_runOn_error ran).elim
  | ok revisions =>
      rw [equal]
      exact congrArg RunState.graph (RunRevision.runOn_all (.ofGraph graph) after ran)

end Registry

end QuantGraph
