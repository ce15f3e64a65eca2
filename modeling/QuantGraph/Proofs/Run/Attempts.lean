import QuantGraph.Proofs.Revision.Records
import QuantGraph.Proofs.Run.Reporting

/-! The attempts of a run, one after the other, also of a run that gives up: which
transformation is tried on which node, and in which state. What an attempt keeps as long as
it does not give up is kept from one attempt to the next. -/

namespace QuantGraph

/-- A transformation that is tried on a node. -/
structure Attempt (α : Type) where
  transformation : Transformation
  id : NodeId
  before : RunState α

/-- The state that an attempt leaves. -/
def Attempt.after [Scalar α] (registry : Registry) (attempt : Attempt α) : RunState α :=
  ((attempt.transformation.apply registry attempt.id).runOn attempt.before).2

namespace RunRevision

open Revision

section Attempts

variable [Scalar α]

/-- The attempts of transformations on one node. -/
def attemptsInTurn (registry : Registry) (id : NodeId) :
    List Transformation → RunState α → List (Attempt α)
  | [], _ => []
  | transformation :: rest, state =>
      { transformation := transformation, id := id, before := state } ::
        match (transformation.apply registry id).runOn state with
        | (.ok false, after) => attemptsInTurn registry id rest after
        | _ => []

/-- The attempts on a visit to a node. -/
def attemptsAt (registry : Registry) (select : OpKind → List Transformation)
    (entry : NodeId × Nat) (state : RunState α) : List (Attempt α) :=
  if state.graph.uid? entry.1 ≠ some entry.2 then []
  else
    match state.graph.kind? entry.1 with
    | some kind => attemptsInTurn registry entry.1 (select kind) state
    | none => []

/-- The attempts in a traversal. -/
def attemptsIn (registry : Registry) (select : OpKind → List Transformation)
    (state : RunState α) : List (Attempt α) :=
  match snapshot state.graph with
  | .ok nodes =>
      along (visitEntry registry select) (fun _ => attemptsAt registry select) nodes 0 state
  | .error _ => []

/-- The attempts in several traversals. -/
def attemptsThrough (registry : Registry) (selections : List (OpKind → List Transformation))
    (state : RunState α) : List (Attempt α) :=
  along (fun _ => traverse registry) (fun _ => attemptsIn registry) selections 0 state

end Attempts

variable [Scalar α] {registry : Registry} {select : OpKind → List Transformation} {id : NodeId}

/-! ## The states that they leave -/

theorem callsInTurn_eq_map (transformations : List Transformation) (state : RunState α) :
    callsInTurn registry id transformations state =
      (attemptsInTurn registry id transformations state).map (Attempt.after registry) := by
  induction transformations generalizing state with
  | nil => rfl
  | cons transformation rest induction =>
      rw [callsInTurn, attemptsInTurn, List.map_cons, Attempt.after]
      rcases (transformation.apply registry id).runOn state with ⟨outcome, after⟩
      rcases outcome with error | changed
      · rfl
      · cases changed with
        | false => exact congrArg _ (induction after)
        | true => rfl

theorem callsAt_eq_map (entry : NodeId × Nat) (state : RunState α) :
    callsAt registry select entry.1 entry.2 state =
      (attemptsAt registry select entry state).map (Attempt.after registry) := by
  rw [callsAt, attemptsAt]
  split
  case isTrue => rfl
  case isFalse =>
    cases state.graph.kind? entry.1 with
    | none => rfl
    | some kind => exact callsInTurn_eq_map (select kind) state

theorem callsIn_eq_map (state : RunState α) :
    callsIn registry select state =
      (attemptsIn registry select state).map (Attempt.after registry) := by
  rw [callsIn, attemptsIn]
  cases snapshot state.graph with
  | error => rfl
  | ok nodes =>
      dsimp only
      generalize 0 = revisions
      induction nodes generalizing state revisions with
      | nil => rfl
      | cons entry rest induction =>
          rw [callsAlong, along, List.map_append, ← callsAt_eq_map, runOn_visitEntry]
          rcases (visit registry select entry.1 entry.2).runOn state with ⟨outcome, after⟩
          cases outcome with
          | error => rfl
          | ok changed => exact congrArg _ (induction after _)

theorem callsThrough_eq_map (selections : List (OpKind → List Transformation))
    (state : RunState α) :
    callsThrough registry selections state =
      (attemptsThrough registry selections state).map (Attempt.after registry) := by
  unfold attemptsThrough
  generalize 0 = revisions
  induction selections generalizing state revisions with
  | nil => rfl
  | cons select rest induction =>
      rw [callsThrough, along, List.map_append, ← callsIn_eq_map]
      rcases (traverse registry select).runOn state with ⟨outcome, after⟩
      cases outcome with
      | error => rfl
      | ok counted => exact congrArg _ (induction after _)

/-! ## What every attempt keeps -/

variable {sound : List (Attempt α) → Prop} {invariant : List (Attempt α) → RunState α → Prop}

/-- Every attempt of a transformation of a selection keeps an invariant of the attempts so far
and the state, and even one that gives up leaves the attempts sound. -/
def Follows (registry : Registry) (select : OpKind → List Transformation)
    (sound : List (Attempt α) → Prop) (invariant : List (Attempt α) → RunState α → Prop) : Prop :=
  ∀ kind, ∀ transformation ∈ select kind, ∀ id past state, invariant past state →
    state.graph.kind? id = some kind →
      sound (past ++ [⟨transformation, id, state⟩]) ∧
        (transformation.apply registry id).Ensures state (fun _ => True)
          fun _ after => invariant (past ++ [⟨transformation, id, state⟩]) after

theorem Follows.records_tryInTurn (follows : Follows registry select sound invariant)
    (silent : ∀ past state, invariant past state → sound past) {kind : OpKind}
    {transformations : List Transformation}
    (selected : ∀ transformation ∈ transformations, transformation ∈ select kind) :
    Records sound (fun past state => invariant past state ∧ state.graph.kind? id = some kind)
      invariant (tryInTurn registry id transformations)
      (attemptsInTurn registry id transformations) := by
  induction transformations with
  | nil =>
      rintro past state ⟨held, _⟩
      rw [attemptsInTurn, List.append_nil]
      exact ⟨silent past state held, held⟩
  | cons transformation rest induction =>
      rintro past state ⟨held, found⟩
      obtain ⟨first, ensures⟩ := follows kind transformation (selected _ List.mem_cons_self) id
        past state held found
      have unchanged := @Transformation.tells_apply_any α _ state registry id transformation
      rw [attemptsInTurn, tryInTurn, List.append_cons]
      rcases ran : (transformation.apply registry id).runOn state with ⟨outcome, after⟩
      have told := (ensures.and unchanged)
      rw [Ensures, ran] at told
      rw [ensures_bind]
      unfold Ensures
      rw [ran]
      cases outcome with
      | error =>
          rw [List.append_nil]
          exact ⟨first, trivial⟩
      | ok changed =>
          obtain ⟨kept, told⟩ := told
          cases changed with
          | true =>
              rw [List.append_nil]
              exact ⟨first, kept⟩
          | false =>
              rw [show after = state from told] at kept ⊢
              exact induction (fun other known => selected other (List.mem_cons_of_mem _ known))
                _ _ ⟨kept, found⟩

theorem Follows.records_visit (follows : Follows registry select sound invariant)
    (silent : ∀ past state, invariant past state → sound past) (entry : NodeId × Nat) :
    Records sound invariant invariant (visit registry select entry.1 entry.2)
      (attemptsAt registry select entry) := by
  intro past state held
  have skipped : sound (past ++ []) ∧ invariant (past ++ []) state := by
    rw [List.append_nil]
    exact ⟨silent past state held, held⟩
  unfold attemptsAt visit
  rw [ensures_bind, ensures_get]
  dsimp only
  split
  case isTrue => exact skipped
  case isFalse =>
    cases found : state.graph.kind? entry.1 with
    | none => exact skipped
    | some kind =>
        exact follows.records_tryInTurn silent (fun _ selected => selected) past state ⟨held, found⟩

theorem Follows.records_traverse (follows : Follows registry select sound invariant)
    (silent : ∀ past state, invariant past state → sound past) :
    Records sound invariant invariant (traverse registry select) (attemptsIn registry select) := by
  intro past state held
  unfold attemptsIn
  have unfolded : traverse registry select = (do
      let nodes ← Revision.ofExcept (snapshot (← get).graph)
      nodes.foldlM (visitEntry registry select) 0 : RunRevision α Nat) := rfl
  rw [unfolded, ensures_bind, ensures_get, ensures_bind]
  cases snapshot state.graph with
  | error error =>
      rw [List.append_nil]
      exact ⟨silent past state held, trivial⟩
  | ok nodes =>
      have loop : Records sound invariant invariant (nodes.foldlM (visitEntry registry select) 0)
          (along (visitEntry registry select) (fun _ => attemptsAt registry select) nodes 0) := by
        refine records_foldlM (fun _ => invariant) silent ?_ nodes 0
        intro entry rest revisions past state held
        obtain ⟨recorded, ensures⟩ := follows.records_visit silent entry past state held
        refine ⟨recorded, ensures_bind.mpr (ensures.mono (fun _ _ => trivial) ?_)⟩
        intro changed after kept
        cases changed <;> exact kept
      exact loop past state held

end RunRevision

namespace Registry

variable [Scalar α]

/-- The attempts of a run in their order. -/
def attempts (registry : Registry) (graph : Graph α) : List (Attempt α) :=
  if (registry.general .fakeQuantize).isEmpty then []
  else
    RunRevision.attemptsThrough registry ((RunRevision.traversals registry).map Prod.snd)
      (relaxed graph)

/-- The calls of a run leave the states that its attempts leave. -/
theorem calls_eq_map (registry : Registry) (graph : Graph α) :
    registry.calls graph = (registry.attempts graph).map (Attempt.after registry) := by
  unfold calls attempts
  split
  case isTrue => rfl
  case isFalse => exact RunRevision.callsThrough_eq_map _ _

end Registry

end QuantGraph
