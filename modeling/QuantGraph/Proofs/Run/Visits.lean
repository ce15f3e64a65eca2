import QuantGraph.Proofs.Graph.Identity
import QuantGraph.Proofs.Run.Attempts

/-! The visits of a traversal. It goes through the nodes that are there when it begins, and what
is tried on one of them meanwhile changes the graph, so that nodes go and others take their
indices. Since a node is visited under its identity number, what is visited is the node that was
there at the beginning. On each node the transformations are tried in their order, up to the one
that tells of a change. -/

namespace QuantGraph

/-- What an attempt tells. -/
def Attempt.outcome [Scalar α] (registry : Registry) (attempt : Attempt α) :
    Except RevisionError Bool :=
  ((attempt.transformation.apply registry attempt.id).runOn attempt.before).1

/-! ## What is recorded -/

namespace Revision

variable {σ β γ τ κ : Type} {body : γ → β → Revision σ γ} {record : γ → β → σ → List τ}

/-- What is recorded is recorded for one of the entries. -/
theorem exists_of_mem_along {entries : List β} {value : γ} {state : σ} {found : τ}
    (member : found ∈ along body record entries value state) :
    ∃ entry ∈ entries, ∃ value state, found ∈ record value entry state := by
  induction entries generalizing value state with
  | nil => cases member
  | cons head tail induction =>
      rw [along] at member
      rcases List.mem_append.mp member with isFirst | later
      · exact ⟨head, List.mem_cons_self, value, state, isFirst⟩
      · split at later
        case h_1 next after _ =>
          obtain ⟨entry, listed, recorded⟩ := induction later
          exact ⟨entry, List.mem_cons_of_mem head listed, recorded⟩
        case h_2 => cases later

section Keys

variable [DecidableEq κ] {key : τ → κ} {keyOf : β → κ} {entries : List β} {asked : κ}

theorem filter_along_eq_nil
    (keyed : ∀ value entry state, ∀ found ∈ record value entry state, key found = keyOf entry)
    (absent : asked ∉ entries.map keyOf) (value : γ) (state : σ) :
    (along body record entries value state).filter (fun found => key found = asked) = [] := by
  refine List.filter_eq_nil_iff.mpr fun found member isAsked => absent ?_
  obtain ⟨entry, listed, value, state, recorded⟩ := exists_of_mem_along member
  rw [← of_decide_eq_true isAsked, keyed value entry state found recorded]
  exact List.mem_map_of_mem listed

/-- Where entries are told apart by a key, the records with that key are those of one entry. -/
theorem filter_along
    (keyed : ∀ value entry state, ∀ found ∈ record value entry state, key found = keyOf entry)
    (nodup : (entries.map keyOf).Nodup) (value : γ) (state : σ) :
    (along body record entries value state).filter (fun found => key found = asked) = [] ∨
      ∃ entry ∈ entries, ∃ value' state',
        (along body record entries value state).filter (fun found => key found = asked) =
          record value' entry state' := by
  induction entries generalizing value state with
  | nil => exact Or.inl rfl
  | cons head tail induction =>
      obtain ⟨absent, nodup⟩ := List.nodup_cons.mp nodup
      rw [along, List.filter_append]
      by_cases isAsked : keyOf head = asked
      · have first : (record value head state).filter (fun found => key found = asked) =
            record value head state :=
          List.filter_eq_self.mpr fun found member => by simp [keyed _ _ _ found member, isAsked]
        refine Or.inr ⟨head, List.mem_cons_self, value, state, ?_⟩
        rcases (body value head).runOn state with ⟨outcome, after⟩
        cases outcome with
        | error => simp [first]
        | ok next => simp [first, filter_along_eq_nil keyed (isAsked ▸ absent)]
      · have first : (record value head state).filter (fun found => key found = asked) = [] :=
          List.filter_eq_nil_iff.mpr fun found member => by
            simp [keyed _ _ _ found member, isAsked]
        rw [first, List.nil_append]
        rcases (body value head).runOn state with ⟨outcome, after⟩
        cases outcome with
        | error => exact Or.inl rfl
        | ok next =>
            rcases induction nodup next after with none | ⟨entry, listed, recorded⟩
            · exact Or.inl none
            · exact Or.inr ⟨entry, List.mem_cons_of_mem head listed, recorded⟩

end Keys

end Revision

namespace RunRevision

open QuantGraph.Graph Revision

variable [Scalar α] {registry : Registry} {select : OpKind → List Transformation}
  {start : Graph α} {state : RunState α} {id : NodeId} {entry : NodeId × Nat}
  {transformations : List Transformation} {attempt : Attempt α}

/-! ## One node -/

theorem of_mem_attemptsInTurn
    (member : attempt ∈ attemptsInTurn registry id transformations state) :
    attempt.id = id ∧ attempt.before = state := by
  induction transformations with
  | nil => cases member
  | cons transformation rest induction =>
      rw [attemptsInTurn] at member
      rcases List.mem_cons.mp member with rfl | later
      · exact ⟨rfl, rfl⟩
      · split at later
        case h_1 after ran =>
          have unchanged : after = state := Transformation.tells_apply_any.of_runOn ran
          exact induction (unchanged ▸ later)
        case h_2 => cases later

/-- Transformations are tried in their order. -/
theorem map_attemptsInTurn_prefix (transformations : List Transformation) (state : RunState α) :
    (attemptsInTurn registry id transformations state).map Attempt.transformation <+:
      transformations := by
  induction transformations generalizing state with
  | nil => exact List.prefix_rfl
  | cons transformation rest induction =>
      rw [attemptsInTurn, List.map_cons]
      refine List.cons_prefix_cons.mpr ⟨rfl, ?_⟩
      split
      case h_1 after _ => exact induction after
      case h_2 => exact List.nil_prefix

/-- After an attempt there is another one only if it told of no change. -/
theorem pairwise_attemptsInTurn (transformations : List Transformation) (state : RunState α) :
    (attemptsInTurn registry id transformations state).Pairwise fun earlier _ =>
      earlier.outcome registry = .ok false := by
  induction transformations generalizing state with
  | nil => exact List.Pairwise.nil
  | cons transformation rest induction =>
      rw [attemptsInTurn]
      split
      case h_1 after ran =>
        exact List.pairwise_cons.mpr ⟨fun _ _ => congrArg Prod.fst ran, induction after⟩
      case h_2 => exact List.pairwise_singleton _ _

/-- A node is visited under its identity number. -/
theorem of_mem_attemptsAt (member : attempt ∈ attemptsAt registry select entry state) :
    attempt.id = entry.1 ∧ attempt.before = state ∧ state.graph.uid? entry.1 = some entry.2 ∧
      ∃ kind, state.graph.kind? entry.1 = some kind ∧
        attemptsAt registry select entry state =
          attemptsInTurn registry entry.1 (select kind) state := by
  unfold attemptsAt at member ⊢
  split at member
  case isTrue => cases member
  case isFalse isThere =>
    rw [if_neg isThere]
    cases found : state.graph.kind? entry.1 with
    | none => rw [found] at member; cases member
    | some kind =>
        rw [found] at member
        obtain ⟨id_eq, before_eq⟩ := of_mem_attemptsInTurn member
        exact ⟨id_eq, before_eq, not_not.mp isThere, kind, rfl, rfl⟩

/-! ## A traversal -/

omit [Scalar α] in
/-- A traversal goes through nodes that are there when it begins, each once. -/
theorem of_snapshot {graph : Graph α} {nodes : List (NodeId × Nat)}
    (found : snapshot graph = .ok nodes) :
    (nodes.map Prod.fst).Nodup ∧ ∀ entry ∈ nodes, graph.uid? entry.1 = some entry.2 := by
  unfold snapshot at found
  split at found
  case h_1 order ordered =>
    cases found
    constructor
    · rw [List.map_filterMap]
      refine (nodup_of_topologicalOrder ordered).1.filterMap ?_
      intro first second id isFirst isSecond
      simp only [Option.map_map, Option.mem_def, Option.map_eq_some_iff] at isFirst isSecond
      obtain ⟨_, _, rfl⟩ := isFirst
      obtain ⟨_, _, same⟩ := isSecond
      exact same.symm
    · intro entry member
      obtain ⟨id, _, listed⟩ := List.mem_filterMap.mp member
      obtain ⟨uid, isUid, rfl⟩ := Option.map_eq_some_iff.mp listed
      exact isUid
  case h_2 => cases found

/-- What is visited has the identity number that it had when the traversal began. -/
theorem exists_uid?_of_mem_attemptsIn (member : attempt ∈ attemptsIn registry select state) :
    ∃ uid, state.graph.uid? attempt.id = some uid ∧
      attempt.before.graph.uid? attempt.id = some uid := by
  unfold attemptsIn at member
  split at member
  case h_1 nodes found =>
    obtain ⟨entry, listed, _, middle, visited⟩ := exists_of_mem_along member
    obtain ⟨id_eq, before_eq, isThere, _⟩ := of_mem_attemptsAt visited
    rw [id_eq, before_eq]
    exact ⟨entry.2, (of_snapshot found).2 entry listed, isThere⟩
  case h_2 => cases member

/-- What is tried on a node is tried in turn, on one visit. -/
theorem exists_attemptsInTurn_eq (member : attempt ∈ attemptsIn registry select state) :
    ∃ kind middle, attempt.before.graph.kind? attempt.id = some kind ∧
      (attemptsIn registry select state).filter (fun other => other.id = attempt.id) =
        attemptsInTurn registry attempt.id (select kind) middle := by
  have isOne : attempt ∈
      (attemptsIn registry select state).filter fun other => other.id = attempt.id :=
    List.mem_filter.mpr ⟨member, decide_eq_true rfl⟩
  revert isOne
  unfold attemptsIn
  split
  case h_1 nodes found =>
    intro isOne
    have keyed : ∀ (revisions : Nat) (entry : NodeId × Nat) (state : RunState α),
        ∀ other ∈ attemptsAt registry select entry state, other.id = entry.1 :=
      fun _ _ _ _ visited => (of_mem_attemptsAt visited).1
    rcases filter_along keyed (of_snapshot found).1 0 state with none | ⟨entry, _, _, middle, one⟩
    · rw [none] at isOne
      cases isOne
    · rw [one] at isOne ⊢
      obtain ⟨id_eq, rfl, _, kind, isKind, inTurn⟩ := of_mem_attemptsAt isOne
      rw [id_eq]
      exact ⟨kind, attempt.before, isKind, inTurn⟩
  case h_2 =>
    intro isOne
    cases isOne

/-- From attempt to attempt, calls change the graph. -/
theorem follows_leadsTo (registry : Registry) (select : OpKind → List Transformation)
    (start : Graph α) :
    Follows registry select (fun past => ∀ attempt ∈ past, start.LeadsTo attempt.before.graph)
      fun past state => (∀ attempt ∈ past, start.LeadsTo attempt.before.graph) ∧
        start.LeadsTo state.graph := by
  rintro kind transformation _ id past state ⟨earlier, leadsTo⟩ _
  have recorded : ∀ attempt ∈ past ++ [Attempt.mk transformation id state],
      start.LeadsTo attempt.before.graph := by
    intro attempt member
    rcases List.mem_append.mp member with member | isLast
    · exact earlier attempt member
    · rw [List.mem_singleton.mp isLast]
      exact leadsTo
  refine ⟨recorded, Transformation.performs_apply_any.mono (fun _ _ => trivial) ?_⟩
  intro changed after performs
  refine ⟨recorded, ?_⟩
  cases changed with
  | false => exact (show after = state from performs) ▸ leadsTo
  | true =>
      obtain ⟨count, makes⟩ := performs
      exact leadsTo.trans makes.leadsTo

theorem records_leadsTo (registry : Registry) (select : OpKind → List Transformation)
    (state : RunState α) :
    (∀ attempt ∈ attemptsIn registry select state,
      state.graph.LeadsTo attempt.before.graph) ∧
    (traverse registry select).Ensures state (fun _ => True)
      fun _ after => state.graph.LeadsTo after.graph := by
  obtain ⟨recorded, ensures⟩ := (follows_leadsTo registry select state.graph).records_traverse
    (fun _ _ held => held.1) [] state ⟨by simp, .refl _⟩
  exact ⟨recorded, ensures.mono (fun _ _ => trivial) fun _ _ held => held.2⟩

/-- What a traversal of the nodes that are there visits, and how. -/
structure VisitsOnce (registry : Registry) (select : OpKind → List Transformation)
    (state : RunState α) : Prop where
  /-- Calls have changed the graph when a transformation is tried on a node. Whatever they were,
  the node was there when the traversal began and ever since, and none of them has created it. -/
  remains : ∀ attempt ∈ attemptsIn registry select state,
    state.graph.LeadsTo attempt.before.graph ∧
      ∃ uid, ∀ mutations, attempt.before.graph = state.graph.mutateAll mutations →
        (∀ count, (state.graph.moment mutations count).uid? attempt.id = some uid) ∧
          ∀ birth ∈ state.graph.births mutations, birth.2 ≠ uid
  /-- The transformations selected for a node are tried on it in their order, each once. -/
  inTurn : ∀ attempt ∈ attemptsIn registry select state,
    ∃ kind, attempt.before.graph.kind? attempt.id = some kind ∧
      ((attemptsIn registry select state).filter fun other => other.id = attempt.id).map
        Attempt.transformation <+: select kind
  /-- Nothing is tried on a node after a transformation that told of a change. -/
  stops : ∀ id, ((attemptsIn registry select state).filter fun attempt => attempt.id = id).Pairwise
    fun earlier _ => earlier.outcome registry = .ok false

theorem visitsOnce (registry : Registry) (select : OpKind → List Transformation)
    (consistent : state.graph.IsConsistent) : VisitsOnce registry select state := by
  constructor
  case remains =>
    intro attempt member
    obtain ⟨uid, isFirst, isLast⟩ := exists_uid?_of_mem_attemptsIn member
    refine ⟨(records_leadsTo registry select state).1 attempt member, uid, ?_⟩
    refine fun mutations reached => ⟨fun count => ?_, fun birth created equal => ?_⟩
    · rw [reached, ← List.take_append_drop count mutations, mutateAll_append] at isLast
      exact consistent.uid?_between isFirst isLast
    · have new := nextUid_le_of_mem_births consistent created
      have old := consistent.uid_lt attempt.id uid isFirst
      omega
  case inTurn =>
    intro attempt member
    obtain ⟨kind, middle, isKind, inTurn⟩ := exists_attemptsInTurn_eq member
    exact ⟨kind, isKind, inTurn ▸ map_attemptsInTurn_prefix (select kind) middle⟩
  case stops =>
    intro id
    cases visited : (attemptsIn registry select state).filter fun attempt => attempt.id = id with
    | nil => exact List.Pairwise.nil
    | cons attempt rest =>
        have isOne : attempt ∈ (attemptsIn registry select state).filter fun attempt =>
            attempt.id = id := visited ▸ List.mem_cons_self
        obtain ⟨member, isId⟩ := List.mem_filter.mp isOne
        obtain ⟨kind, middle, _, inTurn⟩ := exists_attemptsInTurn_eq member
        rw [of_decide_eq_true isId, visited] at inTurn
        exact inTurn ▸ pairwise_attemptsInTurn (select kind) middle

/-! ## A run -/

/-- Traversals that begin one after the other, and the states in which they do. -/
def starts (registry : Registry) (selections : List (OpKind → List Transformation))
    (state : RunState α) : List ((OpKind → List Transformation) × RunState α) :=
  along (fun _ => traverse registry) (fun _ select state => [(select, state)]) selections 0 state

theorem attemptsThrough_eq_flatMap (selections : List (OpKind → List Transformation))
    (state : RunState α) :
    attemptsThrough registry selections state =
      (starts registry selections state).flatMap fun start =>
        attemptsIn registry start.1 start.2 := by
  unfold attemptsThrough starts
  generalize 0 = revisions
  induction selections generalizing state revisions with
  | nil => rfl
  | cons select rest induction =>
      rw [along, along, List.singleton_append, List.flatMap_cons]
      rcases (traverse registry select).runOn state with ⟨outcome, after⟩
      cases outcome with
      | error => rfl
      | ok counted => exact congrArg _ (induction after counted)

/-- From traversal to traversal, calls change the graph. -/
theorem leadsTo_of_mem_starts {selections : List (OpKind → List Transformation)}
    {begun : (OpKind → List Transformation) × RunState α}
    (member : begun ∈ starts registry selections state) :
    state.graph.LeadsTo begun.2.graph := by
  unfold starts at member
  generalize 0 = revisions at member
  induction selections generalizing state revisions with
  | nil => cases member
  | cons select rest induction =>
      rw [along, List.singleton_append] at member
      rcases List.mem_cons.mp member with rfl | later
      · exact .refl _
      · split at later
        case h_1 counted after ran =>
          have leadsTo := (records_leadsTo registry select state).2.of_runOn ran
          exact leadsTo.trans (induction counted later)
        case h_2 => cases later

end RunRevision

namespace Registry

variable [Scalar α]

/-- The traversals of a run in their order. -/
def starts (registry : Registry) (graph : Graph α) :
    List ((OpKind → List Transformation) × RunState α) :=
  if (registry.general .fakeQuantize).isEmpty then []
  else
    RunRevision.starts registry ((RunRevision.traversals registry).map Prod.snd) (relaxed graph)

theorem attempts_eq_flatMap (registry : Registry) (graph : Graph α) :
    registry.attempts graph =
      (registry.starts graph).flatMap fun start =>
        RunRevision.attemptsIn registry start.1 start.2 := by
  unfold attempts starts
  split
  case isTrue => rfl
  case isFalse => exact RunRevision.attemptsThrough_eq_flatMap _ _

theorem leadsTo_of_mem_starts {registry : Registry} {graph : Graph α}
    {begun : (OpKind → List Transformation) × RunState α} (member : begun ∈ registry.starts graph) :
    graph.LeadsTo begun.2.graph := by
  unfold starts at member
  split at member
  case isTrue => cases member
  case isFalse =>
    exact (makes_relaxed (fun _ => True) graph).1.leadsTo.trans
      (RunRevision.leadsTo_of_mem_starts member)

end Registry

end QuantGraph
