import QuantGraph.Proofs.Graph.Mutation

/-! The identity of nodes in a graph that is changed by calls of its methods, one after the
other. Additions number the nodes that they create, from zero on, and no other call gives out a
number. So a number stands for one node: it is found at one place only, and once it is gone it
never comes back, as an index does. -/

namespace QuantGraph

namespace Graph

variable {before after graph : Graph α} {mutation : Mutation α} {mutations : List (Mutation α)}
  {id : NodeId} {uid : Nat}

/-- The place of the node that a call creates. -/
def newborn? (graph : Graph α) : Mutation α → Option NodeId
  | .add draft => (graph.add draft).toOption.map Prod.fst
  | .addCopy id outputs => (graph.addCopy id outputs).toOption.map Prod.fst
  | _ => none

/-- The nodes that calls create, in their order: their places and identity numbers. -/
def births (graph : Graph α) : List (Mutation α) → List (NodeId × Nat)
  | [] => []
  | mutation :: rest =>
      let after := graph.mutate mutation
      ((graph.newborn? mutation).bind fun id => (after.uid? id).map fun uid => (id, uid)).toList ++
        after.births rest

/-- The graph after the first so many of the calls. -/
def moment (graph : Graph α) (mutations : List (Mutation α)) (count : Nat) : Graph α :=
  graph.mutateAll (mutations.take count)

/-! ## What a call does -/

/-- No identity number has been given out. -/
structure Inherits (before after : Graph α) : Prop where
  nextUid_eq : after.nextUid = before.nextUid
  uid?_eq_some : ∀ id uid, after.uid? id = some uid → before.uid? id = some uid

theorem Retains.inherits (retains : before.Retains after) : before.Inherits after where
  nextUid_eq := retains.nextUid_eq
  uid?_eq_some := by
    intro id uid found
    obtain ⟨node, present, rfl⟩ := Option.map_eq_some_iff.mp found
    obtain ⟨earlier, present, uid_eq, _⟩ := retains.exists_node id node present
    exact Option.map_eq_some_iff.mpr ⟨earlier, present, uid_eq⟩

/-- A call that is not refused adds a node or gives out no identity number. -/
theorem perform_cases (performed : graph.perform mutation = .ok after) :
    (∃ draft id, graph.newborn? mutation = some id ∧ graph.add draft = .ok (id, after)) ∨
      graph.newborn? mutation = none ∧ graph.Inherits after := by
  cases mutation with
  | add draft =>
      obtain ⟨⟨id, after⟩, added, rfl⟩ := Outcome.map_eq_ok.mp performed
      exact Or.inl ⟨draft, id, by rw [newborn?, added]; rfl, added⟩
  | addCopy id outputs =>
      obtain ⟨⟨copy, after⟩, copied, rfl⟩ := Outcome.map_eq_ok.mp performed
      obtain ⟨draft, added⟩ := exists_add_of_addCopy copied
      exact Or.inl ⟨draft, copy, by rw [newborn?, copied]; rfl, added⟩
  | setInput => exact Or.inr ⟨rfl, (retains_setInput performed).inherits⟩
  | replace => exact Or.inr ⟨rfl, (retains_replace performed).inherits⟩
  | prune id =>
      cases performed
      exact Or.inr ⟨rfl, (retains_pruneAll graph [id] []).inherits⟩
  | remove id =>
      obtain ⟨_, rfl⟩ := remove_eq_ok performed
      exact Or.inr ⟨rfl, (retains_erase graph id).inherits⟩
  | relax id =>
      cases performed
      have retains : graph.Retains (graph.relax id) := retains_modify graph id fun _ => ⟨rfl, rfl⟩
      exact Or.inr ⟨rfl, retains.inherits⟩
  | setPrecision => exact Or.inr ⟨rfl, (retains_setPrecision performed).inherits⟩
  | overridePrecision => exact Or.inr ⟨rfl, (retains_overridePrecision performed).inherits⟩
  | edit id change =>
      cases performed
      refine Or.inr ⟨rfl, nextUid_modify graph id _, fun other uid found => ?_⟩
      rwa [uid?_modify graph id other (Node.uid_edit change)] at found

theorem newborn?_of_refused {error : GraphError} (refused : graph.perform mutation = .error error) :
    graph.newborn? mutation = none := by
  have unborn {result : Except GraphError (NodeId × Graph α)}
      (refused : result.map Prod.snd = .error error) : result.toOption.map Prod.fst = none := by
    cases result with
    | error => rfl
    | ok => cases refused
  cases mutation with
  | add => exact unborn refused
  | addCopy => exact unborn refused
  | _ => rfl

theorem mutate_cases (graph : Graph α) (mutation : Mutation α) :
    (∃ draft id, graph.newborn? mutation = some id ∧
      graph.add draft = .ok (id, graph.mutate mutation)) ∨
    graph.newborn? mutation = none ∧ graph.Inherits (graph.mutate mutation) := by
  unfold mutate
  cases performed : graph.perform mutation with
  | ok after => exact perform_cases performed
  | error => exact Or.inr ⟨newborn?_of_refused performed, (Retains.refl graph).inherits⟩

/-! ## Numbers are given out once -/

theorem nextUid_le_mutate (graph : Graph α) (mutation : Mutation α) :
    graph.nextUid ≤ (graph.mutate mutation).nextUid := by
  rcases mutate_cases graph mutation with ⟨_, _, _, added⟩ | ⟨_, inherits⟩
  · exact Nat.le_of_lt (nextUid_add added ▸ Nat.lt_succ_self _)
  · exact Nat.le_of_eq inherits.nextUid_eq.symm

theorem nextUid_le_mutateAll (graph : Graph α) (mutations : List (Mutation α)) :
    graph.nextUid ≤ (graph.mutateAll mutations).nextUid := by
  induction mutations generalizing graph with
  | nil => exact Nat.le_refl _
  | cons mutation rest induction =>
      exact Nat.le_trans (nextUid_le_mutate graph mutation) (induction _)

/-- Who carries an old number after a call carried it before. -/
theorem uid?_of_mutate (found : (graph.mutate mutation).uid? id = some uid)
    (old : uid < graph.nextUid) : graph.uid? id = some uid := by
  rcases mutate_cases graph mutation with ⟨_, _, _, added⟩ | ⟨_, inherits⟩
  · obtain ⟨node, present, rfl⟩ := Option.map_eq_some_iff.mp found
    rcases node?_add_eq_some added present with ⟨new, _⟩ | earlier
    · omega
    · exact Option.map_eq_some_iff.mpr ⟨node, earlier, rfl⟩
  · exact inherits.uid?_eq_some id uid found

theorem uid?_of_mutateAll (found : (graph.mutateAll mutations).uid? id = some uid)
    (old : uid < graph.nextUid) : graph.uid? id = some uid := by
  induction mutations generalizing graph with
  | nil => exact found
  | cons mutation rest induction =>
      have later := Nat.lt_of_lt_of_le old (nextUid_le_mutate graph mutation)
      exact uid?_of_mutate (induction found later) old

theorem uid?_of_add (consistent : graph.IsConsistent) {draft : Draft α}
    (added : graph.add draft = .ok (id, after)) (other : NodeId) :
    after.uid? other = if other = id then some graph.nextUid else graph.uid? other := by
  obtain ⟨_, _, _, rfl, rfl⟩ := add_eq_ok added
  exact uid?_insert consistent other

theorem births_cons_of_add (consistent : graph.IsConsistent) {draft : Draft α}
    (born : graph.newborn? mutation = some id)
    (added : graph.add draft = .ok (id, graph.mutate mutation)) (rest : List (Mutation α)) :
    graph.births (mutation :: rest) =
      (id, graph.nextUid) :: (graph.mutate mutation).births rest := by
  rw [births, born, Option.bind_some, uid?_of_add consistent added, if_pos rfl]
  rfl

theorem births_cons_of_inherits (unborn : graph.newborn? mutation = none)
    (rest : List (Mutation α)) :
    graph.births (mutation :: rest) = (graph.mutate mutation).births rest := by
  rw [births, unborn]
  rfl

/-- Created nodes are numbered on, in the order in which they are created. -/
theorem map_births (consistent : graph.IsConsistent) (mutations : List (Mutation α)) :
    (graph.births mutations).map Prod.snd =
      List.range' graph.nextUid ((graph.mutateAll mutations).nextUid - graph.nextUid) := by
  induction mutations generalizing graph with
  | nil => simp [births]
  | cons mutation rest induction =>
      have numbered := induction (consistent.mutate mutation)
      rw [mutateAll_cons]
      rcases mutate_cases graph mutation with ⟨draft, id, born, added⟩ | ⟨unborn, inherits⟩
      · have bound := nextUid_le_mutateAll (graph.mutate mutation) rest
        rw [nextUid_add added] at numbered bound
        have counted : ((graph.mutate mutation).mutateAll rest).nextUid - graph.nextUid =
            ((graph.mutate mutation).mutateAll rest).nextUid - (graph.nextUid + 1) + 1 := by omega
        rw [births_cons_of_add consistent born added, List.map_cons, numbered, counted,
          List.range'_succ]
      · rw [births_cons_of_inherits unborn, numbered, inherits.nextUid_eq]

/-- A node that is there has been created or was there before. -/
theorem mem_births (consistent : graph.IsConsistent)
    (found : (graph.mutateAll mutations).uid? id = some uid) :
    graph.uid? id = some uid ∨ (id, uid) ∈ graph.births mutations := by
  induction mutations generalizing graph with
  | nil => exact Or.inl found
  | cons mutation rest induction =>
      have earlier := induction (consistent.mutate mutation) found
      rcases mutate_cases graph mutation with ⟨draft, place, born, added⟩ | ⟨unborn, inherits⟩
      · rw [births_cons_of_add consistent born added, List.mem_cons]
        rcases earlier with present | created
        · rw [uid?_of_add consistent added] at present
          split at present
          case isTrue isNew => exact Or.inr (Or.inl (by rw [isNew, Option.some.inj present]))
          case isFalse => exact Or.inl present
        · exact Or.inr (Or.inr created)
      · rw [births_cons_of_inherits unborn]
        exact earlier.imp_left (inherits.uid?_eq_some id uid)

theorem nextUid_le_of_mem_births (consistent : graph.IsConsistent)
    (created : (id, uid) ∈ graph.births mutations) : graph.nextUid ≤ uid := by
  have numbered : uid ∈ (graph.births mutations).map Prod.snd := List.mem_map_of_mem created
  rw [map_births consistent, List.mem_range'_1] at numbered
  exact numbered.1

/-! ## Identity -/

theorem exists_moment_eq {first last : Nat} (order : first ≤ last) (graph : Graph α)
    (mutations : List (Mutation α)) :
    ∃ later, graph.moment mutations last = (graph.moment mutations first).mutateAll later := by
  refine ⟨(mutations.take last).drop first, ?_⟩
  have parts := List.take_append_drop first (mutations.take last)
  rw [List.take_take, Nat.min_eq_left order] at parts
  rw [moment, moment, ← mutateAll_append, parts]

theorem IsConsistent.moment (consistent : graph.IsConsistent) (mutations : List (Mutation α))
    (count : Nat) : (graph.moment mutations count).IsConsistent :=
  consistent.mutateAll _

/-- A number is found at one place, now and later. -/
theorem IsConsistent.eq_of_uid? {other : NodeId} (consistent : graph.IsConsistent)
    (found : graph.uid? id = some uid) (later : (graph.mutateAll mutations).uid? other = some uid) :
    id = other :=
  consistent.uid_unique id other uid found
    (uid?_of_mutateAll later (consistent.uid_lt id uid found))

/-- A number that is found at the beginning and at the end is found all the time between. -/
theorem IsConsistent.uid?_between {later : List (Mutation α)} (consistent : graph.IsConsistent)
    (isFirst : graph.uid? id = some uid)
    (isLast : ((graph.mutateAll mutations).mutateAll later).uid? id = some uid) :
    (graph.mutateAll mutations).uid? id = some uid := by
  have given := consistent.uid_lt id uid isFirst
  exact uid?_of_mutateAll isLast (Nat.lt_of_lt_of_le given (nextUid_le_mutateAll graph mutations))

/-- Identity numbers tell apart the nodes that calls on an empty graph create. -/
structure Identifies (mutations : List (Mutation α)) : Prop where
  /-- The created nodes are numbered from zero on. -/
  numbered : (empty.births mutations).map Prod.snd =
    List.range (empty.mutateAll mutations).nextUid
  /-- There are no nodes but those that have been created. -/
  created : ∀ count id uid, (empty.moment mutations count).uid? id = some uid →
    (id, uid) ∈ empty.births (mutations.take count)
  /-- A number is found at one place. -/
  place_eq : ∀ first last left right uid, (empty.moment mutations first).uid? left = some uid →
    (empty.moment mutations last).uid? right = some uid → left = right
  /-- A number that is found twice is found all the time between. -/
  throughout : ∀ first middle last id uid, first ≤ middle → middle ≤ last →
    (empty.moment mutations first).uid? id = some uid →
    (empty.moment mutations last).uid? id = some uid →
    (empty.moment mutations middle).uid? id = some uid

theorem identifies (mutations : List (Mutation α)) : Identifies mutations := by
  have consistent : (empty : Graph α).IsConsistent := wellFormed_empty.consistent
  constructor
  case numbered =>
    rw [map_births consistent, List.range_eq_range']
    rfl
  case created =>
    intro count id uid found
    exact (mem_births consistent found).resolve_left (by simp [empty, uid?, node?])
  case place_eq =>
    intro first last left right uid isFirst isLast
    rcases Nat.le_total first last with order | order
    · obtain ⟨later, moved⟩ := exists_moment_eq order empty mutations
      exact (consistent.moment mutations first).eq_of_uid? isFirst (moved ▸ isLast)
    · obtain ⟨later, moved⟩ := exists_moment_eq order empty mutations
      exact ((consistent.moment mutations last).eq_of_uid? isLast (moved ▸ isFirst)).symm
  case throughout =>
    intro first middle last id uid before after isFirst isLast
    obtain ⟨earlier, moved⟩ := exists_moment_eq before empty mutations
    obtain ⟨later, moved'⟩ := exists_moment_eq after empty mutations
    rw [moved', moved] at isLast
    rw [moved]
    exact (consistent.moment mutations first).uid?_between isFirst isLast

end Graph

end QuantGraph
