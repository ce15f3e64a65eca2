import QuantGraph.Joint.Subgraph
import QuantGraph.Proofs.Dequantization.Patterns

/-! What a search downstream finds: the nodes of other than the transparent kinds to which a path
leads through nothing but transparent nodes. Cycles, nodes read twice and branches that meet again
make no difference. -/

namespace QuantGraph

namespace Graph

variable {graph : Graph α} {transparent : List OpKind} {start id : NodeId}
  {stack visited found : List NodeId}

/-! ## Paths -/

/-- One can look through a node. -/
def IsTransparent (graph : Graph α) (transparent : List OpKind) (id : NodeId) : Prop :=
  ∃ kind ∈ transparent, graph.kind? id = some kind

/-- A path leads from the first node to the second, and one can look through all nodes between
them. -/
def Sees (graph : Graph α) (transparent : List OpKind) (start id : NodeId) : Prop :=
  ∃ last, Relation.ReflTransGen
    (fun source reader => graph.Reads source reader ∧ graph.IsTransparent transparent reader)
    start last ∧ graph.Reads last id

theorem Sees.of_reads (reads : graph.Reads start id) : graph.Sees transparent start id :=
  ⟨start, .refl, reads⟩

theorem Sees.step {reader : NodeId} (sees : graph.Sees transparent start id)
    (through : graph.IsTransparent transparent id) (reads : graph.Reads id reader) :
    graph.Sees transparent start reader := by
  obtain ⟨last, path, into⟩ := sees
  exact ⟨id, path.tail ⟨into, through⟩, reads⟩

/-! ## The search -/

/-- A node has been dealt with, or it is still to come, or it is not there. -/
def Covers (graph : Graph α) (stack visited : List NodeId) (id : NodeId) : Prop :=
  id ∈ visited ∨ id ∈ stack ∨ graph.kind? id = none

/-- What holds of a search downstream at any time. -/
structure Searches (graph : Graph α) (transparent : List OpKind) (start : NodeId)
    (stack visited found : List NodeId) : Prop where
  nodup : found.Nodup
  found_iff : ∀ id, id ∈ found ↔
    id ∈ visited ∧ ∃ kind, graph.kind? id = some kind ∧ kind ∉ transparent
  stack_seen : ∀ id ∈ stack, graph.Sees transparent start id
  visited_seen : ∀ id ∈ visited, graph.Sees transparent start id
  covers_start : ∀ reader, graph.Reads start reader → graph.Covers stack visited reader
  covers : ∀ id ∈ visited, graph.IsTransparent transparent id →
    ∀ reader, graph.Reads id reader → graph.Covers stack visited reader

namespace Searches

theorem begin (graph : Graph α) (transparent : List OpKind) (start : NodeId) :
    graph.Searches transparent start (graph.consumerNodes start) [] [] where
  nodup := List.nodup_nil
  found_iff := by simp
  stack_seen := fun _ member => .of_reads (mem_consumerNodes.mp member)
  visited_seen := by simp
  covers_start := fun _ reads => Or.inr (Or.inl (mem_consumerNodes.mpr reads))
  covers := by simp

variable {rest : List NodeId}

/-- A node that has been dealt with, or is not there, is passed over. -/
theorem skip (searches : graph.Searches transparent start (id :: rest) visited found)
    (done : id ∈ visited ∨ graph.kind? id = none) :
    graph.Searches transparent start rest visited found := by
  have covers {other : NodeId} (covered : graph.Covers (id :: rest) visited other) :
      graph.Covers rest visited other := by
    rcases covered with seen | pending | missing
    · exact Or.inl seen
    · rcases List.mem_cons.mp pending with rfl | pending
      · exact done.imp_right Or.inr
      · exact Or.inr (Or.inl pending)
    · exact Or.inr (Or.inr missing)
  exact
    { nodup := searches.nodup
      found_iff := searches.found_iff
      stack_seen := fun other member => searches.stack_seen other (List.mem_cons_of_mem id member)
      visited_seen := searches.visited_seen
      covers_start := fun reader reads => covers (searches.covers_start reader reads)
      covers := fun other member through reader reads =>
        covers (searches.covers other member through reader reads) }

/-- A node is dealt with: it is found, or its readers are looked at next. -/
theorem enter {kind : OpKind} {readers grown : List NodeId}
    (searches : graph.Searches transparent start (id :: rest) visited found)
    (fresh : id ∉ visited) (isKind : graph.kind? id = some kind)
    (outcome : kind ∈ transparent ∧ readers = graph.consumerNodes id ∧ grown = found ∨
      kind ∉ transparent ∧ readers = [] ∧ grown = id :: found) :
    graph.Searches transparent start (readers ++ rest) (id :: visited) grown := by
  have sees := searches.stack_seen id List.mem_cons_self
  have through_iff : graph.IsTransparent transparent id ↔ kind ∈ transparent := by
    simp [IsTransparent, isKind]
  have covers {other : NodeId} (covered : graph.Covers (id :: rest) visited other) :
      graph.Covers (readers ++ rest) (id :: visited) other := by
    rcases covered with seen | pending | missing
    · exact Or.inl (List.mem_cons_of_mem id seen)
    · rcases List.mem_cons.mp pending with rfl | pending
      · exact Or.inl List.mem_cons_self
      · exact Or.inr (Or.inl (List.mem_append_right readers pending))
    · exact Or.inr (Or.inr missing)
  have absent : id ∉ found := fun member => fresh ((searches.found_iff id).mp member).1
  exact
    { nodup := by
        rcases outcome with ⟨_, _, rfl⟩ | ⟨_, _, rfl⟩
        · exact searches.nodup
        · exact List.nodup_cons.mpr ⟨absent, searches.nodup⟩
      found_iff := by
        intro other
        rcases outcome with ⟨through, _, rfl⟩ | ⟨solid, _, rfl⟩
        · rw [searches.found_iff, List.mem_cons]
          constructor
          · rintro ⟨seen, found⟩
            exact ⟨Or.inr seen, found⟩
          · rintro ⟨rfl | seen, other_kind, found, outside⟩
            · cases isKind.symm.trans found
              exact absurd through outside
            · exact ⟨seen, other_kind, found, outside⟩
        · rw [List.mem_cons, List.mem_cons, searches.found_iff]
          constructor
          · rintro (rfl | ⟨seen, found⟩)
            · exact ⟨Or.inl rfl, kind, isKind, solid⟩
            · exact ⟨Or.inr seen, found⟩
          · rintro ⟨rfl | seen, found⟩
            · exact Or.inl rfl
            · exact Or.inr ⟨seen, found⟩
      stack_seen := by
        intro other member
        rcases List.mem_append.mp member with member | member
        · rcases outcome with ⟨through, rfl, _⟩ | ⟨_, rfl, _⟩
          · exact sees.step (through_iff.mpr through) (mem_consumerNodes.mp member)
          · cases member
        · exact searches.stack_seen other (List.mem_cons_of_mem id member)
      visited_seen := by
        intro other member
        rcases List.mem_cons.mp member with rfl | member
        · exact sees
        · exact searches.visited_seen other member
      covers_start := fun reader reads => covers (searches.covers_start reader reads)
      covers := by
        intro other member through reader reads
        rcases List.mem_cons.mp member with rfl | member
        · rcases outcome with ⟨_, rfl, _⟩ | ⟨solid, _, _⟩
          · exact Or.inr (Or.inl (List.mem_append_left rest (mem_consumerNodes.mpr reads)))
          · exact absurd (through_iff.mp through) solid
        · exact covers (searches.covers other member through reader reads) }

/-- A search ends with all that is to be found. -/
theorem reach (searches : graph.Searches transparent start stack visited found) :
    ∃ settled, graph.Searches transparent start [] settled
      (graph.reach transparent stack visited found) := by
  induction stack, visited, found using Graph.reach.induct graph transparent with
  | case1 visited found =>
      rw [Graph.reach]
      exact ⟨visited, searches⟩
  | case2 visited found id rest seen induction =>
      rw [Graph.reach, dif_pos seen]
      exact induction (searches.skip (Or.inl seen))
  | case3 visited found id rest fresh missing induction =>
      rw [Graph.reach, dif_neg fresh]
      split
      · exact induction (searches.skip (Or.inr missing))
      · next kind isKind => exact nomatch missing.symm.trans isKind
  | case4 visited found id rest fresh kind isKind through induction =>
      rw [Graph.reach, dif_neg fresh]
      split
      · next missing => exact nomatch missing.symm.trans isKind
      · next other other_is =>
          cases isKind.symm.trans other_is
          rw [if_pos through]
          exact induction (searches.enter fresh isKind (Or.inl ⟨through, rfl, rfl⟩))
  | case5 visited found id rest fresh kind isKind solid induction =>
      rw [Graph.reach, dif_neg fresh]
      split
      · next missing => exact nomatch missing.symm.trans isKind
      · next other other_is =>
          cases isKind.symm.trans other_is
          rw [if_neg solid]
          exact induction (searches.enter fresh isKind (Or.inr ⟨solid, rfl, rfl⟩))

/-- With nothing left to look at, all that is seen and is there has been dealt with. -/
theorem visited_of_sees (searches : graph.Searches transparent start [] visited found)
    (sees : graph.Sees transparent start id) :
    id ∈ visited ∨ graph.kind? id = none := by
  obtain ⟨last, path, reads⟩ := sees
  have settled {other : NodeId} (covered : graph.Covers [] visited other) :
      other ∈ visited ∨ graph.kind? other = none :=
    covered.imp_right fun rest => rest.resolve_left List.not_mem_nil
  induction path generalizing id with
  | refl => exact settled (searches.covers_start id reads)
  | tail path step induction =>
      obtain ⟨into, kind, through, isKind⟩ := step
      rcases induction into with seen | missing
      · exact settled (searches.covers _ seen ⟨kind, through, isKind⟩ id reads)
      · exact nomatch missing.symm.trans isKind

end Searches

/-! ## Downstream of a node -/

theorem nodup_downstream : (graph.downstream transparent start).Nodup := by
  obtain ⟨visited, searches⟩ := (Searches.begin graph transparent start).reach
  exact List.nodup_reverse.mpr searches.nodup

theorem mem_downstream :
    id ∈ graph.downstream transparent start ↔
      graph.Sees transparent start id ∧
        ∃ kind, graph.kind? id = some kind ∧ kind ∉ transparent := by
  obtain ⟨visited, searches⟩ := (Searches.begin graph transparent start).reach
  rw [downstream, List.mem_reverse, searches.found_iff]
  constructor
  · rintro ⟨seen, solid⟩
    exact ⟨searches.visited_seen id seen, solid⟩
  · rintro ⟨sees, kind, isKind, solid⟩
    refine ⟨(searches.visited_of_sees sees).resolve_right ?_, kind, isKind, solid⟩
    rw [isKind]
    exact Option.some_ne_none kind

/-- The search downstream gives, without repetition, the nodes of other than the transparent
kinds that are seen from its start, and a set of Concats counts as single-channel when one of
them sees a Convolution. -/
theorem downstream_exact (graph : Graph α) (transparent : List OpKind) (start : NodeId)
    (concats : List NodeId) :
    (graph.downstream transparent start).Nodup ∧
    (∀ id, id ∈ graph.downstream transparent start ↔
      graph.Sees transparent start id ∧
        ∃ kind, graph.kind? id = some kind ∧ kind ∉ transparent) ∧
    (graph.isMultiChannel concats = false ↔
      ∃ concat ∈ concats, ∃ id, graph.kind? id = some .convolution ∧
        graph.Sees transparentKinds concat id) := by
  refine ⟨nodup_downstream, fun id => mem_downstream, ?_⟩
  have convolution_solid : OpKind.convolution ∉ transparentKinds := by decide
  simp only [isMultiChannel, List.all_eq_false, Bool.not_eq_true, Bool.not_eq_false']
  refine exists_congr fun concat => and_congr_right fun _ => exists_congr fun id => ?_
  rw [isKind_iff, mem_downstream]
  constructor
  · rintro ⟨⟨sees, _⟩, isKind⟩
    exact ⟨isKind, sees⟩
  · rintro ⟨isKind, sees⟩
    exact ⟨⟨sees, .convolution, isKind, convolution_solid⟩, isKind⟩

end Graph

end QuantGraph
