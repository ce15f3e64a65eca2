import QuantGraph.Joint.Subgraph
import QuantGraph.Proofs.Dequantization.Patterns

/-! What the discovery of a subgraph finds: Concats with all that they read, pooling
with its data, fake quantizations, and every Concat that reads one of them. -/

namespace QuantGraph

namespace Subgraph

variable {graph : Graph α} {registry : Registry} {visits next rest : List Visit}
  {subgraph grown : Subgraph} {id : NodeId}

/-! ## What is still to come -/

/-- A node is a member, or a visit will make it one. -/
def Due (visits : List Visit) (subgraph : Subgraph) (id : NodeId) : Prop :=
  id ∈ subgraph.layers ∨ .parent id ∈ visits ∨ .concat id ∈ visits

/-- The Concats that read a node are due, or a visit will look for them. -/
def ReadersDue (graph : Graph α) (visits : List Visit) (subgraph : Subgraph) (id : NodeId) :
    Prop :=
  .readers id ∈ visits ∨ ∀ reader, graph.Reads id reader → graph.kind? reader = some .concat →
    Due visits subgraph reader

/-- A subgraph as far as it has been found. -/
structure Discovers (graph : Graph α) (visits : List Visit) (subgraph : Subgraph) : Prop where
  nodup : subgraph.layers.Nodup
  quantizers_nodup : subgraph.quantizers.Nodup
  layer_kind : ∀ id ∈ subgraph.layers,
    (graph.kind? id = some .fakeQuantize ∧ id ∈ subgraph.quantizers) ∨
    (graph.kind? id = some .concat ∧ id ∈ subgraph.concats) ∨
    ∃ kind, graph.kind? id = some kind ∧ isIntermediate kind = true
  quantizer_layer : ∀ id ∈ subgraph.quantizers,
    id ∈ subgraph.layers ∧ graph.kind? id = some .fakeQuantize
  concat_layer : ∀ id ∈ subgraph.concats, id ∈ subgraph.layers ∧ graph.kind? id = some .concat
  visited_kind : ∀ id, .concat id ∈ visits → graph.kind? id = some .concat
  inputs : ∀ id ∈ subgraph.concats, ∀ output ∈ graph.inputs id, Due visits subgraph output.node
  data : ∀ id ∈ subgraph.layers, ∀ kind, graph.kind? id = some kind →
    isIntermediate kind = true → ∃ parent, graph.inputNode? id 0 = some parent ∧
      Due visits subgraph parent
  readers : ∀ id ∈ subgraph.layers, ReadersDue graph visits subgraph id

theorem mem_newConcats {reader : NodeId} :
    reader ∈ subgraph.newConcats graph id ↔
      graph.Reads id reader ∧ reader ∉ subgraph.layers ∧ graph.kind? reader = some .concat := by
  simp [newConcats, Graph.mem_consumerNodes, Graph.isKind_iff, Subgraph.contains]

namespace Discovers

/-- Nothing has been found, and a Concat is to be visited. -/
theorem begin {concat : NodeId} (kind : graph.kind? concat = some .concat) :
    Discovers graph [.concat concat] {} where
  nodup := List.nodup_nil
  quantizers_nodup := List.nodup_nil
  layer_kind := by simp
  quantizer_layer := by simp
  concat_layer := by simp
  visited_kind := by
    intro id member
    cases List.mem_singleton.mp member
    exact kind
  inputs := by simp
  data := by simp
  readers := by simp

/-- Other visits may take the place of some when everything stays due. -/
theorem advance (discovers : Discovers graph visits subgraph)
    (visited_kind : ∀ id, .concat id ∈ next → graph.kind? id = some .concat)
    (due : ∀ id, Due visits subgraph id → Due next subgraph id)
    (readers : ∀ id, .readers id ∈ visits → ReadersDue graph next subgraph id) :
    Discovers graph next subgraph where
  nodup := discovers.nodup
  quantizers_nodup := discovers.quantizers_nodup
  layer_kind := discovers.layer_kind
  quantizer_layer := discovers.quantizer_layer
  concat_layer := discovers.concat_layer
  visited_kind := visited_kind
  inputs := fun id member output read => due _ (discovers.inputs id member output read)
  data := by
    intro id member kind found intermediate
    obtain ⟨parent, read, pending⟩ := discovers.data id member kind found intermediate
    exact ⟨parent, read, due parent pending⟩
  readers := by
    intro id member
    rcases discovers.readers id member with pending | all
    · exact readers id pending
    · exact Or.inr fun reader reads kind => due reader (all reader reads kind)

/-- A visit to a member adds nothing. -/
theorem skip {visit : Visit} (discovers : Discovers graph (visit :: rest) subgraph)
    (visit_eq : visit = .parent id ∨ visit = .concat id) (known : id ∈ subgraph.layers) :
    Discovers graph rest subgraph := by
  have due (other : NodeId) (pending : Due (visit :: rest) subgraph other) :
      Due rest subgraph other := by
    rcases pending with found | pending | pending
    · exact Or.inl found
    · rcases List.mem_cons.mp pending with equal | pending
      · rcases visit_eq with rfl | rfl <;> cases equal
        exact Or.inl known
      · exact Or.inr (Or.inl pending)
    · rcases List.mem_cons.mp pending with equal | pending
      · rcases visit_eq with rfl | rfl <;> cases equal
        exact Or.inl known
      · exact Or.inr (Or.inr pending)
  refine discovers.advance
    (fun other member => discovers.visited_kind other (List.mem_cons_of_mem _ member)) due ?_
  intro other pending
  rcases List.mem_cons.mp pending with equal | pending
  · rcases visit_eq with rfl | rfl <;> cases equal
  · exact Or.inl pending

/-- The readers of a member are visited when they are Concats. -/
theorem expand (discovers : Discovers graph (.readers id :: rest) subgraph) :
    Discovers graph ((subgraph.newConcats graph id).map .concat ++ rest) subgraph := by
  refine discovers.advance ?_ ?_ ?_
  · intro other member
    rcases List.mem_append.mp member with member | member
    · obtain ⟨reader, listed, equal⟩ := List.mem_map.mp member
      cases equal
      exact (mem_newConcats.mp listed).2.2
    · exact discovers.visited_kind other (List.mem_cons_of_mem _ member)
  · intro other pending
    rcases pending with found | pending | pending
    · exact Or.inl found
    · rcases List.mem_cons.mp pending with equal | pending
      · cases equal
      · exact Or.inr (Or.inl (List.mem_append_right _ pending))
    · rcases List.mem_cons.mp pending with equal | pending
      · cases equal
      · exact Or.inr (Or.inr (List.mem_append_right _ pending))
  · intro other pending
    rcases List.mem_cons.mp pending with equal | pending
    · cases equal
      refine Or.inr fun reader reads kind => ?_
      by_cases member : reader ∈ subgraph.layers
      · exact Or.inl member
      · exact Or.inr (Or.inr (List.mem_append_left _
          (List.mem_map_of_mem (mem_newConcats.mpr ⟨reads, member, kind⟩))))
    · exact Or.inl (List.mem_append_right _ pending)

/-- A Concat that is read is visited as a Concat. -/
theorem promote (discovers : Discovers graph (.parent id :: rest) subgraph)
    (kind : graph.kind? id = some .concat) : Discovers graph (.concat id :: rest) subgraph := by
  refine discovers.advance ?_ ?_ ?_
  · intro other member
    rcases List.mem_cons.mp member with equal | member
    · cases equal
      exact kind
    · exact discovers.visited_kind other (List.mem_cons_of_mem _ member)
  · intro other pending
    rcases pending with found | pending | pending
    · exact Or.inl found
    · rcases List.mem_cons.mp pending with equal | pending
      · cases equal
        exact Or.inr (Or.inr List.mem_cons_self)
      · exact Or.inr (Or.inl (List.mem_cons_of_mem _ pending))
    · rcases List.mem_cons.mp pending with equal | pending
      · cases equal
      · exact Or.inr (Or.inr (List.mem_cons_of_mem _ pending))
  · intro other pending
    rcases List.mem_cons.mp pending with equal | pending
    · cases equal
    · exact Or.inl (List.mem_cons_of_mem _ pending)

/-- A node becomes a member, and what it reads and what reads it are visited. -/
theorem grow {visit : Visit} (grown : Subgraph) (parents : List NodeId)
    (discovers : Discovers graph (visit :: rest) subgraph)
    (visit_eq : visit = .parent id ∨ visit = .concat id) (fresh : id ∉ subgraph.layers)
    (layers_eq : grown.layers = subgraph.layers ++ [id])
    (quantizers_eq : grown.quantizers = subgraph.quantizers ∨
      grown.quantizers = subgraph.quantizers ++ [id] ∧ graph.kind? id = some .fakeQuantize)
    (concats_eq : grown.concats = subgraph.concats ∨
      grown.concats = subgraph.concats ++ [id] ∧ graph.kind? id = some .concat)
    (layer_kind : (graph.kind? id = some .fakeQuantize ∧ id ∈ grown.quantizers) ∨
      (graph.kind? id = some .concat ∧ id ∈ grown.concats) ∨
      ∃ kind, graph.kind? id = some kind ∧ isIntermediate kind = true)
    (inputs : id ∈ grown.concats → ∀ output ∈ graph.inputs id, output.node ∈ parents)
    (data : ∀ kind, graph.kind? id = some kind → isIntermediate kind = true →
      ∃ parent ∈ parents, graph.inputNode? id 0 = some parent) :
    Discovers graph (parents.map .parent ++ .readers id :: rest) grown := by
  have layer_of_mem {other : NodeId} (member : other ∈ grown.layers) :
      other ∈ subgraph.layers ∨ other = id := by
    rw [layers_eq, List.mem_append, List.mem_singleton] at member
    exact member
  have due (other : NodeId) (pending : Due (visit :: rest) subgraph other) :
      Due (parents.map .parent ++ .readers id :: rest) grown other := by
    have self : id ∈ grown.layers := by simp [layers_eq]
    rcases pending with found | pending | pending
    · exact Or.inl (by simp [layers_eq, found])
    · rcases List.mem_cons.mp pending with equal | pending
      · rcases visit_eq with rfl | rfl <;> cases equal
        exact Or.inl self
      · exact Or.inr (Or.inl (by simp [pending]))
    · rcases List.mem_cons.mp pending with equal | pending
      · rcases visit_eq with rfl | rfl <;> cases equal
        exact Or.inl self
      · exact Or.inr (Or.inr (by simp [pending]))
  have due_parent {parent : NodeId} (member : parent ∈ parents) :
      Due (parents.map .parent ++ .readers id :: rest) grown parent :=
    Or.inr (Or.inl (by simp [member]))
  have old_quantizer {other : NodeId} (member : other ∈ grown.quantizers) :
      other ∈ subgraph.quantizers ∨ other = id ∧ graph.kind? id = some .fakeQuantize := by
    rcases quantizers_eq with equal | ⟨equal, kind⟩
    · exact Or.inl (equal ▸ member)
    · rw [equal, List.mem_append, List.mem_singleton] at member
      exact member.imp_right fun same => ⟨same, kind⟩
  have old_concat {other : NodeId} (member : other ∈ grown.concats) :
      other ∈ subgraph.concats ∨ other = id ∧ graph.kind? id = some .concat := by
    rcases concats_eq with equal | ⟨equal, kind⟩
    · exact Or.inl (equal ▸ member)
    · rw [equal, List.mem_append, List.mem_singleton] at member
      exact member.imp_right fun same => ⟨same, kind⟩
  have new_quantizer {other : NodeId} (member : other ∈ subgraph.quantizers) :
      other ∈ grown.quantizers := by
    rcases quantizers_eq with equal | ⟨equal, _⟩ <;> simp [equal, member]
  have new_concat {other : NodeId} (member : other ∈ subgraph.concats) :
      other ∈ grown.concats := by
    rcases concats_eq with equal | ⟨equal, _⟩ <;> simp [equal, member]
  exact
    { nodup := by
        rw [layers_eq, List.nodup_append]
        refine ⟨discovers.nodup, List.nodup_singleton id, ?_⟩
        intro left leftMember right rightMember equal
        rw [List.mem_singleton.mp rightMember] at equal
        exact fresh (equal ▸ leftMember)
      quantizers_nodup := by
        rcases quantizers_eq with equal | ⟨equal, _⟩
        · rw [equal]
          exact discovers.quantizers_nodup
        · rw [equal, List.nodup_append]
          refine ⟨discovers.quantizers_nodup, List.nodup_singleton id, ?_⟩
          intro left leftMember right rightMember same
          rw [List.mem_singleton.mp rightMember] at same
          exact fresh (same ▸ (discovers.quantizer_layer left leftMember).1)
      layer_kind := by
        intro other member
        rcases layer_of_mem member with member | rfl
        · rcases discovers.layer_kind other member with ⟨kind, listed⟩ | ⟨kind, listed⟩ | pool
          · exact Or.inl ⟨kind, new_quantizer listed⟩
          · exact Or.inr (Or.inl ⟨kind, new_concat listed⟩)
          · exact Or.inr (Or.inr pool)
        · exact layer_kind
      quantizer_layer := by
        intro other member
        rcases old_quantizer member with member | ⟨rfl, kind⟩
        · obtain ⟨listed, kind⟩ := discovers.quantizer_layer other member
          exact ⟨by simp [layers_eq, listed], kind⟩
        · exact ⟨by simp [layers_eq], kind⟩
      concat_layer := by
        intro other member
        rcases old_concat member with member | ⟨rfl, kind⟩
        · obtain ⟨listed, kind⟩ := discovers.concat_layer other member
          exact ⟨by simp [layers_eq, listed], kind⟩
        · exact ⟨by simp [layers_eq], kind⟩
      visited_kind := by
        intro other member
        refine discovers.visited_kind other (List.mem_cons_of_mem _ ?_)
        simpa using member
      inputs := by
        intro other member output read
        rcases old_concat member with member | ⟨rfl, kind⟩
        · exact due _ (discovers.inputs other member output read)
        · exact due_parent (inputs member output read)
      data := by
        intro other member kind found intermediate
        rcases layer_of_mem member with member | rfl
        · obtain ⟨parent, read, pending⟩ := discovers.data other member kind found intermediate
          exact ⟨parent, read, due parent pending⟩
        · obtain ⟨parent, listed, read⟩ := data kind found intermediate
          exact ⟨parent, read, due_parent listed⟩
      readers := by
        intro other member
        rcases layer_of_mem member with member | rfl
        · rcases discovers.readers other member with pending | all
          · rcases List.mem_cons.mp pending with equal | pending
            · rcases visit_eq with rfl | rfl <;> cases equal
            · exact Or.inl (by simp [pending])
          · exact Or.inr fun reader reads kind => due reader (all reader reads kind)
        · exact Or.inl (by simp) }

end Discovers

/-! ## The search -/

theorem explore_parent (fresh : id ∉ subgraph.layers) :
    explore registry graph (.parent id :: rest) subgraph =
      match graph.kind? id with
      | none => (.error (.foreignInput (graph.name id) none), subgraph)
      | some kind =>
          if kind = .fakeQuantize then
            explore registry graph (.readers id :: rest) (subgraph.addQuantizer id)
          else if kind = .concat then explore registry graph (.concat id :: rest) subgraph
          else if isIntermediate kind && registry.preservesPrecision graph id then
            match graph.inputNode? id 0 with
            | none => (.error (.noDataInput (graph.name id)), subgraph.addLayer id)
            | some parent =>
                explore registry graph (.parent parent :: .readers id :: rest)
                  (subgraph.addLayer id)
          else (.error (.foreignInput (graph.name id) (some kind)), subgraph) := by
  conv_lhs => rw [explore, dif_neg fresh]
  cases graph.kind? id with
  | none => rfl
  | some kind => rfl

theorem discovers_explore (discovers : Discovers graph visits subgraph)
    (found : explore registry graph visits subgraph = (.ok (), grown)) :
    Discovers graph [] grown := by
  induction visits, subgraph using explore.induct registry graph with
  | case1 subgraph =>
      rw [explore] at found
      cases found
      exact discovers
  | case2 subgraph id rest fresh induction =>
      rw [explore, dif_pos fresh] at found
      refine induction ?_ found
      have kind := discovers.visited_kind id List.mem_cons_self
      have grows := Discovers.grow (subgraph.addConcat id)
        ((graph.inputs id).map Output.node) discovers (Or.inr rfl) fresh.2 rfl (Or.inl rfl)
        (Or.inr ⟨rfl, kind⟩) (Or.inr (Or.inl ⟨kind, by simp [addConcat]⟩))
        (fun _ output read => List.mem_map_of_mem read) (by
          intro other isKind intermediate
          rw [kind] at isKind
          cases isKind
          cases intermediate)
      simpa [List.map_map, Function.comp_def] using grows
  | case3 subgraph id rest known induction =>
      rw [explore, dif_neg known] at found
      have live := Graph.contains_of_kind? (discovers.visited_kind id List.mem_cons_self)
      refine induction (discovers.skip (Or.inr rfl) ?_) found
      by_contra fresh
      exact known ⟨live, fresh⟩
  | case4 subgraph id rest induction =>
      rw [explore] at found
      exact induction discovers.expand found
  | case5 subgraph id rest known induction =>
      rw [explore, dif_pos known] at found
      exact induction (discovers.skip (Or.inl rfl) known) found
  | case6 subgraph id rest fresh missing =>
      rw [explore_parent fresh, missing] at found
      cases found
  | case7 subgraph id rest fresh kind induction =>
      rw [explore_parent fresh, kind] at found
      refine induction ?_ found
      refine Discovers.grow (subgraph.addQuantizer id) [] discovers (Or.inl rfl) fresh
        rfl (Or.inr ⟨rfl, kind⟩) (Or.inl rfl) (Or.inl ⟨kind, by simp [addQuantizer]⟩) ?_ ?_
      · intro member
        have concat := (discovers.concat_layer id member).2
        rw [kind] at concat
        cases concat
      · intro other isKind intermediate
        rw [kind] at isKind
        cases isKind
        cases intermediate
  | case8 subgraph id rest fresh kind _ induction =>
      rw [explore_parent fresh, kind] at found
      exact induction (discovers.promote kind) found
  | case9 subgraph id rest fresh kind isKind not_quantizer not_concat passes missing =>
      rw [explore_parent fresh, isKind] at found
      dsimp only at found
      rw [if_neg not_quantizer, if_neg not_concat, if_pos passes, missing] at found
      cases found
  | case10 subgraph id rest fresh kind isKind not_quantizer not_concat passes parent read
      induction =>
      rw [explore_parent fresh, isKind] at found
      dsimp only at found
      rw [if_neg not_quantizer, if_neg not_concat, if_pos passes, read] at found
      refine induction ?_ found
      rw [Bool.and_eq_true] at passes
      refine Discovers.grow (subgraph.addLayer id) [parent] discovers (Or.inl rfl)
        fresh rfl (Or.inl rfl) (Or.inl rfl) (Or.inr (Or.inr ⟨kind, isKind, passes.1⟩)) ?_ ?_
      · intro member
        have concat := (discovers.concat_layer id member).2
        rw [isKind] at concat
        exact absurd (Option.some.inj concat) not_concat
      · intro _ _ _
        exact ⟨parent, List.mem_singleton_self parent, read⟩
  | case11 subgraph id rest fresh kind isKind not_quantizer not_concat blocked =>
      rw [explore_parent fresh, isKind] at found
      dsimp only at found
      rw [if_neg not_quantizer, if_neg not_concat, if_neg blocked] at found
      cases found

/-- The subgraph around a Concat is closed: Concats come with all that they read, pooling
with its data, and every Concat that reads a member is one. -/
theorem discovers_around? {concat : NodeId} (kind : graph.kind? concat = some .concat)
    (found : around? registry graph concat = some subgraph) :
    Discovers graph [] subgraph ∧ subgraph.quantizers ≠ [] := by
  unfold around? explored at found
  rw [if_pos (by simp [Graph.contains_of_kind? kind])] at found
  split at found
  case h_1 result explored =>
    have discovers := discovers_explore (.begin kind) explored
    split at found
    case isTrue => cases found
    case isFalse nonempty =>
      cases found
      exact ⟨discovers, by simpa using nonempty⟩
  case h_2 => cases found

end Subgraph

end QuantGraph
