import QuantGraph.Proofs.Graph.Addition
import QuantGraph.Proofs.Graph.Replacement
import QuantGraph.Proofs.Revision.Ensures

/-! The evolution of a graph under revisions. Every primitive change keeps a graph
well-formed and its parameters and results as they are, provided that it does not
tie a knot; a node ties none when it does not depend on the one that it replaces. -/

namespace QuantGraph

namespace Graph

variable {before middle after graph start : Graph α} {id op other : NodeId}
  {draft : Draft α} {outputs : List Output}

theorem HasExactSlots.inputCount_le (exact : graph.HasExactSlots id) :
    graph.inputCount id ≤ 256 := by
  by_contra many
  have listed : 256 ∈ (graph.incoming id).map fun edge => edge.inputSlot.toNat :=
    exact.mem_iff.mpr (List.mem_range.mpr (by omega))
  obtain ⟨edge, _, slot⟩ := List.mem_map.mp listed
  have bound := edge.inputSlot.toNat_lt
  omega

/-! ## Independence -/

/-- A node does not depend on another, nor is it the same. -/
def Independent (graph : Graph α) (op id : NodeId) : Prop := ¬ graph.Reaches op id

theorem independent_of_reads (wellFormed : graph.WellFormed) (reads : graph.Reads id op) :
    graph.Independent op id :=
  wellFormed.acyclic.not_reaches_of_reads reads

theorem Independent.of_reads (independent : graph.Independent op id)
    (reads : graph.Reads other id) : graph.Independent op other := fun reaches =>
  independent (reaches.tail reads)

/-- A node that was there does not depend on one that is new. -/
theorem Grows.independent (grows : before.Grows after) (consistent : before.IsConsistent)
    (fresh : before.contains id = false) (live : before.contains other = true) :
    after.Independent id other := by
  intro reaches
  rw [consistent.reaches_live live ((grows.reaches_iff consistent live).mp reaches)] at fresh
  cases fresh

theorem Gains.reads (gains : before.Gains draft outputs id after) {source reader : NodeId}
    (reads : after.Reads source reader) :
    before.Reads source reader ∨ reader = id ∧ ∃ output ∈ outputs, output.node = source := by
  by_cases new : reader = id
  · rw [reads_iff_mem_inputs, new, gains.inputs_new] at reads
    exact Or.inr ⟨new, reads⟩
  · exact Or.inl (gains.reads_old reads new)

/-- What depends on a node already did when the sources of the new one do not. -/
theorem Gains.reaches (gains : before.Gains draft outputs id after)
    (consistent : before.IsConsistent) (live : before.contains op = true)
    (sources : ∀ output ∈ outputs, before.Independent op output.node)
    (reaches : after.Reaches op other) : before.Reaches op other ∧ other ≠ id := by
  induction reaches with
  | refl => exact ⟨Relation.ReflTransGen.refl, gains.ne_of_live live⟩
  | tail _ reads induction =>
      rcases gains.reads reads with reads | ⟨_, output, member, rfl⟩
      · exact ⟨induction.1.tail reads, gains.ne_of_live (consistent.reads_live reads).2⟩
      · exact absurd induction.1 (sources output member)

theorem Adds.reads (adds : before.Adds draft outputs id after) {source reader : NodeId}
    (reads : after.Reads source reader) :
    before.Reads source reader ∨ reader = id ∧ ∃ output ∈ outputs, output.node = source :=
  adds.gains.reads reads

/-- Nothing reads a node that has just been added. -/
theorem Adds.not_reads_new (adds : before.Adds draft outputs id after)
    (consistent : before.IsConsistent) (reader : NodeId) : ¬ after.Reads id reader :=
  adds.gains.not_reads consistent reader

theorem Adds.reaches (adds : before.Adds draft outputs id after)
    (consistent : before.IsConsistent) (live : before.contains op = true)
    (sources : ∀ output ∈ outputs, before.Independent op output.node)
    (reaches : after.Reaches op other) : before.Reaches op other ∧ other ≠ id :=
  adds.gains.reaches consistent live sources reaches

/-- Nodes on which a replacement of a node may be built. -/
structure Supports (graph : Graph α) (op : NodeId) (nodes : List NodeId) : Prop where
  wellFormed : graph.WellFormed
  live : graph.contains op = true
  independent : ∀ node ∈ nodes, graph.Independent op node

theorem Supports.mono {nodes fewer : List NodeId} (supports : graph.Supports op nodes)
    (subset : ∀ node ∈ fewer, node ∈ nodes) : graph.Supports op fewer :=
  ⟨supports.wellFormed, supports.live, fun node member =>
    supports.independent node (subset node member)⟩

theorem Supports.of_adds {nodes : List NodeId} (supports : before.Supports op nodes)
    (adds : before.Adds draft outputs id after)
    (sources : ∀ output ∈ outputs, output.node ∈ nodes) : after.Supports op (id :: nodes) where
  wellFormed := adds.wellFormed
  live := adds.grows.live supports.live
  independent := by
    intro node member reaches
    have earlier := adds.reaches supports.wellFormed.consistent supports.live
      (fun output read => supports.independent output.node (sources output read)) reaches
    rcases List.mem_cons.mp member with equal | member
    · exact earlier.2 equal
    · exact supports.independent node member earlier.1

theorem Resources.reads {consumer : NodeId} {slot : UInt8} {source : Output}
    (resources : before.Resources consumer slot source after) {left right : NodeId}
    (reads : after.Reads left right) :
    before.Reads left right ∨ left = source.node ∧ right = consumer := by
  obtain ⟨output, member, rfl⟩ := reads_iff_mem_inputs.mp reads
  rw [resources.inputs_eq] at member
  split at member
  case isTrue equal =>
    rcases List.mem_or_eq_of_mem_set member with member | rfl
    · exact Or.inl (reads_iff_mem_inputs.mpr ⟨output, equal ▸ member, rfl⟩)
    · exact Or.inr ⟨rfl, equal⟩
  case isFalse => exact Or.inl (reads_iff_mem_inputs.mpr ⟨output, member, rfl⟩)

theorem Resources.reaches {consumer : NodeId} {slot : UInt8} {source : Output}
    (resources : before.Resources consumer slot source after) {left right : NodeId}
    (reaches : after.Reaches left right) :
    before.Reaches left right ∨ before.Reaches left source.node := by
  induction reaches with
  | refl => exact Or.inl Relation.ReflTransGen.refl
  | tail _ reads induction =>
      rcases induction with reaches | reaches
      · rcases resources.reads reads with reads | ⟨rfl, _⟩
        · exact Or.inl (reaches.tail reads)
        · exact Or.inr reaches
      · exact Or.inr reaches

theorem Supports.of_sheds {nodes : List NodeId} (supports : before.Supports op nodes)
    (sheds : before.Sheds id after) (apart : before.Independent op id) :
    after.Supports op nodes where
  wellFormed := sheds.wellFormed supports.wellFormed
  live := sheds.keeps supports.live apart
  independent := fun node member reaches =>
    supports.independent node member (reaches.mono fun _ edge => (sheds.mem_edges.mp edge).1)

theorem Resources.contains_eq {consumer : NodeId} {slot : UInt8} {source : Output}
    (resources : before.Resources consumer slot source after) (id : NodeId) :
    after.contains id = before.contains id :=
  contains_congr (resources.node_eq id)

theorem Independent.of_resources {consumer : NodeId} {slot : UInt8} {source : Output}
    (independent : before.Independent op other)
    (resources : before.Resources consumer slot source after)
    (source_independent : before.Independent op source.node) : after.Independent op other := by
  intro reaches
  rcases resources.reaches reaches with reaches | reaches
  · exact independent reaches
  · exact source_independent reaches

theorem Independent.of_sheds (independent : before.Independent op other)
    (sheds : before.Sheds id after) : after.Independent op other := fun reaches =>
  independent (reaches.mono fun _ edge => (sheds.mem_edges.mp edge).1)

/-! ## New declarations -/

/-- Two nodes differ at most in the output type that is declared. -/
structure IsRedeclared (node changed : Node α) : Prop where
  name_eq : changed.name = node.name
  op_eq : changed.op = node.op
  shape_eq : changed.shape = node.shape
  uid_eq : changed.uid = node.uid

/-- A graph in which the output type of one node is declared anew. -/
structure Declares (before : Graph α) (id : NodeId) (change : Node α → Node α)
    (after : Graph α) : Prop where
  node_eq : ∀ other, after.node? other =
    if other = id then (before.node? id).map change else before.node? other
  edges_eq : after.edges = before.edges
  wellFormed : after.WellFormed

theorem Declares.sameAt {change : Node α → Node α} (declares : before.Declares id change after)
    (redeclared : ∀ node, IsRedeclared node (change node)) (other : NodeId) :
    before.SameAt after other := by
  refine ⟨?_, by rw [inputs, inputs, incoming, incoming, declares.edges_eq]⟩
  rw [op?, op?, declares.node_eq]
  by_cases equal : other = id
  · rw [if_pos equal, equal, Option.map_map]
    exact congrFun (congrArg Option.map (funext fun node => (redeclared node).op_eq)) _
  · rw [if_neg equal]

theorem node?_modify (graph : Graph α) (id other : NodeId) (change : Node α → Node α) :
    (graph.modify id change).node? other =
      if other = id then (graph.node? id).map change else graph.node? other := by
  unfold modify
  split
  case h_1 node found =>
    have inside := lt_size_of_contains (contains_of_node? found)
    by_cases equal : other = id
    · subst equal
      rw [if_pos rfl, found]
      simp [node?, inside]
    · have different : id.index ≠ other.index := fun same => equal (by
        cases id; cases other; exact congrArg NodeId.mk same.symm)
      simp [node?, different, equal]
  case h_2 missing =>
    by_cases equal : other = id
    · subst equal
      simp [missing]
    · simp [equal]

theorem edges_modify (graph : Graph α) (id : NodeId) (change : Node α → Node α) :
    (graph.modify id change).edges = graph.edges := by
  unfold modify
  split <;> rfl

theorem uid?_modify (graph : Graph α) (id other : NodeId) {change : Node α → Node α}
    (uid_eq : ∀ node, (change node).uid = node.uid) :
    (graph.modify id change).uid? other = graph.uid? other := by
  unfold uid?
  rw [node?_modify]
  by_cases equal : other = id
  · subst equal
    rw [if_pos rfl, Option.map_map]
    exact congrFun (congrArg Option.map (funext uid_eq)) _
  · rw [if_neg equal]

theorem nextUid_modify (graph : Graph α) (id : NodeId) (change : Node α → Node α) :
    (graph.modify id change).nextUid = graph.nextUid := by
  unfold modify
  split <;> rfl

theorem isConsistent_modify_of_uid_eq (consistent : graph.IsConsistent)
    {change : Node α → Node α} (uid_eq : ∀ node, (change node).uid = node.uid) :
    (graph.modify id change).IsConsistent := by
  have edges := edges_modify graph id change
  have vacant : (graph.modify id change).vacant = graph.vacant := by
    unfold modify
    split <;> rfl
  have next := nextUid_modify graph id change
  have size : (graph.modify id change).nodes.size = graph.nodes.size := by
    unfold modify
    split <;> simp
  have live (other : NodeId) :
      (graph.modify id change).contains other = graph.contains other := by
    unfold contains
    rw [node?_modify]
    by_cases equal : other = id <;> simp [equal]
  have uid (other : NodeId) := uid?_modify graph id other uid_eq
  exact
    { source_live := fun edge member => by
        rw [live]
        exact consistent.source_live edge (edges ▸ member)
      target_live := fun edge member => by
        rw [live]
        exact consistent.target_live edge (edges ▸ member)
      vacant_dead := fun other member => by
        rw [live]
        exact consistent.vacant_dead other (vacant ▸ member)
      vacant_inside := fun other member => by
        rw [size]
        exact consistent.vacant_inside other (vacant ▸ member)
      vacant_nodup := vacant ▸ consistent.vacant_nodup
      uid_lt := fun other number found => by
        rw [next]
        exact consistent.uid_lt other number ((uid other).symm.trans found)
      uid_unique := fun left right number leftFound rightFound =>
        consistent.uid_unique left right number
          ((uid left).symm.trans leftFound) ((uid right).symm.trans rightFound) }

theorem isConsistent_modify (consistent : graph.IsConsistent) {change : Node α → Node α}
    (redeclared : ∀ node, IsRedeclared node (change node)) :
    (graph.modify id change).IsConsistent :=
  isConsistent_modify_of_uid_eq consistent fun node => (redeclared node).uid_eq

theorem declares_modify (wellFormed : graph.WellFormed) {change : Node α → Node α}
    (redeclared : ∀ node, IsRedeclared node (change node)) :
    graph.Declares id change (graph.modify id change) := by
  have edges := edges_modify graph id change
  refine ⟨fun other => node?_modify graph id other change, edges,
    isConsistent_modify wellFormed.consistent redeclared, ?_, ?_⟩
  · intro other
    unfold HasExactSlots inputCount incoming
    rw [edges]
    exact wellFormed.exact other
  · exact IsAcyclic.mono (fun edge member => edges ▸ member) wellFormed.acyclic

theorem Declares.contains_eq {change : Node α → Node α}
    (declares : before.Declares id change after) (other : NodeId) :
    after.contains other = before.contains other := by
  unfold contains
  rw [declares.node_eq]
  by_cases equal : other = id
  · subst equal
    simp
  · rw [if_neg equal]

theorem Supports.of_declares {nodes : List NodeId} {change : Node α → Node α}
    (supports : before.Supports op nodes) (declares : before.Declares id change after) :
    after.Supports op nodes where
  wellFormed := declares.wellFormed
  live := (declares.contains_eq op).trans supports.live
  independent := fun node member reaches =>
    supports.independent node member (reaches.mono fun _ edge => declares.edges_eq ▸ edge)

/-! ## Changes -/

/-- No parameter or result stands at an index. -/
def Unfixed (graph : Graph α) (id : NodeId) : Prop :=
  ∀ kind, graph.kind? id = some kind → isFixedKind kind = false

/-- One primitive change, which makes no new parameter or result. -/
inductive Changes (before after : Graph α) : Prop where
  | add {draft : Draft α} {outputs : List Output} {id : NodeId}
      (unfixed : isFixedKind draft.op.kind = false)
      (adds : before.Adds draft outputs id after)
  | replace {old new : NodeId} (replaces : before.Replaces old new after)
  | setInput {consumer : NodeId} {slot : UInt8} {source : Output}
      (resources : before.Resources consumer slot source after)
  | prune {id : NodeId} (sheds : before.Sheds id after) (wellFormed : after.WellFormed)
  | declare {id : NodeId} {change : Node α → Node α}
      (unfixed : before.Unfixed id)
      (redeclared : ∀ node, IsRedeclared node (change node))
      (declares : before.Declares id change after)

/-- A graph that arises by primitive changes. -/
def Evolves (start : Graph α) : Graph α → Prop := Relation.ReflTransGen Changes start

theorem Evolves.trans (left : start.Evolves middle) (right : middle.Evolves after) :
    start.Evolves after :=
  Relation.ReflTransGen.trans left right

theorem Changes.wellFormed (changes : before.Changes after) : after.WellFormed := by
  cases changes with
  | add _ adds => exact adds.wellFormed
  | replace replaces => exact replaces.wellFormed
  | setInput resources => exact resources.wellFormed
  | prune _ wellFormed => exact wellFormed
  | declare _ _ declares => exact declares.wellFormed

theorem unfixed_of_node_eq (unfixed : before.Unfixed id)
    (node_eq : after.contains id = true → after.node? id = before.node? id) :
    after.Unfixed id := by
  intro kind found
  exact unfixed kind ((kind?_congr (node_eq (contains_of_kind? found))).symm.trans found)

theorem Changes.unfixed (changes : before.Changes after) (unfixed : before.Unfixed other) :
    after.Unfixed other := by
  cases changes with
  | @add draft outputs id new_unfixed adds =>
      by_cases equal : other = id
      · subst equal
        intro kind found
        obtain ⟨type, _, present⟩ := adds.node_new
        rw [kind?, present, Option.map_some, Option.some.injEq] at found
        exact found ▸ new_unfixed
      · exact unfixed_of_node_eq unfixed fun _ => adds.node_old other equal
  | replace replaces => exact unfixed_of_node_eq unfixed fun live => replaces.node_eq live
  | setInput resources => exact unfixed_of_node_eq unfixed fun _ => resources.node_eq other
  | prune sheds => exact unfixed_of_node_eq unfixed fun live => sheds.node_eq other live
  | @declare id change _ redeclared declares =>
      by_cases equal : other = id
      · subst equal
        intro kind found
        rw [kind?, declares.node_eq, if_pos rfl, Option.map_map] at found
        refine unfixed kind (Eq.trans ?_ found)
        refine congrFun (congrArg Option.map (funext fun node => ?_)) _
        exact (congrArg Op.kind (redeclared node).op_eq).symm
      · exact unfixed_of_node_eq unfixed fun _ => by rw [declares.node_eq, if_neg equal]

theorem Evolves.unfixed (evolves : start.Evolves graph) (unfixed : start.Unfixed other) :
    graph.Unfixed other := by
  induction evolves with
  | refl => exact unfixed
  | tail _ changes induction => exact changes.unfixed induction

theorem Evolves.wellFormed (evolves : start.Evolves graph) (wellFormed : start.WellFormed) :
    graph.WellFormed := by
  rcases Relation.ReflTransGen.cases_tail_iff _ _ _ |>.mp evolves with rfl | ⟨_, _, changes⟩
  · exact wellFormed
  · exact changes.wellFormed

end Graph

end QuantGraph
