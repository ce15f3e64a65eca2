import Mathlib.Logic.Relation
import QuantGraph.Graph.Build
import QuantGraph.Graph.Edit
import QuantGraph.Proofs.Graph.Slots

/-! Well-formed graphs: the bookkeeping of indices is in order, the input slots
of every node are exact, and no node reads itself, directly or through others. -/

namespace QuantGraph

namespace Graph

/-! ## Reachability -/

/-- The second node reads the first. -/
def Reads (graph : Graph α) (source reader : NodeId) : Prop :=
  ∃ edge ∈ graph.edges, edge.source.node = source ∧ edge.target = reader

/-- The value of the first node can reach the second, which may be the same. -/
def Reaches (graph : Graph α) : NodeId → NodeId → Prop := Relation.ReflTransGen graph.Reads

/-- The second node depends on the first. -/
def Precedes (graph : Graph α) : NodeId → NodeId → Prop := Relation.TransGen graph.Reads

def IsAcyclic (graph : Graph α) : Prop := ∀ id, ¬ graph.Precedes id id

theorem reads_iff_mem_inputs {graph : Graph α} {source reader : NodeId} :
    graph.Reads source reader ↔ ∃ output ∈ graph.inputs reader, output.node = source := by
  constructor
  · rintro ⟨edge, member, sourceEq, target⟩
    exact ⟨edge.source, mem_inputs_iff_edge.mpr ⟨edge, member, rfl, target⟩, sourceEq⟩
  · rintro ⟨output, member, sourceEq⟩
    obtain ⟨edge, member, source, target⟩ := mem_inputs_iff_edge.mp member
    exact ⟨edge, member, source ▸ sourceEq, target⟩

theorem reads_of_mem_inputs {graph : Graph α} {output : Output} {reader : NodeId}
    (member : output ∈ graph.inputs reader) : graph.Reads output.node reader :=
  reads_iff_mem_inputs.mpr ⟨output, member, rfl⟩

theorem IsAcyclic.not_reaches_of_reads {graph : Graph α} (acyclic : graph.IsAcyclic)
    {source reader : NodeId} (reads : graph.Reads source reader) :
    ¬ graph.Reaches reader source := fun back =>
  acyclic source (Relation.TransGen.head' reads back)

theorem Reads.mono {left right : Graph α} (subset : ∀ edge ∈ left.edges, edge ∈ right.edges)
    {source reader : NodeId} (reads : left.Reads source reader) : right.Reads source reader := by
  obtain ⟨edge, member, ends⟩ := reads
  exact ⟨edge, subset edge member, ends⟩

theorem Reaches.mono {left right : Graph α} (subset : ∀ edge ∈ left.edges, edge ∈ right.edges)
    {source reader : NodeId} (reaches : left.Reaches source reader) :
    right.Reaches source reader :=
  Relation.ReflTransGen.mono (fun _ _ => Reads.mono subset) _ _ reaches

theorem IsAcyclic.mono {left right : Graph α} (subset : ∀ edge ∈ left.edges, edge ∈ right.edges)
    (acyclic : right.IsAcyclic) : left.IsAcyclic := fun id cycle =>
  acyclic id (Relation.TransGen.mono (fun _ _ => Reads.mono subset) _ _ cycle)

/-! ## Bookkeeping -/

/-- Edges lead from node to node, vacant indices hold no node and are listed once,
and identity numbers are given once, in increasing order. -/
structure IsConsistent (graph : Graph α) : Prop where
  source_live : ∀ edge ∈ graph.edges, graph.contains edge.source.node = true
  target_live : ∀ edge ∈ graph.edges, graph.contains edge.target = true
  vacant_dead : ∀ id ∈ graph.vacant, graph.contains id = false
  vacant_inside : ∀ id ∈ graph.vacant, id.index < graph.nodes.size
  vacant_nodup : graph.vacant.Nodup
  uid_lt : ∀ id uid, graph.uid? id = some uid → uid < graph.nextUid
  uid_unique : ∀ left right uid,
    graph.uid? left = some uid → graph.uid? right = some uid → left = right

structure WellFormed (graph : Graph α) : Prop where
  consistent : graph.IsConsistent
  exact : ∀ id, graph.HasExactSlots id
  acyclic : graph.IsAcyclic

theorem ne_of_contains {graph : Graph α} {id other : NodeId} (live : graph.contains other = true)
    (dead : graph.contains id = false) : other ≠ id := by
  rintro rfl
  rw [dead] at live
  cases live

theorem contains_of_node? {graph : Graph α} {id : NodeId} {node : Node α}
    (found : graph.node? id = some node) : graph.contains id = true :=
  contains_eq_true_iff.mpr ⟨node, found⟩

theorem contains_congr {left right : Graph α} {id : NodeId}
    (equal : left.node? id = right.node? id) : left.contains id = right.contains id := by
  rw [contains, contains, equal]

theorem constant?_congr {left right : Graph α} {id : NodeId}
    (equal : left.node? id = right.node? id) : left.constant? id = right.constant? id := by
  rw [constant?, constant?, equal]

theorem kind?_congr {left right : Graph α} {id : NodeId}
    (equal : left.node? id = right.node? id) : left.kind? id = right.kind? id := by
  rw [kind?, kind?, equal]

theorem elementType?_congr {left right : Graph α} {id : NodeId}
    (equal : left.node? id = right.node? id) : left.elementType? id = right.elementType? id := by
  rw [elementType?, elementType?, equal]

theorem uid?_congr {left right : Graph α} {id : NodeId}
    (equal : left.node? id = right.node? id) : left.uid? id = right.uid? id := by
  rw [uid?, uid?, equal]

theorem IsConsistent.incoming_eq_nil {graph : Graph α} (consistent : graph.IsConsistent)
    {id : NodeId} (dead : graph.contains id = false) : graph.incoming id = [] := by
  refine List.eq_nil_iff_forall_not_mem.mpr fun edge member => ?_
  obtain ⟨member, target⟩ := mem_incoming.mp member
  have live := consistent.target_live edge member
  rw [target, dead] at live
  cases live

theorem IsConsistent.reads_live {graph : Graph α} (consistent : graph.IsConsistent)
    {source reader : NodeId} (reads : graph.Reads source reader) :
    graph.contains source = true ∧ graph.contains reader = true := by
  obtain ⟨edge, member, sourceEq, target⟩ := reads
  exact ⟨sourceEq ▸ consistent.source_live edge member,
    target ▸ consistent.target_live edge member⟩

/-- What a node depends on is there. -/
theorem IsConsistent.reaches_live {graph : Graph α} (consistent : graph.IsConsistent)
    {source reader : NodeId} (live : graph.contains reader = true)
    (reaches : graph.Reaches source reader) : graph.contains source = true := by
  rcases Relation.ReflTransGen.cases_head reaches with rfl | ⟨_, reads, _⟩
  · exact live
  · exact (consistent.reads_live reads).1

theorem contains_nextId {graph : Graph α} (consistent : graph.IsConsistent) :
    graph.contains graph.nextId = false := by
  unfold nextId
  split
  case h_1 id rest vacant =>
    exact consistent.vacant_dead id (vacant ▸ List.mem_cons_self)
  case h_2 vacant => simp [contains, node?]

theorem wellFormed_empty : (empty : Graph α).WellFormed where
  consistent :=
    { source_live := by simp [empty]
      target_live := by simp [empty]
      vacant_dead := by simp [empty]
      vacant_inside := by simp [empty]
      vacant_nodup := List.nodup_nil
      uid_lt := by simp [empty, uid?, node?]
      uid_unique := by simp [empty, uid?, node?] }
  exact := by
    intro id
    simp [HasExactSlots, empty, incoming, inputCount]
  acyclic := by
    intro id cycle
    obtain ⟨_, ⟨edge, member, _⟩, _⟩ := Relation.TransGen.head'_iff.mp cycle
    simp [empty] at member

/-! ## Operations -/

def op? (graph : Graph α) (id : NodeId) : Option (Op α) := (graph.node? id).map Node.op

theorem op?_congr {left right : Graph α} {id : NodeId} (equal : left.node? id = right.node? id) :
    left.op? id = right.op? id := by
  rw [op?, op?, equal]

theorem contains_of_op? {graph : Graph α} {id : NodeId} {op : Op α}
    (found : graph.op? id = some op) : graph.contains id = true := by
  obtain ⟨node, present, _⟩ := Option.map_eq_some_iff.mp found
  exact contains_of_node? present

theorem kind?_eq_map_op? (graph : Graph α) (id : NodeId) :
    graph.kind? id = (graph.op? id).map Op.kind := by
  rw [kind?, op?, Option.map_map]
  rfl

theorem kind?_of_op? {graph : Graph α} {id : NodeId} {op : Op α} (found : graph.op? id = some op) :
    graph.kind? id = some op.kind := by
  rw [kind?_eq_map_op?, found, Option.map_some]

theorem constant?_of_op? {graph : Graph α} {id : NodeId} {op : Op α}
    (found : graph.op? id = some op) : graph.constant? id = op.constant? := by
  obtain ⟨node, present, isOp⟩ := Option.map_eq_some_iff.mp found
  rw [constant?, present, Option.bind_some, Node.constant?, isOp]

theorem constant?_eq_some_iff {graph : Graph α} {id : NodeId} {tensor : Tensor α} :
    graph.constant? id = some tensor ↔ graph.op? id = some (.constant tensor) := by
  unfold constant? op?
  cases graph.node? id with
  | none => simp
  | some node =>
      rw [Option.bind_some, Option.map_some, Option.some.injEq, Node.constant?]
      constructor
      · intro found
        cases isOp : node.op <;> rw [isOp] at found <;> cases found
        rfl
      · intro isOp
        rw [isOp]
        rfl

/-- The operation and the inputs of a node, where it is in both graphs. -/
def SameAt (before after : Graph α) (id : NodeId) : Prop :=
  after.op? id = before.op? id ∧ after.inputs id = before.inputs id

theorem SameAt.trans {before middle after : Graph α} {id : NodeId}
    (left : before.SameAt middle id) (right : middle.SameAt after id) : before.SameAt after id :=
  ⟨right.1.trans left.1, right.2.trans left.2⟩

theorem SameAt.kind?_eq {before after : Graph α} {id : NodeId} (same : before.SameAt after id) :
    after.kind? id = before.kind? id := by
  rw [kind?_eq_map_op?, kind?_eq_map_op?, same.1]

end Graph

end QuantGraph
