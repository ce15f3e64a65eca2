import QuantGraph.Proofs.Graph.Creation
import QuantGraph.Proofs.Outcome

/-! The changes of a graph as calls of its methods, one after the other. Whatever the calls
are, they leave the bookkeeping in order. -/

namespace QuantGraph

/-- A call of a method that changes a graph. -/
inductive Mutation (α : Type) where
  | add (draft : Draft α)
  | addCopy (id : NodeId) (outputs : List Output)
  | setInput (consumer : NodeId) (slot : UInt8) (source : Output)
  | replace (old new : NodeId)
  | prune (id : NodeId)
  | remove (id : NodeId)
  | relax (id : NodeId)
  | setPrecision (id : NodeId) (precision : ElementType)
  | overridePrecision (id : NodeId) (precision : ElementType)
  /-- Change a node in any way. Its identity number is out of reach. -/
  | edit (id : NodeId) (change : Node α → Node α)

/-- A changed node, which remains the node that it was. -/
def Node.edit (change : Node α → Node α) (node : Node α) : Node α :=
  { change node with uid := node.uid }

@[simp] theorem Node.uid_edit (change : Node α → Node α) (node : Node α) :
    (node.edit change).uid = node.uid := rfl

namespace Graph

/-! ## Calls -/

def perform (graph : Graph α) : Mutation α → Except GraphError (Graph α)
  | .add draft => (graph.add draft).map Prod.snd
  | .addCopy id outputs => (graph.addCopy id outputs).map Prod.snd
  | .setInput consumer slot source => graph.setInput consumer slot source
  | .replace old new => graph.replace old new
  | .prune id => .ok (graph.prune id).2
  | .remove id => graph.remove id
  | .relax id => .ok (graph.relax id)
  | .setPrecision id precision => graph.setPrecision id precision
  | .overridePrecision id precision => graph.overridePrecision id precision
  | .edit id change => .ok (graph.modify id (Node.edit change))

/-- The graph after a call. One that is refused changes nothing. -/
def mutate (graph : Graph α) (mutation : Mutation α) : Graph α :=
  match graph.perform mutation with
  | .ok after => after
  | .error _ => graph

def mutateAll (graph : Graph α) (mutations : List (Mutation α)) : Graph α :=
  mutations.foldl mutate graph

variable {before after graph : Graph α} {mutation : Mutation α} {mutations : List (Mutation α)}
  {id : NodeId}

theorem mutate_of_perform (performed : graph.perform mutation = .ok after) :
    graph.mutate mutation = after := by
  rw [mutate, performed]

theorem perform_add {draft : Draft α} (added : graph.add draft = .ok (id, after)) :
    graph.perform (.add draft) = .ok after :=
  Outcome.map_eq_ok.mpr ⟨(id, after), added, rfl⟩

@[simp] theorem mutateAll_nil (graph : Graph α) : graph.mutateAll [] = graph := rfl

@[simp] theorem mutateAll_cons (graph : Graph α) (mutation : Mutation α)
    (rest : List (Mutation α)) :
    graph.mutateAll (mutation :: rest) = (graph.mutate mutation).mutateAll rest := rfl

theorem mutateAll_append (graph : Graph α) (first second : List (Mutation α)) :
    graph.mutateAll (first ++ second) = (graph.mutateAll first).mutateAll second :=
  List.foldl_append

/-- Calls lead from one graph to the other. -/
def LeadsTo (before after : Graph α) : Prop := ∃ mutations, after = before.mutateAll mutations

namespace LeadsTo

theorem refl (graph : Graph α) : graph.LeadsTo graph := ⟨[], rfl⟩

theorem perform (leadsTo : before.LeadsTo graph) (performed : graph.perform mutation = .ok after) :
    before.LeadsTo after := by
  obtain ⟨mutations, rfl⟩ := leadsTo
  refine ⟨mutations ++ [mutation], ?_⟩
  rw [mutateAll_append, mutateAll_cons, mutateAll_nil, mutate_of_perform performed]

theorem trans {middle : Graph α} (left : before.LeadsTo middle) (right : middle.LeadsTo after) :
    before.LeadsTo after := by
  obtain ⟨first, rfl⟩ := left
  obtain ⟨second, rfl⟩ := right
  exact ⟨first ++ second, (mutateAll_append before first second).symm⟩

end LeadsTo

/-! ## Bookkeeping -/

theorem exists_add_of_addCopy {copy : NodeId} {outputs : List Output}
    (copied : graph.addCopy id outputs = .ok (copy, after)) :
    ∃ draft, graph.add draft = .ok (copy, after) := by
  unfold addCopy at copied
  split at copied
  case h_1 node found => exact ⟨copyDraft node outputs, copied⟩
  case h_2 => cases copied

/-- A removed node was there. -/
theorem remove_eq_ok (removed : graph.remove id = .ok after) :
    graph.contains id = true ∧ after = graph.erase id := by
  unfold remove at removed
  split at removed
  case isTrue => cases removed
  case isFalse live =>
    split at removed
    case isTrue => cases removed
    case isFalse =>
      cases removed
      exact ⟨by simpa using live, rfl⟩

namespace IsConsistent

theorem add {draft : Draft α} (consistent : graph.IsConsistent)
    (added : graph.add draft = .ok (id, after)) : after.IsConsistent := by
  obtain ⟨live, _, _, _, rfl⟩ := add_eq_ok added
  exact isConsistent_insert consistent live

theorem perform (consistent : graph.IsConsistent)
    (performed : graph.perform mutation = .ok after) : after.IsConsistent := by
  cases mutation with
  | add =>
      obtain ⟨⟨_, _⟩, added, rfl⟩ := Outcome.map_eq_ok.mp performed
      exact consistent.add added
  | addCopy =>
      obtain ⟨⟨_, _⟩, copied, rfl⟩ := Outcome.map_eq_ok.mp performed
      obtain ⟨_, added⟩ := exists_add_of_addCopy copied
      exact consistent.add added
  | setInput => exact isConsistent_setInput consistent performed
  | replace old new =>
      by_cases same : old = new
      · simp only [Graph.perform, replace, if_pos same] at performed
        cases performed
        exact consistent
      · exact (sheds_of_replace consistent same performed).2.consistent
  | prune id =>
      cases performed
      exact (sheds_prune consistent id).consistent
  | remove =>
      obtain ⟨live, rfl⟩ := remove_eq_ok performed
      exact isConsistent_erase consistent live
  | relax id =>
      cases performed
      exact isConsistent_modify_of_uid_eq consistent fun _ => rfl
  | setPrecision =>
      obtain ⟨change, kept, rfl⟩ := exists_modify_of_setPrecision performed
      exact isConsistent_modify_of_uid_eq consistent fun node => (kept node).1
  | overridePrecision =>
      obtain ⟨change, kept, rfl⟩ := exists_modify_of_overridePrecision performed
      exact isConsistent_modify_of_uid_eq consistent fun node => (kept node).1
  | edit id change =>
      cases performed
      exact isConsistent_modify_of_uid_eq consistent (Node.uid_edit change)

theorem mutate (consistent : graph.IsConsistent) (mutation : Mutation α) :
    (graph.mutate mutation).IsConsistent := by
  unfold Graph.mutate
  cases performed : graph.perform mutation with
  | ok => exact consistent.perform performed
  | error => exact consistent

theorem mutateAll (consistent : graph.IsConsistent) (mutations : List (Mutation α)) :
    (graph.mutateAll mutations).IsConsistent := by
  induction mutations generalizing graph with
  | nil => exact consistent
  | cons mutation rest induction => exact induction (consistent.mutate mutation)

end IsConsistent

/-! ## Any number of calls -/

/-- The graph `start` has been changed by calls, and on the way a number of nodes of the
allowed kinds have been created. -/
inductive Makes (allowed : OpKind → Prop) (start : Graph α) : Nat → Graph α → Prop where
  | none : Makes allowed start 0 start
  | add {count : Nat} {graph : Graph α} {draft : Draft α} {id : NodeId} {after : Graph α}
      (makes : Makes allowed start count graph) (allows : allowed draft.op.kind)
      (added : graph.add draft = .ok (id, after)) : Makes allowed start (count + 1) after
  | perform {count : Nat} {graph after : Graph α} {mutation : Mutation α}
      (makes : Makes allowed start count graph) (performed : graph.perform mutation = .ok after)
      (retains : graph.Retains after) : Makes allowed start count after

namespace Makes

variable {allowed : OpKind → Prop} {start : Graph α} {count : Nat}

theorem creates (makes : start.Makes allowed count after) :
    start.Creates allowed count after := by
  induction makes with
  | none => exact .none
  | add _ allows added induction => exact induction.add allows added
  | perform _ _ retains induction => exact induction.retain retains

theorem allows_kind (makes : start.Makes allowed count after)
    (copied : ∀ kind, start.kind? id = some kind → allowed kind) :
    ∀ kind, after.kind? id = some kind → allowed kind :=
  makes.creates.allows_kind copied

/-- Calls that create nothing leave nodes where they are or take them out. -/
theorem retains (makes : start.Makes allowed 0 after) : start.Retains after := by
  generalize none_made : 0 = count at makes
  induction makes with
  | none => exact .refl start
  | add => cases none_made
  | perform _ _ retains induction => exact (induction none_made).trans retains

theorem leadsTo (makes : start.Makes allowed count after) : start.LeadsTo after := by
  induction makes with
  | none => exact .refl start
  | add _ _ added induction => exact induction.perform (perform_add added)
  | perform _ performed _ induction => exact induction.perform performed

end Makes

end Graph

end QuantGraph
