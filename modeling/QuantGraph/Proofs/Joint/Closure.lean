import Mathlib
import QuantGraph.Proofs.Graph.Construction
import QuantGraph.Proofs.Joint.Subgraph
import QuantGraph.Scalar.Exact

/-! The subgraph around a Concat as a closure: the least set with the Concat that has, with a
Concat, all that it reads, with pooling, its data, and with any member, the Concats that read it.
The search finds just this set, or it stops at a member that cannot take part. -/

namespace QuantGraph

namespace Subgraph

variable {graph : Graph α} {registry : Registry} {concat id : NodeId}
  {visits next rest : List Visit} {subgraph grown : Subgraph}

/-! ## The closure -/

/-- A node belongs to the surroundings of a Concat. -/
inductive Joins (graph : Graph α) (concat : NodeId) : NodeId → Prop where
  | start : Joins graph concat concat
  | input {member : NodeId} {output : Output} (joins : Joins graph concat member)
      (isConcat : graph.kind? member = some .concat) (read : output ∈ graph.inputs member) :
      Joins graph concat output.node
  | data {member parent : NodeId} {kind : OpKind} (joins : Joins graph concat member)
      (isKind : graph.kind? member = some kind) (intermediate : isIntermediate kind = true)
      (read : graph.inputNode? member 0 = some parent) : Joins graph concat parent
  | reader {member reader : NodeId} (joins : Joins graph concat member)
      (reads : graph.Reads member reader) (isConcat : graph.kind? reader = some .concat) :
      Joins graph concat reader

/-- A node can take part in a joint quantization: a fake quantization, a Concat, or pooling that
keeps the precision of its data. -/
def Admits (registry : Registry) (graph : Graph α) (id : NodeId) : Prop :=
  ∃ kind, graph.kind? id = some kind ∧
    (kind = .fakeQuantize ∨ kind = .concat ∨
      isIntermediate kind = true ∧ registry.preservesPrecision graph id = true ∧
        ∃ parent, graph.inputNode? id 0 = some parent)

/-- The obstacle is a node that cannot take part. -/
def Blames (registry : Registry) (graph : Graph α) (obstacle : SubgraphObstacle)
    (id : NodeId) : Prop :=
  ¬ Admits registry graph id ∧
    (obstacle = .foreignInput (graph.name id) (graph.kind? id) ∨
      obstacle = .noDataInput (graph.name id) ∧ graph.inputNode? id 0 = none)

/-! ## What a search has gathered -/

/-- A visit stays inside of the closure. -/
def Visit.Within (graph : Graph α) (concat : NodeId) : Visit → Prop
  | .concat id => Joins graph concat id ∧ graph.kind? id = some .concat
  | .parent id => Joins graph concat id
  | .readers id => Joins graph concat id

/-- What a search has found belongs to the closure, can take part, and is listed by its role. -/
structure Gathers (registry : Registry) (graph : Graph α) (concat : NodeId)
    (visits : List Visit) (subgraph : Subgraph) : Prop where
  joins : ∀ id ∈ subgraph.layers, Joins graph concat id
  admitted : ∀ id ∈ subgraph.layers, Admits registry graph id
  within : ∀ visit ∈ visits, visit.Within graph concat
  quantizers_eq :
    subgraph.quantizers = subgraph.layers.filter fun id => graph.isKind id .fakeQuantize
  concats_eq : subgraph.concats = subgraph.layers.filter fun id => graph.isKind id .concat
  head : subgraph.concats.head? = some concat

namespace Gathers

/-- Other visits inside of the closure may take the place of some. -/
theorem advance (gathers : Gathers registry graph concat visits subgraph)
    (within : ∀ visit ∈ next, visit.Within graph concat) :
    Gathers registry graph concat next subgraph :=
  { gathers with within := within }

theorem skip {visit : Visit} (gathers : Gathers registry graph concat (visit :: rest) subgraph) :
    Gathers registry graph concat rest subgraph :=
  gathers.advance fun other member => gathers.within other (List.mem_cons_of_mem visit member)

/-- A node of the closure that can take part becomes a member. -/
theorem grow {visit : Visit} (grown : Subgraph) (more : List Visit)
    (gathers : Gathers registry graph concat (visit :: rest) subgraph)
    (joins : Joins graph concat id) (admitted : Admits registry graph id)
    (layers_eq : grown.layers = subgraph.layers ++ [id])
    (quantizers_eq : grown.quantizers =
      subgraph.quantizers ++ [id].filter fun id => graph.isKind id .fakeQuantize)
    (concats_eq : grown.concats =
      subgraph.concats ++ [id].filter fun id => graph.isKind id .concat)
    (within : ∀ visit ∈ more, visit.Within graph concat) :
    Gathers registry graph concat (more ++ rest) grown where
  joins := by
    rw [layers_eq]
    intro other member
    rcases List.mem_append.mp member with member | member
    · exact gathers.joins other member
    · exact List.mem_singleton.mp member ▸ joins
  admitted := by
    rw [layers_eq]
    intro other member
    rcases List.mem_append.mp member with member | member
    · exact gathers.admitted other member
    · exact List.mem_singleton.mp member ▸ admitted
  within := by
    intro other member
    rcases List.mem_append.mp member with member | member
    · exact within other member
    · exact gathers.within other (List.mem_cons_of_mem visit member)
  quantizers_eq := by rw [quantizers_eq, layers_eq, List.filter_append, gathers.quantizers_eq]
  concats_eq := by rw [concats_eq, layers_eq, List.filter_append, gathers.concats_eq]
  head := by rw [concats_eq, List.head?_append, gathers.head, Option.some_or]

end Gathers

/-! ## The search -/

/-- What follows the visit to a Concat stays inside of the closure. -/
private theorem within_of_concat (joins : Joins graph concat id)
    (isConcat : graph.kind? id = some .concat) {visit : Visit}
    (member : visit ∈ (graph.inputs id).map (fun output => .parent output.node) ++ [.readers id]) :
    visit.Within graph concat := by
  rcases List.mem_append.mp member with member | member
  · obtain ⟨output, read, rfl⟩ := List.mem_map.mp member
    exact .input joins isConcat read
  · cases List.mem_singleton.mp member
    exact joins

private theorem gathers_begin (registry : Registry)
    (isConcat : graph.kind? concat = some .concat) :
    Gathers registry graph concat
      ((graph.inputs concat).map (fun output => .parent output.node) ++ [.readers concat])
      (({} : Subgraph).addConcat concat) where
  joins := by
    intro id member
    cases List.mem_singleton.mp member
    exact .start
  admitted := by
    intro id member
    cases List.mem_singleton.mp member
    exact ⟨.concat, isConcat, Or.inr (Or.inl rfl)⟩
  within := fun _ member => within_of_concat .start isConcat member
  quantizers_eq := by simp [addConcat, addLayer, Graph.isKind, isConcat]
  concats_eq := by simp [addConcat, addLayer, Graph.isKind, isConcat]
  head := rfl

/-- A search that comes to its end has stayed inside of the closure, and one that stops blames a
node of the closure. -/
theorem gathers_explore (gathers : Gathers registry graph concat visits subgraph) :
    match explore registry graph visits subgraph with
    | (.ok (), grown) => Gathers registry graph concat [] grown
    | (.error obstacle, _) =>
        ∃ id, Joins graph concat id ∧ Blames registry graph obstacle id := by
  induction visits, subgraph using explore.induct registry graph with
  | case1 subgraph =>
      rw [explore]
      exact gathers
  | case2 subgraph id rest fresh induction =>
      rw [explore, dif_pos fresh]
      refine induction ?_
      obtain ⟨joins, isConcat⟩ := gathers.within _ List.mem_cons_self
      have grows := gathers.grow (subgraph.addConcat id)
        ((graph.inputs id).map (fun output => .parent output.node) ++ [.readers id]) joins
        ⟨.concat, isConcat, Or.inr (Or.inl rfl)⟩ rfl
        (by simp [addConcat, addLayer, Graph.isKind, isConcat])
        (by simp [addConcat, Graph.isKind, isConcat])
        (fun _ member => within_of_concat joins isConcat member)
      rwa [List.append_assoc] at grows
  | case3 subgraph id rest known induction =>
      rw [explore, dif_neg known]
      exact induction gathers.skip
  | case4 subgraph id rest induction =>
      rw [explore]
      refine induction (gathers.advance ?_)
      intro visit member
      rcases List.mem_append.mp member with member | member
      · obtain ⟨reader, listed, rfl⟩ := List.mem_map.mp member
        obtain ⟨reads, _, isConcat⟩ := mem_newConcats.mp listed
        exact ⟨.reader (gathers.within _ List.mem_cons_self) reads isConcat, isConcat⟩
      · exact gathers.within visit (List.mem_cons_of_mem _ member)
  | case5 subgraph id rest known induction =>
      rw [explore, dif_pos known]
      exact induction gathers.skip
  | case6 subgraph id rest fresh missing =>
      rw [explore_parent fresh, missing]
      refine ⟨id, gathers.within _ List.mem_cons_self, ?_, Or.inl (missing ▸ rfl)⟩
      rintro ⟨kind, isKind, _⟩
      cases missing.symm.trans isKind
  | case7 subgraph id rest fresh kind induction =>
      rw [explore_parent fresh, kind]
      have joins := gathers.within _ List.mem_cons_self
      exact induction (gathers.grow (subgraph.addQuantizer id) [.readers id] joins
        ⟨.fakeQuantize, kind, Or.inl rfl⟩ rfl (by simp [addQuantizer, Graph.isKind, kind])
        (by simp [addQuantizer, addLayer, Graph.isKind, kind])
        (fun visit member => List.mem_singleton.mp member ▸ joins))
  | case8 subgraph id rest fresh kind _ induction =>
      rw [explore_parent fresh, kind]
      refine induction (gathers.advance ?_)
      intro visit member
      rcases List.mem_cons.mp member with rfl | member
      · exact ⟨gathers.within _ List.mem_cons_self, kind⟩
      · exact gathers.within visit (List.mem_cons_of_mem _ member)
  | case9 subgraph id rest fresh kind isKind not_quantizer not_concat passes missing =>
      rw [explore_parent fresh, isKind]
      dsimp only
      rw [if_neg not_quantizer, if_neg not_concat, if_pos passes, missing]
      refine ⟨id, gathers.within _ List.mem_cons_self, ?_, Or.inr ⟨rfl, missing⟩⟩
      rintro ⟨other, other_is, quantizes | concats | ⟨_, _, parent, read⟩⟩
      · exact not_quantizer (Option.some.inj (isKind.symm.trans other_is) ▸ quantizes)
      · exact not_concat (Option.some.inj (isKind.symm.trans other_is) ▸ concats)
      · cases missing.symm.trans read
  | case10 subgraph id rest fresh kind isKind not_quantizer not_concat passes parent read
      induction =>
      rw [explore_parent fresh, isKind]
      dsimp only
      rw [if_neg not_quantizer, if_neg not_concat, if_pos passes, read]
      have joins := gathers.within _ List.mem_cons_self
      obtain ⟨intermediate, preserves⟩ := (Bool.and_eq_true ..).mp passes
      refine induction (gathers.grow (subgraph.addLayer id) [.parent parent, .readers id] joins
        ⟨kind, isKind, Or.inr (Or.inr ⟨intermediate, preserves, parent, read⟩)⟩ rfl
        (by simp [addLayer, Graph.isKind, isKind, not_quantizer])
        (by simp [addLayer, Graph.isKind, isKind, not_concat]) ?_)
      intro visit member
      rcases List.mem_pair.mp member with rfl | rfl
      · exact .data joins isKind intermediate read
      · exact joins
  | case11 subgraph id rest fresh kind isKind not_quantizer not_concat blocked =>
      rw [explore_parent fresh, isKind]
      dsimp only
      rw [if_neg not_quantizer, if_neg not_concat, if_neg blocked]
      refine ⟨id, gathers.within _ List.mem_cons_self, ?_, Or.inl (isKind ▸ rfl)⟩
      rintro ⟨other, other_is, admitted⟩
      cases isKind.symm.trans other_is
      rcases admitted with quantizes | concats | ⟨intermediate, preserves, _⟩
      · exact not_quantizer quantizes
      · exact not_concat concats
      · exact blocked ((Bool.and_eq_true ..).mpr ⟨intermediate, preserves⟩)

/-! ## The whole closure -/

/-- With nothing left to visit, a member of the closure has been found. -/
theorem Discovers.mem_of_joins (discovers : Discovers graph [] subgraph)
    (start : concat ∈ subgraph.layers) (joins : Joins graph concat id) : id ∈ subgraph.layers := by
  have settled {other : NodeId} (due : Due [] subgraph other) : other ∈ subgraph.layers :=
    due.resolve_right (by simp)
  induction joins with
  | start => exact start
  | input _ isConcat read induction =>
      rcases discovers.layer_kind _ induction with ⟨kind, _⟩ | ⟨_, listed⟩ | ⟨kind, isKind, pools⟩
      · exact nomatch isConcat.symm.trans kind
      · exact settled (discovers.inputs _ listed _ read)
      · cases isConcat.symm.trans isKind
        cases pools
  | data _ isKind intermediate read induction =>
      obtain ⟨parent, also_read, due⟩ := discovers.data _ induction _ isKind intermediate
      cases read.symm.trans also_read
      exact settled due
  | reader _ reads isConcat induction =>
      rcases discovers.readers _ induction with pending | all
      · cases pending
      · exact settled (all _ reads isConcat)

/-- What the discovery of the surroundings of a Concat comes to. -/
private theorem explored_cases (registry : Registry)
    (isConcat : graph.kind? concat = some .concat) :
    match explored registry graph concat {} with
    | (.ok (), grown) =>
        Gathers registry graph concat [] grown ∧ grown.layers.Nodup ∧
          ∀ id, id ∈ grown.layers ↔ Joins graph concat id
    | (.error obstacle, _) =>
        ∃ id, Joins graph concat id ∧ Blames registry graph obstacle id := by
  have live := Graph.contains_of_kind? isConcat
  have start : explored registry graph concat {} = explore registry graph [.concat concat] {} := by
    rw [explored, if_pos (by simp [live])]
  have first : explore registry graph [.concat concat] {} =
      explore registry graph
        ((graph.inputs concat).map (fun output => .parent output.node) ++ [.readers concat])
        (({} : Subgraph).addConcat concat) := by
    rw [explore, dif_pos ⟨live, List.not_mem_nil⟩]
  have gathers := gathers_explore (gathers_begin registry isConcat)
  rw [start]
  rcases result : explore registry graph [.concat concat] {} with ⟨_ | ⟨⟩, grown⟩
  · rwa [← first, result] at gathers
  · rw [← first, result] at gathers
    have discovers := discovers_explore (.begin isConcat) result
    have listed : concat ∈ grown.concats := List.mem_of_mem_head? gathers.head
    exact ⟨gathers, discovers.nodup, fun id =>
      ⟨gathers.joins id, discovers.mem_of_joins (discovers.concat_layer concat listed).1⟩⟩

/-- The surroundings of a Concat are found just when all their nodes can take part. Then each of
them is listed once, the fake quantizations and the Concats apart and the Concat first. Otherwise
the error is about one of those that cannot, and concerns no other revision. -/
theorem explored_exact (registry : Registry) (graph : Graph α) (concat : NodeId)
    (isConcat : graph.kind? concat = some .concat) :
    ((explored registry graph concat {}).1 = .ok () ↔
      ∀ id, Joins graph concat id → Admits registry graph id) ∧
    (∀ subgraph, explored registry graph concat {} = (.ok (), subgraph) →
      subgraph.layers.Nodup ∧ (∀ id, id ∈ subgraph.layers ↔ Joins graph concat id) ∧
      subgraph.quantizers = subgraph.layers.filter (fun id => graph.isKind id .fakeQuantize) ∧
      subgraph.concats = subgraph.layers.filter (fun id => graph.isKind id .concat) ∧
      subgraph.concats.head? = some concat) ∧
    ∀ obstacle, (explored registry graph concat {}).1 = .error obstacle →
      (∃ id, Joins graph concat id ∧ Blames registry graph obstacle id) ∧
      (RevisionError.subgraph obstacle).isRecoverable = true := by
  have cases := explored_cases registry isConcat
  rcases result : explored registry graph concat {} with ⟨obstacle | ⟨⟩, grown⟩
  · rw [result] at cases
    obtain ⟨id, joins, blames⟩ := cases
    refine ⟨⟨fun found => (nomatch found), fun all => absurd (all id joins) blames.1⟩,
      fun _ found => (nomatch found), ?_⟩
    rintro _ ⟨⟩
    exact ⟨⟨id, joins, blames⟩, rfl⟩
  · rw [result] at cases
    obtain ⟨gathers, nodup, listed⟩ := cases
    refine ⟨⟨fun _ id joins => gathers.admitted id ((listed id).mpr joins), fun _ => rfl⟩,
      ?_, fun _ failed => (nomatch failed)⟩
    rintro _ ⟨⟩
    exact ⟨nodup, listed, gathers.quantizers_eq, gathers.concats_eq, gathers.head⟩

/-- Two branches of a fake quantization, one of them pooled, that meet in a Concat and once more
behind it. -/
def nestedConcats : List (Draft Rat) :=
  let pixel := (NodeId.mk 0).output
  let low := (NodeId.mk 1).output
  let high := (NodeId.mk 2).output
  [{ op := .parameter, name := "pixel"
     declared := some { elementType := .f32, shape := [1, 1, 2, 2] } },
    (Op.constant (.scalar .f32 0)).draft "low",
    (Op.constant (.scalar .f32 255)).draft "high",
    ((Op.fakeQuantize 256).draft "levels").readOutputs [pixel, low, high, low, high],
    ((Op.maxPool { height := 1, width := 1 }).draft "largest").readAll [NodeId.mk 3],
    ((Op.concat 1).draft "inner").readAll [NodeId.mk 4, NodeId.mk 3],
    ((Op.concat 1).draft "outer").readAll [NodeId.mk 3, NodeId.mk 5],
    (Op.result.draft "output").readAll [NodeId.mk 6]]

theorem explored_exact_nestedConcats :
    ∃ graph : Graph Rat, Graph.empty.addAll nestedConcats = .ok graph ∧
      graph.kind? (NodeId.mk 5) = some .concat ∧
      (∀ id, Joins graph (NodeId.mk 5) id → Admits (.all {}) graph id) ∧
      ∀ id, Joins graph (NodeId.mk 5) id ↔
        id ∈ [NodeId.mk 5, NodeId.mk 4, NodeId.mk 3, NodeId.mk 6] := by
  have made : (Graph.empty.addAll nestedConcats).map (fun graph =>
      (graph.kind? (NodeId.mk 5), explored (.all {}) graph (NodeId.mk 5) {})) =
      .ok (some .concat, (.ok (),
        { quantizers := [NodeId.mk 3], concats := [NodeId.mk 5, NodeId.mk 6]
          layers := [NodeId.mk 5, NodeId.mk 4, NodeId.mk 3, NodeId.mk 6] })) := by decide +kernel
  obtain ⟨graph, added, facts⟩ := Outcome.map_eq_ok.mp made
  obtain ⟨isConcat, found⟩ := Prod.mk.inj facts
  obtain ⟨finds, listed, _⟩ := explored_exact (.all {}) graph (NodeId.mk 5) isConcat
  exact ⟨graph, added, isConcat, finds.mp (congrArg Prod.fst found),
    fun id => ((listed _ found).2.1 id).symm⟩

end Subgraph

end QuantGraph
