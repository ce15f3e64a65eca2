import QuantGraph.Proofs.Dequantization.Restoration
import QuantGraph.Proofs.Joint.Narrowing

/-! Putting dequantization behind layers one after the other. Readers outside of the
subgraph read the ends of the chains; whatever else there was reads what it read. -/

namespace QuantGraph

namespace Graph

variable {before middle after graph : Graph α} {values : Dequantization α} {name : String}
  {withConvert : Bool} {chain : DequantizationChain} {id : NodeId}

/-! ## Reading the chains -/

/-- What a reader reads in place of an output. -/
def dequantized (chains : NodeId → Option DequantizationChain) (output : Output) : Output :=
  match chains output.node with
  | some chain => chain.tail
  | none => output

theorem mem_outsideReaders (subgraph : Subgraph) (layer : NodeId) {position : Nat}
    (wellFormed : graph.WellFormed) (bound : position < 256) :
    (id, UInt8.ofNat position) ∈ graph.outsideReaders subgraph layer ↔
      subgraph.contains id = false ∧
        ∃ output, (graph.inputs id)[position]? = some output ∧ output.node = layer := by
  have slot_eq : (UInt8.ofNat position).toNat = position := by
    rw [UInt8.toNat_ofNat']
    exact Nat.mod_eq_of_lt bound
  unfold outsideReaders
  rw [List.mem_filter, mem_consumers]
  constructor
  · rintro ⟨⟨edge, member, source, target, slot⟩, outside⟩
    refine ⟨by simpa using outside, edge.source, ?_, source⟩
    exact (wellFormed.exact id).getElem?_inputs.mpr
      ⟨edge, member, rfl, target, (congrArg UInt8.toNat slot).trans slot_eq⟩
  · rintro ⟨outside, output, read, isLayer⟩
    obtain ⟨edge, member, source, target, slot⟩ := (wellFormed.exact id).getElem?_inputs.mp read
    refine ⟨⟨edge, member, source ▸ isLayer, target, ?_⟩, by simpa using outside⟩
    exact UInt8.toNat_inj.mp (slot.trans slot_eq.symm)

theorem dequantized_of_none {chains : NodeId → Option DequantizationChain} {output : Output}
    (missing : chains output.node = none) : dequantized chains output = output := by
  rw [dequantized, missing]

theorem dequantized_of_some {chains : NodeId → Option DequantizationChain} {output : Output}
    (present : chains output.node = some chain) : dequantized chains output = chain.tail := by
  rw [dequantized, present]

variable {subgraph : Subgraph} {layer : NodeId}

/-- What was there reads a new source in place of a layer where it is not of the subgraph. -/
theorem Rereads.inputs_of_outside {source : Output} {attached : Graph α}
    (wellFormed : middle.WellFormed)
    (rereads : attached.Rereads (middle.outsideReaders subgraph layer) source after)
    (inputs_eq : attached.inputs id = middle.inputs id) :
    after.inputs id = if subgraph.contains id then middle.inputs id
      else (middle.inputs id).map fun output => if output.node = layer then source else output := by
  have bound : (middle.inputs id).length ≤ 256 := by
    rw [length_inputs]
    exact (wellFormed.exact id).inputCount_le
  rw [rereads.inputs_eq, inputs_eq]
  apply List.ext_getElem
  · split <;> simp
  · intro position inside _
    rw [List.length_mapIdx] at inside
    rw [List.getElem_mapIdx]
    have listed : (id, UInt8.ofNat position) ∈ middle.outsideReaders subgraph layer ↔ _ :=
      mem_outsideReaders subgraph layer wellFormed (Nat.lt_of_lt_of_le inside bound)
    rw [List.getElem?_eq_getElem inside] at listed
    by_cases member : subgraph.contains id = true
    · simp [member, listed]
    · simp [member, listed]

/-- Only the nodes in the list read anew. -/
theorem Rereads.sameAt {source : Output} {entries : List (NodeId × UInt8)}
    (rereads : before.Rereads entries source after)
    (unlisted : before.inputs id = [] ∨ ∀ slot, (id, slot) ∉ entries) :
    before.SameAt after id := by
  refine ⟨op?_congr (rereads.node_eq id), ?_⟩
  rw [rereads.inputs_eq]
  rcases unlisted with none_in | unlisted
  · rw [none_in]
    rfl
  · simp [unlisted, List.mapIdx_eq_zipIdx_map, List.zipIdx_map_fst]

theorem reads_of_mem_outsideReaders {slot : UInt8}
    (listed : (id, slot) ∈ graph.outsideReaders subgraph layer) :
    graph.Reads layer id ∧ subgraph.contains id = false := by
  obtain ⟨consumer, outside⟩ := List.mem_filter.mp listed
  obtain ⟨edge, member, source, target, _⟩ := mem_consumers.mp consumer
  exact ⟨⟨edge, member, source, target⟩, by simpa using outside⟩

variable [Scalar α] {cache : DequantizationCache α} {done : List NodeId}
  {chains : NodeId → Option DequantizationChain}

/-- A graph in which the members of a subgraph are what they were. -/
structure KeepsMembers (before : Graph α) (subgraph : Subgraph) (after : Graph α) : Prop where
  node_eq : ∀ id, before.contains id = true → after.node? id = before.node? id
  inputs_eq : ∀ id, before.contains id = true → subgraph.contains id = true →
    after.inputs id = before.inputs id
  wellFormed : after.WellFormed

/-- Dequantization has been put behind layers for their readers outside of the subgraph.
`chains` tells which. -/
structure Dequantizes (before : Graph α) (subgraph : Subgraph) (cache : DequantizationCache α)
    (withConvert : Bool) (done : List NodeId) (chains : NodeId → Option DequantizationChain)
    (after : Graph α) : Prop where
  node_eq : ∀ id, before.contains id = true → after.node? id = before.node? id
  inputs_eq : ∀ id, before.contains id = true → after.inputs id =
    if subgraph.contains id then before.inputs id else (before.inputs id).map (dequantized chains)
  chained_iff : ∀ layer, (∃ chain, chains layer = some chain) ↔
    layer ∈ done ∧ ∃ reader, before.Reads layer reader ∧ subgraph.contains reader = false
  holds : ∀ layer chain, chains layer = some chain → ∃ values middle,
    before.KeepsMembers subgraph middle ∧
      middle.carriedDequantization cache [] layer = .ok values ∧
      after.HoldsChain values layer.output withConvert chain
  fresh : ∀ layer chain, chains layer = some chain → ∀ node ∈ chain.stages,
    before.contains node = false
  cover : ∀ node, after.contains node = true → before.contains node = true ∨
    (∃ layer chain, chains layer = some chain ∧ node ∈ chain.stages) ∨
    ∃ tensor, after.op? node = some (.constant tensor) ∧ after.inputs node = []
  wellFormed : after.WellFormed

namespace Dequantizes

theorem refl (wellFormed : before.WellFormed) :
    before.Dequantizes subgraph cache withConvert [] (fun _ => none) before where
  node_eq := fun _ _ => rfl
  inputs_eq := by
    intro id _
    split
    · rfl
    · exact (List.map_id _).symm
  chained_iff := by simp
  holds := by simp
  fresh := by simp
  cover := fun _ live => Or.inl live
  wellFormed := wellFormed

theorem live (dequantizes : before.Dequantizes subgraph cache withConvert done chains after)
    (live : before.contains id = true) : after.contains id = true :=
  (contains_congr (dequantizes.node_eq id live)).trans live

theorem keepsMembers
    (dequantizes : before.Dequantizes subgraph cache withConvert done chains after) :
    before.KeepsMembers subgraph after where
  node_eq := dequantizes.node_eq
  inputs_eq := by
    intro id live member
    rw [dequantizes.inputs_eq id live, if_pos member]
  wellFormed := dequantizes.wellFormed

theorem tail_fresh
    (dequantizes : before.Dequantizes subgraph cache withConvert done chains after)
    (present : chains layer = some chain) : before.contains chain.tail.node = false := by
  obtain ⟨_, _, _, _, holds⟩ := dequantizes.holds _ chain present
  obtain ⟨last, member, tail⟩ := holds.tail_eq
  rw [tail]
  exact dequantizes.fresh _ chain present last member

theorem unchained
    (dequantizes : before.Dequantizes subgraph cache withConvert done chains after)
    (fresh : layer ∉ done) : chains layer = none := by
  cases present : chains layer with
  | none => rfl
  | some chain => exact absurd ((dequantizes.chained_iff layer).mp ⟨chain, present⟩).1 fresh

/-- What reads a layer: members that did, the first stage of its chain, and, as long as it
has no chain, whatever did. -/
theorem reads_layer
    (dequantizes : before.Dequantizes subgraph cache withConvert done chains after)
    (works : before.Works layer) {reader : NodeId} (reads : after.Reads layer reader) :
    before.Reads layer reader ∧ (subgraph.contains reader = true ∨ chains layer = none) ∨
      ∃ chain, chains layer = some chain ∧ chain.stages.head? = some reader := by
  have live := (dequantizes.wellFormed.consistent.reads_live reads).2
  rcases dequantizes.cover reader live with earlier | ⟨other, chain, present, member⟩ |
    ⟨tensor, _, none_in⟩
  · obtain ⟨output, read, rfl⟩ := reads_iff_mem_inputs.mp reads
    rw [dequantizes.inputs_eq reader earlier] at read
    split at read
    case isTrue member => exact Or.inl ⟨reads_of_mem_inputs read, Or.inl member⟩
    case isFalse =>
      obtain ⟨origin, listed, rfl⟩ := List.mem_map.mp read
      cases present : chains origin.node with
      | none =>
          rw [dequantized_of_none present] at works ⊢
          exact Or.inl ⟨reads_of_mem_inputs listed, Or.inr present⟩
      | some chain =>
          have dead := dequantizes.tail_fresh present
          rw [dequantized_of_some present] at works
          rw [works.1] at dead
          cases dead
  · obtain ⟨values, _, _, _, holds⟩ := dequantizes.holds other chain present
    rcases holds.reads_stage member reads with ⟨rfl, first⟩ | stage | ⟨tensor, constant⟩
    · exact Or.inr ⟨chain, present, first⟩
    · have dead := dequantizes.fresh other chain present layer stage
      rw [works.1] at dead
      cases dead
    · rw [op?_congr (dequantizes.node_eq layer works.1), ← constant?_eq_some_iff, works.2]
        at constant
      cases constant
  · rw [reads_iff_mem_inputs, none_in] at reads
    simp at reads

/-- A layer that nothing outside of the subgraph reads gets no chain. -/
theorem skip (dequantizes : before.Dequantizes subgraph cache withConvert done chains after)
    (wellFormed : before.WellFormed) (fresh : layer ∉ done)
    (none_outside : after.outsideReaders subgraph layer = []) :
    before.Dequantizes subgraph cache withConvert (done ++ [layer]) chains after where
  node_eq := dequantizes.node_eq
  inputs_eq := dequantizes.inputs_eq
  chained_iff := by
    intro other
    rw [dequantizes.chained_iff, List.mem_append, List.mem_singleton]
    constructor
    · rintro ⟨member, reader⟩
      exact ⟨Or.inl member, reader⟩
    · rintro ⟨member | rfl, reader, reads, outside⟩
      · exact ⟨member, reader, reads, outside⟩
      · have unchained := dequantizes.unchained fresh
        obtain ⟨output, read, rfl⟩ := reads_iff_mem_inputs.mp reads
        obtain ⟨position, found⟩ := List.mem_iff_getElem?.mp read
        have live := live_of_reads wellFormed reads
        have still : (after.inputs reader)[position]? = some output := by
          rw [dequantizes.inputs_eq reader live, if_neg (by simp [outside]), List.getElem?_map,
            found, Option.map_some, dequantized_of_none unchained]
        have bound : position < 256 := by
          have inside := (List.getElem?_eq_some_iff.mp found).1
          rw [length_inputs] at inside
          exact Nat.lt_of_lt_of_le inside (wellFormed.exact reader).inputCount_le
        have listed := (mem_outsideReaders subgraph output.node dequantizes.wellFormed bound).mpr
          ⟨outside, output, still, rfl⟩
        rw [none_outside] at listed
        cases listed
  holds := dequantizes.holds
  fresh := dequantizes.fresh
  cover := dequantizes.cover
  wellFormed := dequantizes.wellFormed

/-- A layer that is read outside of the subgraph gets a chain. -/
theorem attach (dequantizes : before.Dequantizes subgraph cache withConvert done chains middle)
    (wellFormed : before.WellFormed) (works : before.Works layer) (fresh : layer ∉ done)
    {attached : Graph α} (some_outside : middle.outsideReaders subgraph layer ≠ [])
    (carried : middle.carriedDequantization cache [] layer = .ok values)
    (attaches : middle.Attaches values layer.output name withConvert chain attached)
    (rereads : attached.Rereads (middle.outsideReaders subgraph layer) chain.tail after) :
    before.Dequantizes subgraph cache withConvert (done ++ [layer])
      (fun other => if other = layer then some chain else chains other) after := by
  obtain ⟨extension, attachedHolds⟩ := attaches.extends dequantizes.wellFormed
  have unchained := dequantizes.unchained fresh
  have readers {reader : NodeId} {slot : UInt8}
      (listed : (reader, slot) ∈ middle.outsideReaders subgraph layer) :
      before.Reads layer reader := by
    rcases dequantizes.reads_layer works (reads_of_mem_outsideReaders listed).1 with
      ⟨reads, _⟩ | ⟨chain, present, _⟩
    · exact reads
    · rw [unchained] at present
      cases present
  have kept_constant (node : NodeId) (tensor : Tensor α)
      (isOp : middle.op? node = some (.constant tensor)) (none_in : middle.inputs node = []) :
      middle.SameAt after node := by
    have same := extension.grows.sameAt (contains_of_op? isOp)
    have later := rereads.sameAt (Or.inl (same.2.trans none_in))
    exact ⟨later.1.trans same.1, later.2.trans same.2⟩
  exact
    { node_eq := by
        intro id live
        rw [rereads.node_eq, extension.grows.node_eq id (dequantizes.live live),
          dequantizes.node_eq id live]
      inputs_eq := by
        intro id live
        rw [rereads.inputs_of_outside dequantizes.wellFormed
          (extension.grows.inputs_eq (dequantizes.live live)), dequantizes.inputs_eq id live]
        split
        case isTrue => rfl
        case isFalse =>
          rw [List.map_map]
          refine List.map_congr_left fun output _ => ?_
          rw [Function.comp_apply]
          by_cases isLayer : output.node = layer
          · rw [dequantized_of_none (by rw [isLayer, unchained]), if_pos isLayer,
              dequantized_of_some (by rw [if_pos isLayer])]
          · cases present : chains output.node with
            | none =>
                rw [dequantized_of_none present, if_neg isLayer,
                  dequantized_of_none (by rw [if_neg isLayer, present])]
            | some earlier =>
                have different : earlier.tail.node ≠ layer := by
                  intro equal
                  have dead := dequantizes.tail_fresh present
                  rw [equal, works.1] at dead
                  cases dead
                rw [dequantized_of_some present, if_neg different,
                  dequantized_of_some (by rw [if_neg isLayer, present])]
      chained_iff := by
        intro other
        rw [List.mem_append, List.mem_singleton]
        by_cases isLayer : other = layer
        · subst isLayer
          obtain ⟨⟨reader, slot⟩, listed⟩ := List.exists_mem_of_ne_nil _ some_outside
          simp only [if_true, or_true, true_and, Option.some.injEq, exists_eq', true_iff]
          exact ⟨reader, readers listed, (reads_of_mem_outsideReaders listed).2⟩
        · rw [if_neg isLayer, dequantizes.chained_iff]
          simp [isLayer]
      holds := by
        intro other found present
        by_cases isLayer : other = layer
        · rw [if_pos isLayer, Option.some.injEq] at present
          subst present isLayer
          refine ⟨values, middle, dequantizes.keepsMembers, carried, attachedHolds.congr ?_ ?_⟩
          · intro node member _
            refine rereads.sameAt (Or.inr fun slot listed => ?_)
            have dead := extension.fresh node member
            rw [dequantizes.live (live_of_reads wellFormed (readers listed))] at dead
            cases dead
          · exact fun node tensor _ none_in => rereads.sameAt (Or.inl none_in)
        · rw [if_neg isLayer] at present
          obtain ⟨values, earlier, keeps, carried, holds⟩ := dequantizes.holds other found present
          refine ⟨values, earlier, keeps, carried, holds.congr ?_ kept_constant⟩
          intro node member live
          have same := extension.grows.sameAt live
          have later : attached.SameAt after node := by
            refine rereads.sameAt (Or.inr fun slot listed => ?_)
            have dead := dequantizes.fresh other found present node member
            rw [live_of_reads wellFormed (readers listed)] at dead
            cases dead
          exact ⟨later.1.trans same.1, later.2.trans same.2⟩
      fresh := by
        intro other found present node member
        by_cases isLayer : other = layer
        · rw [if_pos isLayer, Option.some.injEq] at present
          subst present
          refine Bool.eq_false_iff.mpr fun live => ?_
          have dead := extension.fresh node member
          rw [dequantizes.live live] at dead
          cases dead
        · rw [if_neg isLayer] at present
          exact dequantizes.fresh other found present node member
      cover := by
        intro node live
        rw [contains_congr (rereads.node_eq node)] at live
        rcases extension.cover node live with earlier | member | ⟨tensor, isOp, none_in⟩
        · rcases dequantizes.cover node earlier with first | ⟨other, found, present, member⟩ |
            ⟨tensor, isOp, none_in⟩
          · exact Or.inl first
          · refine Or.inr (Or.inl ⟨other, found, ?_, member⟩)
            rw [if_neg, present]
            rintro rfl
            rw [unchained] at present
            cases present
          · have same := kept_constant node tensor isOp none_in
            exact Or.inr (Or.inr ⟨tensor, same.1.trans isOp, same.2.trans none_in⟩)
        · exact Or.inr (Or.inl ⟨layer, chain, if_pos rfl, member⟩)
        · have same : attached.SameAt after node := rereads.sameAt (Or.inl none_in)
          exact Or.inr (Or.inr ⟨tensor, same.1.trans isOp, same.2.trans none_in⟩)
      wellFormed := rereads.wellFormed }

private theorem of_rest {rest : List NodeId} (wellFormed : before.WellFormed)
    (dequantizes : before.Dequantizes subgraph cache withConvert done chains middle)
    (sequence : Revision.Sequence (fun layer (left right : Graph α) =>
      left.DequantizesLayer subgraph cache withConvert layer right) rest middle after)
    (nodup : (done ++ rest).Nodup) (works : ∀ layer ∈ rest, before.Works layer) :
    ∃ chains, before.Dequantizes subgraph cache withConvert (done ++ rest) chains after := by
  induction sequence generalizing done chains with
  | nil => exact ⟨chains, by rw [List.append_nil]; exact dequantizes⟩
  | @cons layer tail middle next after taken _ induction =>
      have fresh : layer ∉ done := by
        rw [List.nodup_append] at nodup
        exact fun listed => nodup.2.2 _ listed _ List.mem_cons_self rfl
      have regroup : done ++ layer :: tail = (done ++ [layer]) ++ tail := by simp
      have tail_works : ∀ other ∈ tail, before.Works other :=
        fun other member => works other (List.mem_cons_of_mem layer member)
      rw [regroup] at nodup ⊢
      rcases taken with ⟨none_outside, rfl⟩ |
        ⟨values, chain, attached, some_outside, carried, attaches, rereads⟩
      · exact induction (dequantizes.skip wellFormed fresh none_outside) nodup tail_works
      · exact induction (dequantizes.attach wellFormed (works layer List.mem_cons_self) fresh
          some_outside carried attaches rereads) nodup tail_works

/-- Dequantization behind one layer after the other. -/
theorem of_sequence {layers : List NodeId} (wellFormed : before.WellFormed)
    (sequence : Revision.Sequence (fun layer (left right : Graph α) =>
      left.DequantizesLayer subgraph cache withConvert layer right) layers before after)
    (nodup : layers.Nodup) (works : ∀ layer ∈ layers, before.Works layer) :
    ∃ chains, before.Dequantizes subgraph cache withConvert layers chains after :=
  of_rest wellFormed (.refl wellFormed) sequence nodup works

end Dequantizes

end Graph

end QuantGraph
