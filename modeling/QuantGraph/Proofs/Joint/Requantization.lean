import QuantGraph.Proofs.Joint.Narrowing

/-! Narrowing several fake quantizations. New nodes take their places; every other
operation stays where it stands and reads what it read, with the new nodes for the
old ones. -/

namespace QuantGraph

/-- A fake quantization with the limits and the precision that it is given, and the
dequantization that is kept for it. -/
structure Narrowing (α : Type) where
  id : NodeId
  values : Dequantization α
  precision : ElementType
  min : α
  max : α

namespace Graph

/-- How a fake quantization is found after some have been narrowed, it among them. -/
def HoldsNarrowed (before : Graph α) (others : List NodeId) (narrowing : Narrowing α)
    (moved : NodeId → NodeId) (after : Graph α) : Prop :=
  ∃ view node low high, before.fakeQuantizeNode narrowing.id = .ok view ∧
    after.node? (moved narrowing.id) = some node ∧
    node.op = view.node.op ∧ node.relaxed = true ∧ node.precision = some narrowing.precision ∧
    (view.data.node ∉ others → some node.shape = before.shape? view.data.node) ∧
    after.inputs (moved narrowing.id) =
      [relocated moved view.data, relocated moved view.inputLow, relocated moved view.inputHigh,
        low.output, high.output] ∧
    after.constant? low = some (.scalar view.node.outputType narrowing.min) ∧
    after.constant? high = some (.scalar view.node.outputType narrowing.max)

/-- Some fake quantizations have been narrowed. `moved` says where the operations
have gone. -/
structure Requantizes (before : Graph α) (narrowings : List (Narrowing α))
    (moved : NodeId → NodeId) (after : Graph α) : Prop where
  moved_other : ∀ id, id ∉ narrowings.map Narrowing.id → moved id = id
  injective : ∀ left right, before.Works left → before.Works right →
    moved left = moved right → left = right
  works_iff : ∀ id, after.Works id ↔ ∃ origin, before.Works origin ∧ moved origin = id
  node_other : ∀ id, before.Works id → id ∉ narrowings.map Narrowing.id →
    after.node? id = before.node? id
  inputs_other : ∀ id, before.Works id → id ∉ narrowings.map Narrowing.id →
    after.inputs id = (before.inputs id).map (relocated moved)
  narrowed : ∀ narrowing ∈ narrowings,
    before.HoldsNarrowed (narrowings.map Narrowing.id) narrowing moved after
  constant_kept : ∀ id position output tensor, before.Works id →
    (before.inputs id)[position]? = some output →
    (id ∈ narrowings.map Narrowing.id → position < 3) →
    before.constant? output.node = some tensor → after.node? output.node = before.node? output.node
  constants : after.ConstantsReadNothing
  wellFormed : after.WellFormed

variable {before middle after : Graph α} {moved later : NodeId → NodeId}

theorem HasConstantLimits.works_of_view {id : NodeId} {view : FakeQuantizeNode α}
    (isView : before.fakeQuantizeNode id = .ok view) : before.Works id := by
  obtain ⟨present, isOp, _⟩ := fakeQuantizeNode_eq_ok isView
  refine ⟨contains_of_node? present, ?_⟩
  rw [constant?, present, Option.bind_some, Node.constant?, isOp]
  rfl

theorem Requantizes.refl (wellFormed : before.WellFormed) (constants : before.ConstantsReadNothing) :
    before.Requantizes [] (fun id => id) before where
  moved_other := fun _ _ => rfl
  injective := fun _ _ _ _ equal => equal
  works_iff := fun id => ⟨fun works => ⟨id, works, rfl⟩, fun ⟨_, works, equal⟩ => equal ▸ works⟩
  node_other := fun _ _ _ => rfl
  inputs_other := by
    intro id _ _
    simp
  narrowed := by simp
  constant_kept := fun _ _ _ _ _ _ _ _ => rfl
  constants := constants
  wellFormed := wellFormed

theorem Narrows.requantizes {narrowing : Narrowing α} {narrowed : NodeId}
    (narrows : before.Narrows narrowing.id narrowing.precision narrowing.min narrowing.max
      narrowed after)
    (wellFormed : before.WellFormed) (constants : before.ConstantsReadNothing)
    (limits : before.HasConstantLimits narrowing.id) :
    before.Requantizes [narrowing] (moving narrowing.id narrowed) after := by
  obtain ⟨view, low, high, node, drafted, isView, drafts, replaces⟩ :=
    narrows.exists_drafted wellFormed
  obtain ⟨present, isOp, inputs⟩ := fakeQuantizeNode_eq_ok isView
  have works_id := HasConstantLimits.works_of_view isView
  have gone : after.contains narrowing.id = false := by
    refine replaces.gone ⟨.fakeQuantize, ?_, rfl⟩
    rw [kind?, drafts.grows.node_eq _ works_id.1, present, Option.map_some, Node.kind, isOp]
    rfl
  have kept (other : NodeId) (works : before.Works other) (different : other ≠ narrowing.id) :
      after.contains other = true :=
    drafts.keeps_works replaces isView wellFormed constants limits works different
  have node_eq (other : NodeId) (live : before.contains other = true)
      (stays : after.contains other = true) : after.node? other = before.node? other :=
    (replaces.node_eq stays).trans (drafts.grows.node_eq other live)
  have inputs_eq (other : NodeId) (live : before.contains other = true)
      (stays : after.contains other = true) :
      after.inputs other =
        (before.inputs other).map (relocated (moving narrowing.id narrowed)) :=
    (replaces.sheds.inputs_eq stays).trans (drafts.inputs_redirected live)
  have narrowed_node : after.node? narrowed = some node :=
    (replaces.node_eq (drafts.keeps_narrowed replaces works_id.1)).trans drafts.node_new
  have narrowed_works : after.Works narrowed := by
    have kind : after.kind? narrowed = some .fakeQuantize := by
      rw [kind?, narrowed_node, Option.map_some, Node.kind, drafts.op_eq]
      rfl
    exact .of_kind kind (by decide)
  have unmoved (output : Output) (member : output ∈ before.inputs narrowing.id) :
      relocated (moving narrowing.id narrowed) output = output := by
    refine relocated_of_moved_eq (if_neg fun equal => ?_)
    have loop := reads_of_mem_inputs member
    rw [equal] at loop
    exact wellFormed.acyclic _ (Relation.TransGen.single loop)
  rw [inputs] at unmoved
  exact
    { moved_other := by
        intro other absent
        exact if_neg (by simpa using absent)
      injective := by
        intro left right leftWorks rightWorks equal
        unfold moving at equal
        split at equal <;> split at equal
        · exact Eq.trans ‹_› (Eq.symm ‹_›)
        · exact absurd equal.symm (drafts.ne_of_live rightWorks.1)
        · exact absurd equal (drafts.ne_of_live leftWorks.1)
        · exact equal
      works_iff := by
        intro other
        constructor
        · rintro ⟨live, working⟩
          rcases (drafts.contains_iff other).mp (replaces.live live) with rfl | rfl | rfl | earlier
          · exact ⟨narrowing.id, works_id, if_pos rfl⟩
          · rw [constant?_congr (replaces.node_eq live), drafts.high_constant] at working
            cases working
          · rw [constant?_congr (replaces.node_eq live), drafts.low_constant] at working
            cases working
          · have different : other ≠ narrowing.id := ne_of_contains live gone
            exact ⟨other, ⟨earlier, (constant?_congr (node_eq other earlier live)).symm.trans working⟩,
              if_neg different⟩
        · rintro ⟨origin, works, rfl⟩
          by_cases same : origin = narrowing.id
          · rw [moving, if_pos same]
            exact narrowed_works
          · rw [moving, if_neg same]
            exact works.congr (node_eq origin works.1 (kept origin works same))
      node_other := by
        intro other works absent
        exact node_eq other works.1 (kept other works (by simpa using absent))
      inputs_other := by
        intro other works absent
        exact inputs_eq other works.1 (kept other works (by simpa using absent))
      narrowed := by
        intro other member
        rw [List.mem_singleton.mp member]
        have self : moving narrowing.id narrowed narrowing.id = narrowed := if_pos rfl
        refine ⟨view, node, low, high, isView, ?_, ?_, drafts.relaxed, drafts.precision_eq,
          fun _ => drafts.shape_eq, ?_, ?_, ?_⟩
        · rw [self]
          exact narrowed_node
        · rw [isOp]
          exact drafts.op_eq
        · rw [self, replaces.inputs_eq (drafts.wellFormed.exact narrowed) narrowed_works.1,
            if_pos rfl, drafts.inputs_new, unmoved view.data (by simp),
            unmoved view.inputLow (by simp), unmoved view.inputHigh (by simp)]
        · exact (constant?_congr (replaces.node_eq (drafts.keeps_source replaces works_id.1
            low.output (by simp)))).trans drafts.low_constant
        · exact (constant?_congr (replaces.node_eq (drafts.keeps_source replaces works_id.1
            high.output (by simp)))).trans drafts.high_constant
      constant_kept := by
        intro other position output tensor works read narrow constant
        have live := contains_of_constant? constant
        refine node_eq output.node live ?_
        by_cases same : other = narrowing.id
        · subst same
          have early : output ∈ (before.inputs narrowing.id).take 3 := by
            refine List.mem_iff_getElem?.mpr ⟨position, ?_⟩
            rw [List.getElem?_take, if_pos (narrow (by simp)), read]
          rw [inputs] at early
          exact drafts.keeps_source replaces works_id.1 output
            (List.mem_append_left [low.output, high.output] early)
        · refine replaces.sheds.keeps_sources (kept other works same) ?_
          have unmoved : relocated (moving narrowing.id narrowed) output = output :=
            relocated_of_moved_eq (if_neg (works_of_constant?_ne works_id constant))
          rw [reads_iff_mem_inputs, drafts.inputs_redirected works.1]
          exact ⟨output, List.mem_map.mpr ⟨output, List.mem_of_getElem? read, unmoved⟩, rfl⟩
      constants := by
        intro other tensor constant
        have live := contains_of_constant? constant
        rw [constant?_congr (replaces.node_eq live)] at constant
        rcases (drafts.contains_iff other).mp (replaces.live live) with rfl | rfl | rfl | earlier
        · rw [← constant?_congr (replaces.node_eq live), narrowed_works.2] at constant
          cases constant
        · rw [replaces.inputs_eq (drafts.wellFormed.exact _) live, drafts.high_inputs]
          simp
        · rw [replaces.inputs_eq (drafts.wellFormed.exact _) live, drafts.low_inputs]
          simp
        · rw [constant?_congr (drafts.grows.node_eq other earlier)] at constant
          rw [inputs_eq other earlier live, constants other tensor constant, List.map_nil]
      wellFormed := replaces.wellFormed }

/-! ## One after the other -/

theorem fakeQuantizeNode_relocated {id : NodeId} {view : FakeQuantizeNode α}
    (node_eq : after.node? id = before.node? id)
    (inputs_eq : after.inputs id = (before.inputs id).map (relocated moved))
    (isView : after.fakeQuantizeNode id = .ok view) :
    ∃ earlier, before.fakeQuantizeNode id = .ok earlier ∧ view.node = earlier.node ∧
      view.data = relocated moved earlier.data ∧
      view.inputLow = relocated moved earlier.inputLow ∧
      view.inputHigh = relocated moved earlier.inputHigh := by
  obtain ⟨present, isOp, inputs⟩ := fakeQuantizeNode_eq_ok isView
  have listed := inputs_eq.symm.trans inputs
  obtain ⟨data, _, equal, isData, listed⟩ := List.map_eq_cons_iff.mp listed
  obtain ⟨inputLow, _, rfl, isLow, listed⟩ := List.map_eq_cons_iff.mp listed
  obtain ⟨inputHigh, _, rfl, isHigh, listed⟩ := List.map_eq_cons_iff.mp listed
  obtain ⟨outputLow, _, rfl, _, listed⟩ := List.map_eq_cons_iff.mp listed
  obtain ⟨outputHigh, _, rfl, _, listed⟩ := List.map_eq_cons_iff.mp listed
  rw [List.map_eq_nil_iff.mp listed] at equal
  refine ⟨⟨view.node, view.levels, data, inputLow, inputHigh, outputLow, outputHigh⟩, ?_, rfl,
    isData.symm, isLow.symm, isHigh.symm⟩
  unfold fakeQuantizeNode
  rw [← node_eq, present, equal]
  dsimp only
  rw [isOp]
  rfl

/-- A narrowed fake quantization reads what it read and constants for its output limits. -/
theorem HoldsNarrowed.exists_view {others : List NodeId} {narrowing : Narrowing α}
    (holds : before.HoldsNarrowed others narrowing moved after) :
    ∃ earlier view, before.fakeQuantizeNode narrowing.id = .ok earlier ∧
      after.fakeQuantizeNode (moved narrowing.id) = .ok view ∧ view.levels = earlier.levels ∧
      view.node.elementType = narrowing.precision ∧ view.data = relocated moved earlier.data ∧
      view.inputLow = relocated moved earlier.inputLow ∧
      view.inputHigh = relocated moved earlier.inputHigh ∧
      after.constant? view.outputLow.node =
        some (.scalar earlier.node.outputType narrowing.min) ∧
      after.constant? view.outputHigh.node =
        some (.scalar earlier.node.outputType narrowing.max) := by
  obtain ⟨earlier, node, low, high, isView, present, isOp, relaxed, precision, _, inputs, isLow,
    isHigh⟩ := holds
  obtain ⟨_, isQuantize, _⟩ := fakeQuantizeNode_eq_ok isView
  refine ⟨earlier, ⟨node, earlier.levels, relocated moved earlier.data,
    relocated moved earlier.inputLow, relocated moved earlier.inputHigh, low.output, high.output⟩,
    isView, ?_, rfl, ?_, rfl, rfl, rfl, isLow, isHigh⟩
  · unfold fakeQuantizeNode
    rw [present, inputs]
    dsimp only
    rw [isOp, isQuantize]
    rfl
  · rw [Node.elementType, relaxed, precision]
    rfl

namespace Requantizes

variable {first second : List (Narrowing α)}

theorem works_moved (requantizes : before.Requantizes first moved after) {id : NodeId}
    (works : before.Works id) : after.Works (moved id) :=
  (requantizes.works_iff (moved id)).mpr ⟨id, works, rfl⟩

/-- A later narrowing is meant for a node that stands where it stood. -/
theorem moved_mem_iff (requantizes : before.Requantizes first moved after)
    (apart : ∀ narrowing ∈ second, narrowing.id ∉ first.map Narrowing.id)
    (works : ∀ narrowing ∈ second, before.Works narrowing.id) {id : NodeId}
    (id_works : before.Works id) :
    moved id ∈ second.map Narrowing.id ↔ id ∈ second.map Narrowing.id := by
  constructor
  · intro member
    obtain ⟨narrowing, listed, equal⟩ := List.mem_map.mp member
    rw [← requantizes.moved_other narrowing.id (apart narrowing listed)] at equal
    rw [← requantizes.injective _ _ (works narrowing listed) id_works equal]
    exact List.mem_map_of_mem listed
  · intro member
    obtain ⟨narrowing, listed, rfl⟩ := List.mem_map.mp member
    rw [requantizes.moved_other narrowing.id (apart narrowing listed)]
    exact member

theorem moved_not_mem (requantizes : before.Requantizes first moved after)
    (apart : ∀ narrowing ∈ second, narrowing.id ∉ first.map Narrowing.id)
    (works : ∀ narrowing ∈ second, before.Works narrowing.id) {narrowing : Narrowing α}
    (member : narrowing ∈ first) (id_works : before.Works narrowing.id) :
    moved narrowing.id ∉ second.map Narrowing.id := by
  rw [requantizes.moved_mem_iff apart works id_works]
  intro listed
  obtain ⟨other, otherListed, equal⟩ := List.mem_map.mp listed
  exact apart other otherListed (equal ▸ List.mem_map_of_mem member)

/-- What reads a constant reads it where it stood. -/
theorem relocated_constant (requantizes : before.Requantizes first moved after)
    (works : ∀ narrowing ∈ first, before.Works narrowing.id) {output : Output} {tensor : Tensor α}
    (constant : before.constant? output.node = some tensor) : relocated moved output = output := by
  refine relocated_of_moved_eq (requantizes.moved_other _ fun member => ?_)
  obtain ⟨narrowing, listed, equal⟩ := List.mem_map.mp member
  exact works_of_constant?_ne (works narrowing listed) constant equal.symm

/-- A narrowed fake quantization reads the same on its first three slots. -/
theorem getElem?_narrowed (requantizes : before.Requantizes first moved after)
    {narrowing : Narrowing α} (member : narrowing ∈ first) {position : Nat}
    (early : position < 3) :
    (after.inputs (moved narrowing.id))[position]? =
      ((before.inputs narrowing.id)[position]?).map (relocated moved) := by
  obtain ⟨view, node, low, high, isView, _, _, _, _, _, inputs, _⟩ :=
    requantizes.narrowed narrowing member
  obtain ⟨_, _, earlier⟩ := fakeQuantizeNode_eq_ok isView
  rw [inputs, earlier]
  rcases position with _ | _ | _ | position
  · rfl
  · rfl
  · rfl
  · omega

/-- The narrowed fake quantizations of the first round are not touched by the second. -/
theorem holdsNarrowed_first (left : before.Requantizes first moved middle)
    (right : middle.Requantizes second later after)
    (apart : ∀ narrowing ∈ second, narrowing.id ∉ first.map Narrowing.id)
    (works : ∀ narrowing ∈ second, before.Works narrowing.id) {narrowing : Narrowing α}
    (member : narrowing ∈ first) (id_works : before.Works narrowing.id) :
    before.HoldsNarrowed ((first ++ second).map Narrowing.id) narrowing (later ∘ moved) after := by
  obtain ⟨view, node, low, high, isView, present, isOp, relaxed, precision, shape, inputs, isLow,
    isHigh⟩ := left.narrowed narrowing member
  have works_moved := left.works_moved id_works
  have untouched := left.moved_not_mem apart works member id_works
  have works_later : ∀ narrowing ∈ second, middle.Works narrowing.id := by
    intro other listed
    rw [← left.moved_other other.id (apart other listed)]
    exact left.works_moved (works other listed)
  have stays : (later ∘ moved) narrowing.id = moved narrowing.id := right.moved_other _ untouched
  have low_kept := right.constant_kept _ 3 low.output _ works_moved (by rw [inputs]; rfl)
    (fun listed => absurd listed untouched) isLow
  have high_kept := right.constant_kept _ 4 high.output _ works_moved (by rw [inputs]; rfl)
    (fun listed => absurd listed untouched) isHigh
  have low_same : relocated later low.output = low.output :=
    right.relocated_constant works_later isLow
  have high_same : relocated later high.output = high.output :=
    right.relocated_constant works_later isHigh
  refine ⟨view, node, low, high, isView, ?_, isOp, relaxed, precision, ?_, ?_,
    (constant?_congr low_kept).trans isLow, (constant?_congr high_kept).trans isHigh⟩
  · rw [stays, right.node_other _ works_moved untouched, present]
  · intro outside
    rw [List.map_append, List.mem_append, not_or] at outside
    exact shape outside.1
  · rw [stays, right.inputs_other _ works_moved untouched, inputs]
    simp only [List.map_cons, List.map_nil, low_same, high_same]
    rfl

/-- The second round narrows what it would have narrowed without the first. -/
theorem holdsNarrowed_second (left : before.Requantizes first moved middle)
    (right : middle.Requantizes second later after) (wellFormed : before.WellFormed)
    (apart : ∀ narrowing ∈ second, narrowing.id ∉ first.map Narrowing.id)
    (works : ∀ narrowing ∈ second, before.Works narrowing.id) {narrowing : Narrowing α}
    (member : narrowing ∈ second) :
    before.HoldsNarrowed ((first ++ second).map Narrowing.id) narrowing (later ∘ moved) after := by
  have id_works := works narrowing member
  have absent := apart narrowing member
  obtain ⟨view, node, low, high, isView, present, isOp, relaxed, precision, shape, inputs, isLow,
    isHigh⟩ := right.narrowed narrowing member
  obtain ⟨earlier, isEarlier, node_eq, data_eq, low_eq, high_eq⟩ := fakeQuantizeNode_relocated
    (left.node_other _ id_works absent) (left.inputs_other _ id_works absent) isView
  have stays : (later ∘ moved) narrowing.id = later narrowing.id :=
    congrArg later (left.moved_other _ absent)
  refine ⟨earlier, node, low, high, isEarlier, ?_, ?_, relaxed, precision, ?_, ?_, ?_, ?_⟩
  · rw [stays, present]
  · rw [isOp, node_eq]
  · intro outside
    rw [List.map_append, List.mem_append, not_or] at outside
    have same : view.data.node = earlier.data.node := by
      rw [data_eq]
      exact left.moved_other _ outside.1
    rw [shape (same ▸ outside.2), same]
    obtain ⟨_, _, listed⟩ := fakeQuantizeNode_eq_ok isEarlier
    have read : (before.inputs narrowing.id)[0]? = some earlier.data := by rw [listed]; rfl
    have live := (wellFormed.consistent.reads_live
      (reads_of_mem_inputs (List.mem_of_getElem? read))).1
    have kept : middle.node? earlier.data.node = before.node? earlier.data.node := by
      cases constant : before.constant? earlier.data.node with
      | none => exact left.node_other _ ⟨live, constant⟩ outside.1
      | some tensor =>
          exact left.constant_kept _ 0 _ tensor id_works read (fun listed => absurd listed absent)
            constant
    rw [shape?, shape?, kept]
  · rw [stays, inputs, data_eq, low_eq, high_eq]
    rfl
  · rw [isLow, node_eq]
  · rw [isHigh, node_eq]

theorem trans (left : before.Requantizes first moved middle)
    (right : middle.Requantizes second later after) (wellFormed : before.WellFormed)
    (apart : ∀ narrowing ∈ second, narrowing.id ∉ first.map Narrowing.id)
    (works : ∀ narrowing ∈ first ++ second, before.Works narrowing.id) :
    before.Requantizes (first ++ second) (later ∘ moved) after := by
  have first_works : ∀ narrowing ∈ first, before.Works narrowing.id := fun narrowing member =>
    works narrowing (List.mem_append_left second member)
  have second_works : ∀ narrowing ∈ second, before.Works narrowing.id := fun narrowing member =>
    works narrowing (List.mem_append_right first member)
  have absent {id : NodeId} (outside : id ∉ (first ++ second).map Narrowing.id) :
      id ∉ first.map Narrowing.id ∧ id ∉ second.map Narrowing.id := by
    rw [List.map_append, List.mem_append, not_or] at outside
    exact outside
  have middle_works {id : NodeId} (works : before.Works id)
      (outside : id ∉ first.map Narrowing.id) : middle.Works id :=
    left.moved_other id outside ▸ left.works_moved works
  exact
    { moved_other := by
        intro id outside
        rw [Function.comp_apply, left.moved_other id (absent outside).1,
          right.moved_other id (absent outside).2]
      injective := by
        intro one other oneWorks otherWorks equal
        exact left.injective _ _ oneWorks otherWorks
          (right.injective _ _ (left.works_moved oneWorks) (left.works_moved otherWorks) equal)
      works_iff := by
        intro id
        rw [right.works_iff]
        constructor
        · rintro ⟨_, worksMiddle, rfl⟩
          obtain ⟨origin, works, rfl⟩ := (left.works_iff _).mp worksMiddle
          exact ⟨origin, works, rfl⟩
        · rintro ⟨origin, works, rfl⟩
          exact ⟨moved origin, left.works_moved works, rfl⟩
      node_other := by
        intro id works outside
        rw [right.node_other id (middle_works works (absent outside).1) (absent outside).2,
          left.node_other id works (absent outside).1]
      inputs_other := by
        intro id works outside
        rw [right.inputs_other id (middle_works works (absent outside).1) (absent outside).2,
          left.inputs_other id works (absent outside).1, List.map_map]
        rfl
      narrowed := by
        intro narrowing member
        rcases List.mem_append.mp member with member | member
        · exact left.holdsNarrowed_first right apart second_works member
            (first_works narrowing member)
        · exact left.holdsNarrowed_second right wellFormed apart second_works member
      constant_kept := by
        intro id position output tensor works read narrow constant
        have kept := left.constant_kept id position output tensor works read
          (fun listed => narrow (by rw [List.map_append]; exact List.mem_append_left _ listed))
          constant
        have same := left.relocated_constant first_works constant
        refine Eq.trans (right.constant_kept (moved id) position output tensor
          (left.works_moved works) ?_ ?_ ((constant?_congr kept).trans constant)) kept
        · by_cases listed : id ∈ first.map Narrowing.id
          · have early := narrow (by rw [List.map_append]; exact List.mem_append_left _ listed)
            obtain ⟨narrowing, member, rfl⟩ := List.mem_map.mp listed
            rw [left.getElem?_narrowed member early, read, Option.map_some, same]
          · rw [left.moved_other id listed, left.inputs_other id works listed, List.getElem?_map,
              read, Option.map_some, same]
        · intro listed
          refine narrow ?_
          rw [List.map_append]
          exact List.mem_append_right _ ((left.moved_mem_iff apart second_works works).mp listed)
      constants := right.constants
      wellFormed := right.wellFormed }

/-- An output that has gone where an operation has gone was one of this operation. -/
theorem node_eq_of_moved_eq (requantizes : before.Requantizes first moved after)
    (wellFormed : before.WellFormed) (first_works : ∀ narrowing ∈ first, before.Works narrowing.id)
    {source reader : NodeId} (source_works : before.Works source) (works : before.Works reader)
    {position : Nat} {output : Output} (read : (before.inputs reader)[position]? = some output)
    (narrow : reader ∈ first.map Narrowing.id → position < 3)
    (equal : moved output.node = moved source) : output.node = source := by
  cases constant : before.constant? output.node with
  | none =>
      have live := (wellFormed.consistent.reads_live
        (reads_of_mem_inputs (List.mem_of_getElem? read))).1
      exact requantizes.injective _ _ ⟨live, constant⟩ source_works equal
  | some tensor =>
      have same := congrArg Output.node (requantizes.relocated_constant first_works constant)
      have kept := requantizes.constant_kept reader position output tensor works read narrow constant
      have working := (requantizes.works_moved source_works).2
      rw [← equal, show moved output.node = output.node from same, constant?_congr kept, constant]
        at working
      cases working

/-- What reads an operation where it has gone has come from a reader of it. -/
theorem exists_origin_of_reads (requantizes : before.Requantizes first moved after)
    (wellFormed : before.WellFormed) (first_works : ∀ narrowing ∈ first, before.Works narrowing.id)
    {source reader : NodeId} (source_works : before.Works source)
    (reads : after.Reads (moved source) reader) :
    ∃ origin, before.Works origin ∧ moved origin = reader ∧ before.Reads source origin := by
  obtain ⟨output, member, source_eq⟩ := reads_iff_mem_inputs.mp reads
  have reader_works : after.Works reader := by
    refine ⟨live_of_reads requantizes.wellFormed reads, ?_⟩
    cases constant : after.constant? reader with
    | none => rfl
    | some tensor =>
        rw [requantizes.constants reader tensor constant] at member
        cases member
  obtain ⟨origin, works, rfl⟩ := (requantizes.works_iff reader).mp reader_works
  refine ⟨origin, works, rfl, ?_⟩
  obtain ⟨position, found⟩ := List.mem_iff_getElem?.mp member
  by_cases listed : origin ∈ first.map Narrowing.id
  · obtain ⟨narrowing, isFirst, rfl⟩ := List.mem_map.mp listed
    obtain ⟨view, node, low, high, _, _, _, _, _, _, inputs, isLow, isHigh⟩ :=
      requantizes.narrowed narrowing isFirst
    have early : position < 3 := by
      by_contra late
      rw [inputs] at found
      have source_working := (requantizes.works_moved source_works).2
      rcases position with _ | _ | _ | _ | _ | position
      · omega
      · omega
      · omega
      · rw [← source_eq, ← Option.some.inj found] at source_working
        exact absurd (source_working.symm.trans isLow) (by simp)
      · rw [← source_eq, ← Option.some.inj found] at source_working
        exact absurd (source_working.symm.trans isHigh) (by simp)
      · cases found
    rw [requantizes.getElem?_narrowed isFirst early] at found
    obtain ⟨earlier, read, rfl⟩ := Option.map_eq_some_iff.mp found
    have equal := requantizes.node_eq_of_moved_eq wellFormed first_works source_works works read
      (fun _ => early) source_eq
    exact equal ▸ reads_of_mem_inputs (List.mem_of_getElem? read)
  · rw [requantizes.moved_other origin listed, requantizes.inputs_other origin works listed,
      List.getElem?_map] at found
    obtain ⟨earlier, read, rfl⟩ := Option.map_eq_some_iff.mp found
    have equal := requantizes.node_eq_of_moved_eq wellFormed first_works source_works works read
      (fun narrowed => absurd narrowed listed) source_eq
    exact equal ▸ reads_of_mem_inputs (List.mem_of_getElem? read)

/-- The limits of a fake quantization that is still to be narrowed are what they were. -/
theorem limit?_eq (requantizes : before.Requantizes first moved after)
    (wellFormed : before.WellFormed) (first_works : ∀ narrowing ∈ first, before.Works narrowing.id)
    {id : NodeId} (works : before.Works id) (outside : id ∉ first.map Narrowing.id)
    {limit : LimitName} {tensor : Tensor α} (isLimit : before.limit? id limit = some tensor) :
    after.limit? id limit = some tensor := by
  obtain ⟨node, found, constant⟩ := Option.bind_eq_some_iff.mp isLimit
  rw [inputNode?, (wellFormed.exact id).input?_eq] at found
  obtain ⟨output, read, rfl⟩ := Option.map_eq_some_iff.mp found
  have still : (after.inputs id)[limit.slot]? = some output := by
    rw [requantizes.inputs_other id works outside, List.getElem?_map, read, Option.map_some,
      requantizes.relocated_constant first_works constant]
  rw [limit?_of_read (requantizes.wellFormed.exact id) still, constant?_congr
    (requantizes.constant_kept id _ output tensor works read (fun listed => absurd listed outside)
      constant), constant]

theorem hasConstantLimits (requantizes : before.Requantizes first moved after)
    (wellFormed : before.WellFormed) (first_works : ∀ narrowing ∈ first, before.Works narrowing.id)
    {id : NodeId} (works : before.Works id) (outside : id ∉ first.map Narrowing.id)
    (limits : before.HasConstantLimits id) : after.HasConstantLimits id := by
  intro limit
  obtain ⟨tensor, isLimit⟩ := limits limit
  exact ⟨tensor, requantizes.limit?_eq wellFormed first_works works outside isLimit⟩

end Requantizes

end Graph

/-! ## The state while a subgraph is revised -/

namespace DequantizationCache

private theorem lookup_cons_eq_ite (entries : List (NodeId × β)) (id other : NodeId) (value : β) :
    ((id, value) :: entries).lookup other = if other = id then some value
      else entries.lookup other := by
  rw [List.lookup_cons]
  by_cases equal : other = id
  · simp [equal]
  · rw [beq_false_of_ne equal, if_neg equal]

theorem get?_erase (cache : DequantizationCache α) (id other : NodeId) :
    (cache.erase id).get? other = if other = id then none else cache.get? other := by
  unfold erase get?
  dsimp only
  induction cache.entries with
  | nil => simp
  | cons head tail induction =>
      obtain ⟨place, values⟩ := head
      rw [lookup_cons_eq_ite, List.filter_cons]
      by_cases same : place = id
      · rw [if_neg (by simpa using same), induction, same]
        by_cases equal : other = id <;> simp [equal]
      · rw [if_pos (by simpa using same), lookup_cons_eq_ite, induction]
        by_cases equal : other = id
        · rw [if_neg (equal ▸ Ne.symm same)]
          simp [equal]
        · simp [equal]

theorem get?_insert (cache : DequantizationCache α) (id other : NodeId)
    (values : Dequantization α) :
    (cache.insert id values).get? other = if other = id then some values else cache.get? other := by
  change ((id, values) :: (cache.erase id).entries).lookup other = _
  rw [lookup_cons_eq_ite]
  by_cases equal : other = id
  · rw [if_pos equal, if_pos equal]
  · rw [if_neg equal, if_neg equal]
    exact (cache.get?_erase id other).trans (if_neg equal)

theorem get?_rekey_insert (cache : DequantizationCache α) {id new : NodeId} (other : NodeId)
    (values : Dequantization α) (different : id ≠ new) :
    ((cache.insert id values).rekey id new).get? other =
      if other = new then some values else if other = id then none else cache.get? other := by
  unfold rekey
  rw [if_neg different, get?_insert, if_pos rfl]
  dsimp only
  rw [get?_insert, get?_erase, get?_insert]
  by_cases equal : other = id <;> simp [equal]

end DequantizationCache

/-- The subgraph where its members have gone. -/
def Subgraph.relocate (moved : NodeId → NodeId) (subgraph : Subgraph) : Subgraph where
  quantizers := subgraph.quantizers.map moved
  concats := subgraph.concats.map moved
  layers := subgraph.layers.map moved

namespace JointState

open QuantGraph.Graph

/-- The state after some fake quantizations have been narrowed: the subgraph and the
cache have followed the nodes. -/
structure Requantizes (before : DequantizationCache α × JointState α)
    (narrowings : List (Narrowing α)) (moved : NodeId → NodeId)
    (after : DequantizationCache α × JointState α) : Prop where
  graph : before.2.graph.Requantizes narrowings moved after.2.graph
  subgraph_eq : after.2.subgraph = before.2.subgraph.relocate moved
  cached : ∀ narrowing ∈ narrowings, after.1.get? (moved narrowing.id) = some narrowing.values
  uncached : ∀ id, before.2.graph.Works id → id ∉ narrowings.map Narrowing.id →
    after.1.get? id = before.1.get? id

variable {before middle after : DequantizationCache α × JointState α}
  {narrowings : List (Narrowing α)}

/-- What one narrowing does to a state, and what held of the graph before. -/
def TakesNarrowing (holds : Narrowing α → Graph α → Prop) (narrowing : Narrowing α)
    (before after : DequantizationCache α × JointState α) : Prop :=
  holds narrowing before.2.graph ∧
    NarrowsMember narrowing.id narrowing.values narrowing.precision narrowing.min narrowing.max
      before after

theorem requantizes_of_narrowsMember {narrowing : Narrowing α}
    (narrows : NarrowsMember narrowing.id narrowing.values narrowing.precision narrowing.min
      narrowing.max before after)
    (wellFormed : before.2.graph.WellFormed) (constants : before.2.graph.ConstantsReadNothing)
    (limits : before.2.graph.HasConstantLimits narrowing.id) :
    ∃ moved, Requantizes before [narrowing] moved after := by
  obtain ⟨narrowed, narrows, cache_eq, subgraph_eq⟩ := narrows
  have graph := narrows.requantizes wellFormed constants limits
  obtain ⟨view, _, _, _, drafted, isView, drafts, _⟩ := narrows.exists_drafted wellFormed
  have works := HasConstantLimits.works_of_view isView
  have self : moving narrowing.id narrowed narrowing.id = narrowed := if_pos rfl
  refine ⟨moving narrowing.id narrowed, graph, subgraph_eq, ?_, ?_⟩
  · intro other member
    rw [List.mem_singleton.mp member, self, cache_eq,
      DequantizationCache.get?_rekey_insert _ _ _ (drafts.ne_of_live works.1), if_pos rfl]
  · intro id id_works outside
    rw [cache_eq, DequantizationCache.get?_rekey_insert _ _ _ (drafts.ne_of_live works.1),
      if_neg (drafts.ne_of_live id_works.1), if_neg (by simpa using outside)]

theorem Requantizes.trans {first second : List (Narrowing α)} {moved later : NodeId → NodeId}
    (left : Requantizes before first moved middle) (right : Requantizes middle second later after)
    (wellFormed : before.2.graph.WellFormed)
    (apart : ∀ narrowing ∈ second, narrowing.id ∉ first.map Narrowing.id)
    (works : ∀ narrowing ∈ first ++ second, before.2.graph.Works narrowing.id) :
    Requantizes before (first ++ second) (later ∘ moved) after where
  graph := left.graph.trans right.graph wellFormed apart works
  subgraph_eq := by
    rw [right.subgraph_eq, left.subgraph_eq]
    simp [Subgraph.relocate]
  cached := by
    intro narrowing member
    rcases List.mem_append.mp member with listed | listed
    · have id_works := works narrowing member
      have untouched := left.graph.moved_not_mem apart
        (fun other listed => works other (List.mem_append_right first listed)) listed id_works
      rw [Function.comp_apply, right.graph.moved_other _ untouched,
        right.uncached _ (left.graph.works_moved id_works) untouched]
      exact left.cached narrowing listed
    · rw [Function.comp_apply, left.graph.moved_other _ (apart narrowing listed)]
      exact right.cached narrowing listed
  uncached := by
    intro id id_works outside
    rw [List.map_append, List.mem_append, not_or] at outside
    have same := left.graph.moved_other id outside.1
    rw [right.uncached id (same ▸ left.graph.works_moved id_works) outside.2,
      left.uncached id id_works outside.1]

/-- The graph in which a narrowing is done is the first one after earlier narrowings. -/
def FollowsNarrowings (start : Graph α) (narrowings : List (Narrowing α))
    (holds : Narrowing α → Graph α → Prop) (narrowing : Narrowing α) : Prop :=
  ∃ earlier moved graph, narrowing.id ∉ earlier.map Narrowing.id ∧
    (∀ other ∈ earlier, other ∈ narrowings) ∧ start.Requantizes earlier moved graph ∧
    holds narrowing graph

private theorem requantizes_of_rest {holds : Narrowing α → Graph α → Prop}
    {start : DequantizationCache α × JointState α} {done rest : List (Narrowing α)}
    {moved : NodeId → NodeId} (sequence : Revision.Sequence (TakesNarrowing holds) rest before after)
    (requantizes : Requantizes start done moved before) (wellFormed : start.2.graph.WellFormed)
    (nodup : ((done ++ rest).map Narrowing.id).Nodup)
    (works : ∀ narrowing ∈ done ++ rest, start.2.graph.Works narrowing.id)
    (limits : ∀ narrowing ∈ done ++ rest, start.2.graph.HasConstantLimits narrowing.id) :
    (∃ later, Requantizes start (done ++ rest) later after) ∧
      ∀ narrowing ∈ rest, FollowsNarrowings start.2.graph (done ++ rest) holds narrowing := by
  induction sequence generalizing done moved with
  | nil => exact ⟨⟨moved, by rw [List.append_nil]; exact requantizes⟩, by simp⟩
  | @cons head tail before middle after taken _ induction =>
      obtain ⟨held, narrows⟩ := taken
      have member : head ∈ done ++ head :: tail := by simp
      have absent : head.id ∉ done.map Narrowing.id := by
        rw [List.map_append, List.map_cons, List.nodup_append] at nodup
        exact fun listed => nodup.2.2 _ listed _ List.mem_cons_self rfl
      have done_works : ∀ narrowing ∈ done, start.2.graph.Works narrowing.id :=
        fun narrowing listed => works narrowing (List.mem_append_left _ listed)
      obtain ⟨next, single⟩ := requantizes_of_narrowsMember narrows requantizes.graph.wellFormed
        requantizes.graph.constants (requantizes.graph.hasConstantLimits wellFormed done_works
          (works head member) absent (limits head member))
      have extended := requantizes.trans single wellFormed
        (fun narrowing listed => List.mem_singleton.mp listed ▸ absent)
        (fun narrowing listed => works narrowing (by
          rcases List.mem_append.mp listed with listed | listed
          · exact List.mem_append_left _ listed
          · exact List.mem_singleton.mp listed ▸ member))
      have regroup : done ++ head :: tail = (done ++ [head]) ++ tail := by simp
      rw [regroup] at nodup works limits ⊢
      obtain ⟨whole, follows⟩ := induction extended nodup works limits
      refine ⟨whole, fun narrowing listed => ?_⟩
      rcases List.mem_cons.mp listed with rfl | listed
      · exact ⟨done, moved, _, absent, fun other otherListed => by simp [otherListed],
          requantizes.graph, held⟩
      · exact follows narrowing listed

/-- Narrowing one after the other keeps every narrowing that was done before. -/
theorem requantizes_of_sequence {holds : Narrowing α → Graph α → Prop}
    (sequence : Revision.Sequence (TakesNarrowing holds) narrowings before after)
    (wellFormed : before.2.graph.WellFormed) (constants : before.2.graph.ConstantsReadNothing)
    (nodup : (narrowings.map Narrowing.id).Nodup)
    (works : ∀ narrowing ∈ narrowings, before.2.graph.Works narrowing.id)
    (limits : ∀ narrowing ∈ narrowings, before.2.graph.HasConstantLimits narrowing.id) :
    (∃ moved, Requantizes before narrowings moved after) ∧
      ∀ narrowing ∈ narrowings, FollowsNarrowings before.2.graph narrowings holds narrowing := by
  have start : Requantizes before [] (fun id => id) before :=
    ⟨.refl wellFormed constants, by simp [Subgraph.relocate], by simp, fun _ _ _ => rfl⟩
  exact requantizes_of_rest sequence start wellFormed nodup works limits

end JointState

end QuantGraph
