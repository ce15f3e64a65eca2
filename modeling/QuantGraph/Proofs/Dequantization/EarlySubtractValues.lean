import Mathlib
import QuantGraph.Proofs.Dequantization.Denotation
import QuantGraph.Proofs.Dequantization.EarlySubtract
import QuantGraph.Proofs.Dequantization.Values
import QuantGraph.Proofs.Evaluation.Substitution
import QuantGraph.Proofs.Graph.Ends
import QuantGraph.Proofs.Tensor.Rounding

/-! The values under a Subtract that is moved before a Convert. The Convert hands its values on, so
the two Subtracts differ by as much as the shift was rounded, and not at all if the type before the
Convert can hold it. -/

namespace QuantGraph

/-! ## Differences of arrays -/

namespace NDArray

/-- Two arrays have one shape, and any two elements at one position lie closer to each other than a
tolerance. -/
structure IsNear (left right : NDArray Rat) (tolerance : Rat) : Prop where
  shape_eq : left.shape = right.shape
  near : ∀ index, right.shape.Holds index → |left.get index - right.get index| < tolerance

/-- Differences lie as close to each other as what is taken away. -/
theorem IsNear.exists_combine_subtract {data shift rounded result : NDArray Rat} {tolerance : Rat}
    (near : rounded.IsNear shift tolerance) (combined : combine .subtract data shift = .ok result) :
    ∃ difference, combine .subtract data rounded = .ok difference ∧
      difference.IsNear result tolerance := by
  obtain ⟨common, addressable, each⟩ := combine_eq_ok.mp combined
  have stretches := (stretchesTo_of_combine combined).2
  rw [← near.shape_eq] at common
  obtain ⟨difference, combined', shape⟩ := Op.exists_combine .subtract common addressable
  refine ⟨difference, combined', shape, fun index holds => ?_⟩
  have before : result.get index = data.read index - shift.read index := each index holds
  have after : difference.get index = data.read index - rounded.read index :=
    (combine_eq_ok.mp combined').2.2 index (shape ▸ holds)
  rw [before, after, sub_sub_sub_cancel_left, abs_sub_comm, read, read, near.shape_eq]
  exact near.near _ (holds.stretchedIndex stretches)

end NDArray

/-- Rounding moves no element as far as the tolerance. -/
theorem Tensor.isNear_roundWithTolerance (tensor : Tensor Rat) (target : ElementType)
    {tolerance : Rat} (positive : 0 < tolerance) :
    (tensor.roundWithTolerance target tolerance).values.IsNear tensor.values tolerance where
  shape_eq := tensor.shape_roundWithTolerance target tolerance
  near _ holds := abs_roundWithTolerance_sub_lt positive holds

theorem roundingTolerance_eq : (roundingTolerance : Rat) = 1 / 10 := by decide +kernel

namespace Graph

/-- Every Convert is declared to give numbers of the type to which it converts. -/
def ConvertsAsDeclared (graph : Graph α) : Prop :=
  ∀ id destination, graph.op? id = some (.convert destination) →
    graph.elementType? id = some destination

theorem convertsAsDeclared_iff {graph : Graph α} : graph.ConvertsAsDeclared ↔
    ∀ id ∈ graph.nodesOfKind .convert, graph.op? id = (graph.elementType? id).map Op.convert := by
  simp only [mem_nodesOfKind, isKind_iff]
  constructor
  · intro converts id isConvert
    obtain ⟨destination, isOp⟩ := exists_convert_of_kind? isConvert
    rw [isOp, converts id destination isOp, Option.map_some]
  · intro each id destination isOp
    have declared := (each id (kind?_of_op? isOp)).symm.trans isOp
    obtain ⟨type, isType, equal⟩ := Option.map_eq_some_iff.mp declared
    rw [isType, Op.convert.inj equal]

instance [DecidableEq α] (graph : Graph α) : Decidable graph.ConvertsAsDeclared :=
  decidable_of_iff _ convertsAsDeclared_iff.symm

/-! ## The value of a difference -/

section Difference

variable [Scalar α] {graph : Graph α} {feeds : Assignment α} {id convert constant : NodeId}
  {tensor : Tensor α} {found : SubtractAfterConvert α} {result : NDArray α}

/-- What is taken away behind a Convert to real numbers is taken away from the value that the
Convert reads. -/
theorem SubtractsConverted.exists_combine
    (pattern : graph.SubtractsConverted id convert constant tensor found)
    (converts : graph.ConvertsAsDeclared) (once : graph.ReadsOnce id 0)
    (has : graph.HasValue feeds id result) :
    ∃ data, graph.HasValue feeds found.data.node data ∧
      NDArray.combine .subtract data tensor.values = .ok result := by
  obtain ⟨left, readLeft, rfl⟩ := Option.map_eq_some_iff.mp pattern.readsConvert
  obtain ⟨right, readRight, rfl⟩ := Option.map_eq_some_iff.mp pattern.readsConstant
  obtain ⟨rest, inputs⟩ := once.inputs_eq_cons readLeft readRight
  obtain ⟨destination, isOp⟩ := exists_convert_of_kind? pattern.isConvert
  have varies : graph.constant? left.node = none := constant?_of_op? isOp
  have operands : graph.ReadsOperands id
      { slot := 0, data := left, constant := right.node, tensor := tensor } :=
    .constantLast inputs varies pattern.isConstant
  obtain ⟨converted, hasConverted, combined⟩ := operands.exists_combine
    (op?_of_kind?_elementwise .subtract pattern.isSubtract) has
  obtain ⟨data, hasData, rfl⟩ := hasConverted.exists_convert isOp pattern.readsData
  have restores := pattern.restores
  rw [converts _ _ isOp, Option.some.injEq] at restores
  rw [restores, map_convert_of_isReal pattern.isReal] at combined
  exact ⟨data, hasData, combined⟩

end Difference

/-! ## The change -/

namespace MovesSubtract

section General

variable {before first second after : Graph α} [Scalar α] {found : SubtractAfterConvert α}
  {id other constant replacement : NodeId}
  (moves : before.MovesSubtract found id constant replacement first second after)

include moves

section Acyclic

variable (acyclic : ¬ before.Precedes id id)

include acyclic

/-- The new Subtract does not depend on the old one. -/
theorem independent : second.Independent id replacement := by
  obtain ⟨_, _, _, pattern⟩ := subtractAfterConvert?_eq_some_iff.mp moves.present
  intro reaches
  have free : ∀ output ∈ [found.data, constant.output], first.Independent id output.node := by
    intro output member reaches
    obtain ⟨back, old⟩ :=
      moves.gainsConstant.reaches moves.consistent moves.live (by simp) reaches
    rcases List.mem_pair.mp member with rfl | rfl
    · exact acyclic (.trans_right back pattern.precedes)
    · exact old rfl
  exact (moves.gains.reaches moves.gainsConstant.consistent
    (moves.gainsConstant.grows.live moves.live) free reaches).2 rfl

/-- Nothing reads the old Subtract any more. -/
theorem not_reads_old (reader : NodeId) : ¬ after.Reads id reader := by
  rintro ⟨edge, member, source, target⟩
  refine not_reads_redirect (moves.independent acyclic) reader ⟨edge, ?_, source, target⟩
  exact (moves.sheds.mem_edges.mp member).1

/-- The readers of the old Subtract come to read the new one, on the same slots. -/
theorem feeds_replacement {index : UInt8} {reader : NodeId} {slot : Nat}
    (feeds : before.Feeds ⟨id, index⟩ reader slot) :
    after.Feeds ⟨replacement, index⟩ reader slot := by
  obtain ⟨edge, member, source, rfl, rfl⟩ := feeds
  have reads : before.Reads id edge.target := ⟨edge, member, by rw [source], rfl⟩
  have live := (moves.consistent.reads_live reads).2
  have moved : Moves id replacement edge := ⟨by rw [source], moves.ne_replacement live⟩
  have stays := moves.survives acyclic live fun reaches => acyclic (.head' reads reaches)
  refine ⟨_, moves.sheds.mem_edges.mpr ⟨mem_edges_redirect.mpr
    (Or.inl ⟨edge, moves.grows.mem_edges member, moved, rfl⟩), stays⟩, ?_, rfl, rfl⟩
  rw [source]

theorem hasValue_replacement {feeds : Assignment α} {value : NDArray α}
    (has : second.HasValue feeds replacement value) : after.HasValue feeds replacement value :=
  moves.sheds.hasValue (has.redirect (moves.independent acyclic)) (moves.replacement_live acyclic)

end Acyclic

/-- What does not depend on the old Subtract keeps its value if it stays. -/
theorem hasValue {feeds : Assignment α} {value : NDArray α}
    (has : before.HasValue feeds other value) (apart : ¬ before.Reaches id other)
    (live : after.contains other = true) : after.HasValue feeds other value := by
  refine moves.sheds.hasValue ((moves.grows.hasValue moves.consistent has).redirect ?_) live
  exact fun reaches => apart ((moves.grows.reaches_iff moves.consistent has.live).mp reaches)

/-- Declared shapes that are those of the values are so for the new Subtract. -/
theorem shape?_replacement {data difference : NDArray α}
    (isShape : before.shape? found.data.node = some data.shape)
    (combined : NDArray.combine .subtract data found.shift.values = .ok difference)
    (live : after.contains replacement = true) :
    after.shape? replacement = some difference.shape := by
  obtain ⟨shape, isConstant, inferred⟩ := moves.gainsConstant.exists_shape ⟨rfl, by simp⟩ rfl
  cases Except.ok.inj inferred
  obtain ⟨shape, isDifference, inferred⟩ := moves.gains.exists_shape ⟨rfl, by simp⟩ rfl
  have isData : first.shape? found.data.node = some data.shape := by
    rw [shape?_congr (moves.gainsConstant.grows.node_eq _ (live_of_shape? isShape)), isShape]
  rw [shapesOf_cons isData, shapesOf_cons isConstant] at inferred
  have common := (Op.inferShape_eq_ok (Or.inl rfl)).mp inferred
  cases Option.some.inj (common.symm.trans (NDArray.combine_eq_ok.mp combined).1)
  exact (shape?_congr (moves.sheds.node_eq replacement live)).trans isDifference

/-! ### Evaluation -/

theorem isAcyclic (acyclic : before.IsAcyclic) : second.IsAcyclic :=
  moves.gains.isAcyclic moves.gainsConstant.consistent
    (moves.gainsConstant.isAcyclic moves.consistent acyclic)

/-- The new Subtract stands in for the old one. -/
theorem substitutes (acyclic : before.IsAcyclic)
    (distinct : ∀ reader, before.Reads id reader → before.HasDistinctSlots reader) :
    second.Substitutes id replacement after := by
  have independent := moves.independent (acyclic id)
  refine substitutes_of_sheds moves.gains.consistent (moves.isAcyclic acyclic)
    (fun reader reads => ?_) (moves.ne_replacement moves.live)
    (reachesAtOnce_of_not_reaches independent) moves.sheds
  rcases moves.gains.reads reads with readsFirst | ⟨rfl, _⟩
  · rcases moves.gainsConstant.reads readsFirst with readsBefore | ⟨_, _, none, _⟩
    · unfold HasDistinctSlots
      rw [moves.grows.incoming_eq (moves.consistent.reads_live readsBefore).2]
      exact distinct reader readsBefore
    · cases none
  · exact absurd (.single reads) independent

/-- With the new Subtract beside the old one, everything has the value that it had. -/
theorem exists_evaluate {feeds values : Assignment α} {difference : NDArray α}
    (evaluated : before.evaluate feeds = .ok values)
    (has : second.HasValue feeds replacement difference) :
    ∃ both, second.evaluate feeds = .ok both ∧ both replacement = some difference ∧
      ∀ other, before.contains other = true → both other = values other := by
  obtain ⟨order, sorted, _⟩ := solves_of_evaluate evaluated
  have hasConstant : first.HasValue feeds constant found.shift.values :=
    hasValue_of_constant moves.gainsConstant.op?_new moves.gainsConstant.inputs_new
  have held := moves.gainsConstant.hasValues moves.consistent (hasValues_of_evaluate evaluated)
    hasConstant
  have all := moves.gains.hasValues moves.gainsConstant.consistent held has
  have acyclic := moves.isAcyclic (isAcyclic_of_topologicalOrder sorted)
  obtain ⟨both, isBoth⟩ := acyclic.exists_evaluate_of_hasValues moves.gains.consistent all
  refine ⟨both, isBoth, has.value_eq isBoth, fun other live => ?_⟩
  obtain ⟨value, isValue, _⟩ := evaluateNode_of_evaluate evaluated live
  have kept := moves.grows.hasValue moves.consistent (hasValue_of_evaluate evaluated isValue)
  rw [kept.value_eq isBoth, isValue]

/-- What is left can be evaluated, and shapes stay. Values stay where they do not depend on the old
Subtract, and everywhere if the new one has its value. -/
theorem exists_values {feeds values : Assignment α} {value difference : NDArray α}
    (distinct : ∀ reader, before.Reads id reader → before.HasDistinctSlots reader)
    (evaluated : before.evaluate feeds = .ok values) (isValue : values id = some value)
    (has : second.HasValue feeds replacement difference) (shape : difference.shape = value.shape) :
    ∃ values', after.evaluate feeds = .ok values' ∧
      ∀ other, before.contains other = true → after.contains other = true →
        (values' other).map NDArray.shape = (values other).map NDArray.shape ∧
          (¬ before.Reaches id other ∨ values' replacement = values id →
            values' other = values other) := by
  obtain ⟨order, sorted, _⟩ := solves_of_evaluate evaluated
  have acyclic := isAcyclic_of_topologicalOrder sorted
  have substitutes := moves.substitutes acyclic distinct
  obtain ⟨both, isBoth, isDifference, same⟩ := moves.exists_evaluate evaluated has
  have isOld : both id = some value := (same id moves.live).trans isValue
  have alike : (both replacement).map NDArray.shape = (both id).map NDArray.shape := by
    rw [isDifference, isOld, Option.map_some, Option.map_some, shape]
  obtain ⟨values', evaluated', each⟩ := substitutes.exists_evaluate_of_shapes isBoth alike
  refine ⟨values', evaluated', fun other old live => ?_⟩
  obtain ⟨shapes, apart⟩ := each other live
  refine ⟨shapes.trans (congrArg _ (same other old)), ?_⟩
  rintro (free | isSame)
  · refine (apart fun precedes => free ?_).trans (same other old)
    exact (moves.grows.reaches_iff moves.consistent old).mp precedes.to_reflTransGen
  · have isNew : values' replacement = both replacement :=
      (each replacement (moves.replacement_live (acyclic id))).2 fun precedes =>
        moves.independent (acyclic id) precedes.to_reflTransGen
    have equal : both id = both replacement := by rw [isOld, ← isNew, isSame, isValue]
    obtain ⟨values'', evaluated'', all⟩ := substitutes.exists_evaluate isBoth equal
    cases Except.ok.inj (evaluated'.symm.trans evaluated'')
    exact (all other live).trans (same other old)

end General

/-- The two Subtracts differ by less than the tolerance, and not at all if the type before the
Convert can hold the shift. -/
theorem exists_isNear {before first second after : Graph Rat} {found : SubtractAfterConvert Rat}
    {id convert operand constant replacement : NodeId} {tensor : Tensor Rat}
    (moves : before.MovesSubtract found id constant replacement first second after)
    (pattern : before.SubtractsConverted id convert operand tensor found) {feeds : Assignment Rat}
    {data value : NDArray Rat} (has : before.HasValue feeds found.data.node data)
    (combined : NDArray.combine .subtract data tensor.values = .ok value) :
    ∃ difference, second.HasValue feeds replacement difference ∧
      NDArray.combine .subtract data found.shift.values = .ok difference ∧
      difference.IsNear value (1 / 10) ∧
      ((∀ element ∈ tensor.toList, found.shift.elementType.Represents element) →
        difference = value) := by
  have positive : 0 < (1 / 10 : Rat) := by decide +kernel
  have shift_eq := pattern.shift_eq
  rw [roundingTolerance_eq] at shift_eq
  have near : found.shift.values.IsNear tensor.values (1 / 10) := by
    rw [shift_eq]
    exact tensor.isNear_roundWithTolerance _ positive
  obtain ⟨difference, combined', isNear⟩ := near.exists_combine_subtract combined
  refine ⟨difference, ?_, combined', isNear, fun represents => ?_⟩
  · have hasData := moves.grows.hasValue moves.consistent has
    exact moves.appliesConstant.hasValue .subtract hasData combined'
  · rw [Tensor.roundWithTolerance_of_represents positive represents] at shift_eq
    have same : found.shift.values = tensor.values := by
      rw [shift_eq]
      rfl
    rw [same] at combined'
    exact Except.ok.inj (combined'.symm.trans combined)

end MovesSubtract

/-- A Subtract has come to stand before the Convert behind which it stood. What read the old one
reads the new one on the same slot, and only what the old one depended on can be gone. The new one
has a value close to that of the old one, and the same if the shift did not have to be rounded.
What does not depend on the old one keeps its value, and where that of the new one is the same,
everything does. -/
structure SubtractsEarly (before : Graph Rat) (id replacement : NodeId) (shift : Tensor Rat)
    (found : SubtractAfterConvert Rat) (after : Graph Rat) : Prop where
  isNew : before.contains replacement = false
  input?_eq : after.input? replacement 0 = some found.data
  elementType?_eq : after.elementType? replacement = some found.restoredType
  feeds : ∀ index reader slot, before.Feeds ⟨id, index⟩ reader slot →
    after.Feeds ⟨replacement, index⟩ reader slot
  unread : ∀ reader, ¬ after.Reads id reader
  stays : ∀ other, before.contains other = true → ¬ before.Reaches other id →
    after.contains other = true
  near : before.ConvertsAsDeclared → before.ReadsOnce id 0 → ∀ feeds value,
    before.HasValue feeds id value → ∃ value', after.HasValue feeds replacement value' ∧
      value'.IsNear value (1 / 10) ∧
      ((∀ element ∈ shift.toList, found.shift.elementType.Represents element) → value' = value)
  shape?_eq : before.ConvertsAsDeclared → before.ReadsOnce id 0 → ∀ feeds data value,
    before.HasValue feeds found.data.node data → before.shape? found.data.node = some data.shape →
    before.HasValue feeds id value → before.shape? id = some value.shape →
    after.shape? replacement = before.shape? id
  kept : ∀ feeds other value, before.HasValue feeds other value → ¬ before.Reaches id other →
    after.contains other = true → after.HasValue feeds other value
  evaluates : before.ConvertsAsDeclared → before.ReadsOnce id 0 →
    (∀ reader, before.Reads id reader → before.HasDistinctSlots reader) →
    ∀ feeds values, before.evaluate feeds = .ok values →
      ∃ values', after.evaluate feeds = .ok values' ∧
        ∀ other, before.contains other = true → after.contains other = true →
          (values' other).map NDArray.shape = (values other).map NDArray.shape ∧
            (¬ before.Reaches id other ∨ values' replacement = values id →
              values' other = values other)

section Runs

variable {before first second after : Graph Rat} {found : SubtractAfterConvert Rat}
  {id convert operand constant replacement : NodeId} {tensor : Tensor Rat}

theorem MovesSubtract.subtractsEarly
    (moves : before.MovesSubtract found id constant replacement first second after)
    (pattern : before.SubtractsConverted id convert operand tensor found)
    (acyclic : ¬ before.Precedes id id) :
    before.SubtractsEarly id replacement tensor found after := by
  have live := moves.replacement_live acyclic
  constructor
  case isNew => exact moves.fresh
  case input?_eq => exact moves.input?_replacement live 0
  case elementType?_eq => exact moves.elementType?_replacement live
  case feeds => exact fun _ _ _ => moves.feeds_replacement acyclic
  case unread => exact moves.not_reads_old acyclic
  case stays => exact fun _ => moves.survives acyclic
  case near =>
    intro converts once feeds value has
    obtain ⟨data, hasData, combined⟩ := pattern.exists_combine converts once has
    obtain ⟨difference, hasDifference, _, near⟩ := moves.exists_isNear pattern hasData combined
    exact ⟨difference, moves.hasValue_replacement acyclic hasDifference, near⟩
  case shape?_eq =>
    intro converts once feeds data value hasData isData has isShape
    obtain ⟨_, hasData', combined⟩ := pattern.exists_combine converts once has
    cases hasData.unique hasData'
    obtain ⟨difference, _, combined', near, _⟩ := moves.exists_isNear pattern hasData combined
    rw [moves.shape?_replacement isData combined' live, isShape, near.shape_eq]
  case kept => exact fun _ _ _ => moves.hasValue
  case evaluates =>
    intro converts once distinct feeds values evaluated
    obtain ⟨value, isValue, _⟩ := evaluateNode_of_evaluate evaluated pattern.live
    obtain ⟨data, hasData, combined⟩ :=
      pattern.exists_combine converts once (hasValue_of_evaluate evaluated isValue)
    obtain ⟨difference, hasDifference, _, near, _⟩ := moves.exists_isNear pattern hasData combined
    exact moves.exists_values distinct evaluated isValue hasDifference near.shape_eq

end Runs

end Graph

namespace GraphRevision

open QuantGraph.Graph Revision

/-- A Subtract is moved before a Convert only up to rounding; otherwise nothing changes. -/
theorem subtractsEarly_of_runOn {graph after : Graph Rat} {id : NodeId} {outcome : Option NodeId}
    (consistent : graph.IsConsistent)
    (ran : (subtractBeforeConvert id).runOn graph = (.ok outcome, after)) :
    match outcome with
    | none => after = graph
    | some replacement => ∃ convert constant shift found,
        graph.SubtractsConverted id convert constant shift found ∧
          (¬ graph.Precedes id id → graph.SubtractsEarly id replacement shift found after) := by
  have moved := (ensures_subtractBeforeConvert_moves consistent).of_runOn ran
  cases outcome with
  | none => exact moved.2
  | some replacement =>
      obtain ⟨found, _, _, _, moves⟩ := moved
      obtain ⟨convert, constant, shift, pattern⟩ :=
        subtractAfterConvert?_eq_some_iff.mp moves.present
      exact ⟨convert, constant, shift, found, pattern, moves.subtractsEarly pattern⟩

/-- Both the Convert and the shift of a difference are read by a sum too. -/
def sharedShift : List (Draft Rat) :=
  [{ op := .parameter, name := "x", declared := some { elementType := .u8, shape := [2] } },
    ((Op.convert .f32).draft "converted").readAll [NodeId.mk 0],
    (Op.constant (.scalar .f32 (49 / 16))).draft "shift",
    (Op.subtract.draft "shifted").readAll [NodeId.mk 1, NodeId.mk 2],
    (Op.add.draft "sum").readAll [NodeId.mk 1, NodeId.mk 2],
    (Op.result.draft "difference").readAll [NodeId.mk 3],
    (Op.result.draft "other").readAll [NodeId.mk 4]]

theorem subtractsEarly_sharedShift :
    ∃ (graph after : Graph Rat) (feeds values : Assignment Rat),
      Graph.empty.addAll sharedShift = .ok graph ∧ graph.IsConsistent ∧
      (subtractBeforeConvert (NodeId.mk 3)).runOn graph = (.ok (some (NodeId.mk 8)), after) ∧
      ¬ graph.Precedes (NodeId.mk 3) (NodeId.mk 3) ∧ graph.ConvertsAsDeclared ∧
      graph.ReadsOnce (NodeId.mk 3) 0 ∧
      (∀ reader, graph.Reads (NodeId.mk 3) reader → graph.HasDistinctSlots reader) ∧
      graph.evaluate feeds = .ok values ∧ ∃ convert constant shift found,
        graph.SubtractsConverted (NodeId.mk 3) convert constant shift found ∧
          graph.SubtractsEarly (NodeId.mk 3) (NodeId.mk 8) shift found after := by
  let feeds : Assignment Rat := Assignment.none.set (NodeId.mk 0)
    { shape := [2], data := #[10, 20], size_data := rfl }
  have ordered : ∀ draft ∈ sharedShift, draft.IsInOrder := by decide
  have made : (Graph.empty.addAll sharedShift).map (fun graph =>
      (((subtractBeforeConvert (NodeId.mk 3)).runOn graph).1, decide graph.ConvertsAsDeclared,
        (graph.evaluate feeds).map fun _ => ())) =
      .ok (.ok (some (NodeId.mk 8)), true, .ok ()) := by decide +kernel
  obtain ⟨graph, added, facts⟩ := Outcome.map_eq_ok.mp made
  simp only [Prod.mk.injEq] at facts
  obtain ⟨moved, converts, evaluated⟩ := facts
  obtain ⟨values, evaluated, _⟩ := Outcome.map_eq_ok.mp evaluated
  have wellFormed := Graph.wellFormed_empty.addAll ordered added
  have acyclic := wellFormed.acyclic (NodeId.mk 3)
  have ran : (subtractBeforeConvert (NodeId.mk 3)).runOn graph = (.ok (some (NodeId.mk 8)), _) :=
    Prod.ext moved rfl
  have distinct (id : NodeId) : graph.HasDistinctSlots id :=
    (wellFormed.exact id).hasDistinctSlots
  obtain ⟨convert, constant, shift, found, pattern, early⟩ :=
    subtractsEarly_of_runOn wellFormed.consistent ran
  exact ⟨graph, _, feeds, values, added, wellFormed.consistent, ran, acyclic,
    of_decide_eq_true converts, (distinct _).readsOnce 0, fun reader _ => distinct reader, evaluated,
    convert, constant, shift, found, pattern, early acyclic⟩

/-! ### What is not kept -/

/-- In a graph made from drafts a Subtract is moved. Before, a node has some elements, and
afterwards a node has others. -/
def Alters (drafts : List (Draft Rat)) (feeds : Assignment Rat) (id replacement : NodeId)
    (old : NodeId × List Rat) (new : NodeId × List Rat) : Prop :=
  ∃ graph after values values', Graph.empty.addAll drafts = .ok graph ∧ graph.IsConsistent ∧
    graph.ConvertsAsDeclared ∧
    (subtractBeforeConvert id).runOn graph = (.ok (some replacement), after) ∧
    graph.evaluate feeds = .ok values ∧ after.evaluate feeds = .ok values' ∧
    (values old.1).map NDArray.toList = some old.2 ∧
    (values' new.1).map NDArray.toList = some new.2

private theorem alters_of_eq {drafts : List (Draft Rat)} {feeds : Assignment Rat}
    {id replacement : NodeId} {old new : NodeId × List Rat}
    (made : (Graph.empty.addAll drafts).map (fun graph =>
      let moved := (subtractBeforeConvert id).runOn graph
      (decide graph.ConvertsAsDeclared, moved.1,
        (graph.evaluate feeds).map (fun values => (values old.1).map NDArray.toList),
        (moved.2.evaluate feeds).map fun values => (values new.1).map NDArray.toList)) =
      .ok (true, .ok (some replacement), .ok (some old.2), .ok (some new.2))) :
    Alters drafts feeds id replacement old new := by
  obtain ⟨graph, added, facts⟩ := Outcome.map_eq_ok.mp made
  simp only [Prod.mk.injEq] at facts
  obtain ⟨converts, moved, evaluated, evaluated'⟩ := facts
  obtain ⟨values, evaluated, isOld⟩ := Outcome.map_eq_ok.mp evaluated
  obtain ⟨values', evaluated', isNew⟩ := Outcome.map_eq_ok.mp evaluated'
  exact ⟨graph, _, values, values', added, (Graph.wellFormed_empty.consistent.addAll added).1,
    of_decide_eq_true converts, Prod.ext moved rfl, evaluated, evaluated', isOld, isNew⟩

/-- Numbers for the first nodes. -/
def fed (numbers : List Rat) : Assignment Rat :=
  numbers.zipIdx.foldl (fun feeds entry =>
    feeds.set (NodeId.mk entry.2) (.replicate [1] entry.1)) Assignment.none

/-- A parameter of one element. -/
def number (name : String) (type : ElementType) : Draft Rat :=
  { op := .parameter, name := name, declared := some { elementType := type, shape := [1] } }

/-- A Subtract with two outputs on its first slot and a constant on the next. -/
def crowdedDifference : List (Draft Rat) :=
  [number "x" .u8, number "y" .f32, ((Op.convert .f32).draft "converted").readAll [NodeId.mk 0],
    (Op.constant (.scalar .f32 3)).draft "shift",
    (((Op.subtract.draft "shifted").input (NodeId.mk 1).output 0).input (NodeId.mk 2).output 0).input
      (NodeId.mk 3).output 1,
    (Op.result.draft "output").readAll [NodeId.mk 4]]

/-- A product that reads a difference on a slot on which it reads two numbers as well. -/
def crowdedReader : List (Draft Rat) :=
  [number "x" .u8, number "y" .f32, number "z" .f32,
    ((Op.convert .f32).draft "converted").readAll [NodeId.mk 0],
    (Op.constant (.scalar .f32 3)).draft "shift",
    (Op.subtract.draft "shifted").readAll [NodeId.mk 3, NodeId.mk 4],
    (((Op.multiply.draft "product").input (NodeId.mk 5).output 0).input (NodeId.mk 1).output 0).input
      (NodeId.mk 2).output 0,
    (Op.result.draft "output").readAll [NodeId.mk 6]]

/-- A difference whose reader can be read by its Convert. -/
def readDifference : List (Draft Rat) :=
  [number "x" .u8, ((Op.convert .f32).draft "converted").readAll [NodeId.mk 0, NodeId.mk 0],
    (Op.constant (.scalar .f32 3)).draft "shift",
    (Op.subtract.draft "shifted").readAll [NodeId.mk 1, NodeId.mk 2],
    (Op.relu.draft "reader").readAll [NodeId.mk 3]]

/-- A difference that is declared to be longer than it is. -/
def stretchedDifference : List (Draft Rat) :=
  [number "x" .u8, ((Op.convert .f32).draft "converted").readAll [NodeId.mk 0],
    (Op.constant (.scalar .f32 3)).draft "shift",
    { (Op.subtract.draft "shifted").readAll [NodeId.mk 1, NodeId.mk 2] with
      declared := some { elementType := .f32, shape := [2] } },
    (Op.result.draft "output").readAll [NodeId.mk 3]]

set_option synthInstance.maxSize 512 in
/-- Where the shift is rounded, the readers of a difference read another value. The difference
itself changes when it reads two outputs on its first slot, and so does a reader that does. In a
cycle the reader of a difference can be lost. A declared shape is not taken over. -/
theorem alters_readers_and_crowded_and_cyclic_and_stretched :
    Alters (shiftedByte [.f32] (49 / 16)) (fed [10]) (NodeId.mk 3) (NodeId.mk 6)
      (NodeId.mk 4, [111 / 16]) (NodeId.mk 4, [7]) ∧
    Alters crowdedDifference (fed [10, 4]) (NodeId.mk 4) (NodeId.mk 7)
      (NodeId.mk 4, [6]) (NodeId.mk 7, [7]) ∧
    Alters crowdedReader (fed [10, 4, 5]) (NodeId.mk 5) (NodeId.mk 9)
      (NodeId.mk 6, [20]) (NodeId.mk 6, [35]) ∧
    (∃ drafted graph after replacement, Graph.empty.addAll readDifference = .ok drafted ∧
      drafted.setInput (NodeId.mk 1) 1 (NodeId.mk 4).output = .ok graph ∧ graph.IsConsistent ∧
      graph.ConvertsAsDeclared ∧
      (subtractBeforeConvert (NodeId.mk 3)).runOn graph = (.ok (some replacement), after) ∧
      graph.input? (NodeId.mk 4) 0 = some (NodeId.mk 3).output ∧
      after.input? (NodeId.mk 4) 0 = none) ∧
    ∃ graph after replacement, Graph.empty.addAll stretchedDifference = .ok graph ∧
      graph.IsConsistent ∧ graph.ConvertsAsDeclared ∧
      (subtractBeforeConvert (NodeId.mk 3)).runOn graph = (.ok (some replacement), after) ∧
      graph.shape? (NodeId.mk 3) = some [2] ∧ after.shape? replacement = some [1] := by
  refine ⟨alters_of_eq (by decide +kernel), alters_of_eq (by decide +kernel), alters_of_eq (by decide +kernel), ?cyclic, ?stretched⟩
  case cyclic =>
    have made : (Graph.empty.addAll readDifference).map (fun drafted =>
        (drafted.setInput (NodeId.mk 1) 1 (NodeId.mk 4).output).map fun graph =>
          let moved := (subtractBeforeConvert (NodeId.mk 3)).runOn graph
          (decide graph.ConvertsAsDeclared, moved.1, graph.input? (NodeId.mk 4) 0,
            moved.2.input? (NodeId.mk 4) 0)) =
        .ok (.ok (true, .ok (some (NodeId.mk 6)), some (NodeId.mk 3).output, none)) := by decide +kernel
    obtain ⟨drafted, added, facts⟩ := Outcome.map_eq_ok.mp made
    obtain ⟨graph, updated, facts⟩ := Outcome.map_eq_ok.mp facts
    simp only [Prod.mk.injEq] at facts
    obtain ⟨converts, moved, isRead, isLost⟩ := facts
    have consistent := (Graph.wellFormed_empty.consistent.addAll added).1
    exact ⟨drafted, graph, _, NodeId.mk 6, added, updated, isConsistent_setInput consistent updated,
      of_decide_eq_true converts, Prod.ext moved rfl, isRead, isLost⟩
  case stretched =>
    have made : (Graph.empty.addAll stretchedDifference).map (fun graph =>
        let moved := (subtractBeforeConvert (NodeId.mk 3)).runOn graph
        (decide graph.ConvertsAsDeclared, moved.1, graph.shape? (NodeId.mk 3),
          moved.2.shape? (NodeId.mk 6))) =
        .ok (true, .ok (some (NodeId.mk 6)), some [2], some [1]) := by decide +kernel
    obtain ⟨graph, added, facts⟩ := Outcome.map_eq_ok.mp made
    simp only [Prod.mk.injEq] at facts
    obtain ⟨converts, moved, isDeclared, isInferred⟩ := facts
    exact ⟨graph, _, NodeId.mk 6, added, (Graph.wellFormed_empty.consistent.addAll added).1,
      of_decide_eq_true converts, Prod.ext moved rfl, isDeclared, isInferred⟩

end GraphRevision

end QuantGraph
