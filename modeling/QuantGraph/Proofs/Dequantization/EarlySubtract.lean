import Mathlib
import QuantGraph.Proofs.Dequantization.Restoration
import QuantGraph.Proofs.Dequantization.Simplify
import QuantGraph.Proofs.Graph.Construction
import QuantGraph.Proofs.Revision.Success

/-! Subtracting before a Convert, in any graph whose bookkeeping is in order, and what a second
attempt finds there. The new Subtract reads what the Convert reads. If that is another Convert to
real numbers, the same rule can apply again. -/

namespace QuantGraph

namespace Graph

variable [Scalar α] {before first second after : Graph α} {found : SubtractAfterConvert α}
  {id other constant replacement : NodeId}

/-! ## The pattern -/

namespace SubtractsConverted

variable {convert : NodeId} {tensor : Tensor α}
  (pattern : before.SubtractsConverted id convert constant tensor found)

include pattern

theorem live : before.contains id = true := contains_of_kind? pattern.isSubtract

theorem reads_convert : before.Reads convert id := reads_of_inputNode? pattern.readsConvert

theorem reads_data : before.Reads found.data.node convert := reads_of_input? pattern.readsData

theorem precedes : before.Precedes found.data.node id :=
  .head pattern.reads_data (.single pattern.reads_convert)

theorem data_live (consistent : before.IsConsistent) : before.contains found.data.node = true :=
  (consistent.reads_live pattern.reads_data).1

end SubtractsConverted

/-- A Subtract can be moved before a Convert that is applied to what another Convert gives as real
numbers. -/
def StacksConverts (graph : Graph α) (id : NodeId) : Prop :=
  ∃ found, graph.subtractAfterConvert? id = some found ∧
    graph.kind? found.data.node = some .convert ∧ found.shift.elementType.isReal = true

/-- A Subtract can be moved before two Converts, one after the other: its rounded shift can be
rounded into the type that the second one reads. -/
def MovesAgain (graph : Graph α) (id : NodeId) : Prop :=
  ∃ found data type, graph.subtractAfterConvert? id = some found ∧
    graph.kind? found.data.node = some .convert ∧ found.shift.elementType.isReal = true ∧
    graph.input? found.data.node 0 = some data ∧ graph.elementType? data.node = some type ∧
    (found.shift.roundWithTolerance type roundingTolerance).elementType = type

/-! ## The change -/

/-- A Subtract before a Convert takes the place of one behind it: the rounded shift is added, then
the Subtract, and then the old one is replaced and what nothing reads any more is gone. -/
structure MovesSubtract (before : Graph α) (found : SubtractAfterConvert α)
    (id constant replacement : NodeId) (first second after : Graph α) : Prop where
  present : before.subtractAfterConvert? id = some found
  consistent : before.IsConsistent
  gainsConstant : before.Gains ((Op.constant found.shift).draft "") [] constant first
  gains : first.Gains (((Op.subtract.draft found.name).input found.data 0).input constant.output 1
    |>.withPrecision found.restoredType) [found.data, constant.output] replacement second
  sheds : (second.redirect id replacement).Sheds id after

namespace MovesSubtract

variable (moves : before.MovesSubtract found id constant replacement first second after)

include moves

theorem live : before.contains id = true := by
  obtain ⟨_, _, _, pattern⟩ := subtractAfterConvert?_eq_some_iff.mp moves.present
  exact pattern.live

theorem grows : before.Grows second := moves.gainsConstant.grows.trans moves.gains.grows

theorem fresh : before.contains replacement = false := by
  refine Bool.eq_false_iff.mpr fun live => ?_
  exact moves.gains.ne_of_live (moves.gainsConstant.grows.live live) rfl

theorem ne_replacement (live : before.contains other = true) : other ≠ replacement :=
  ne_of_contains live moves.fresh

/-- Nothing that was there reads the new Subtract yet. -/
theorem not_reads (reader : NodeId) : ¬ second.Reads replacement reader :=
  moves.gains.not_reads moves.gainsConstant.consistent reader

theorem appliesConstant : second.AppliesConstant .subtract found.data found.shift replacement :=
  appliesConstant_of_gains moves.gainsConstant moves.gains

/-! ### Nodes that are left -/

theorem node_eq (live : after.contains other = true) (old : before.contains other = true) :
    after.node? other = before.node? other :=
  (moves.sheds.node_eq other live).trans (moves.grows.node_eq other old)

/-- What does not read the old Subtract is left with the edges that it had. -/
theorem incoming_eq (live : after.contains other = true) (old : before.contains other = true)
    (unread : ¬ before.Reads id other) : after.incoming other = before.incoming other := by
  rw [moves.sheds.incoming_eq live, incoming_redirect, moves.grows.incoming_eq old]
  intro edge member moved
  obtain ⟨earlier, into⟩ := mem_incoming.mp member
  exact unread ((moves.grows.reads_iff old).mp ⟨edge, earlier, moved.1, into⟩)

theorem incoming_replacement (live : after.contains replacement = true) :
    after.incoming replacement = second.incoming replacement := by
  rw [moves.sheds.incoming_eq live, incoming_redirect]
  intro edge member moved
  exact moved.2 (mem_incoming.mp member).2

theorem inputs_replacement (live : after.contains replacement = true) :
    after.inputs replacement = [found.data, constant.output] := by
  rw [inputs, moves.incoming_replacement live, ← inputs, moves.gains.inputs_new]

/-- The new Subtract reads what the Convert read, and the rounded shift. -/
theorem input?_replacement (live : after.contains replacement = true) (slot : Nat) :
    after.input? replacement slot = [found.data, constant.output][slot]? := by
  have exact : after.HasExactSlots replacement := by
    unfold HasExactSlots inputCount
    rw [moves.incoming_replacement live]
    exact moves.gains.exact_new
  rw [exact.input?_eq, moves.inputs_replacement live]

theorem op?_replacement (live : after.contains replacement = true) :
    after.op? replacement = some .subtract :=
  (op?_congr (moves.sheds.node_eq replacement live)).trans moves.appliesConstant.1

/-- The new Subtract is declared to give what the Convert gave. -/
theorem elementType?_replacement (live : after.contains replacement = true) :
    after.elementType? replacement = some found.restoredType := by
  obtain ⟨type, _, present⟩ := moves.gains.node_new
  have present : (second.redirect id replacement).node? replacement = _ := present
  rw [elementType?, moves.sheds.node_eq replacement live, present]
  rfl

theorem constant?_constant (live : after.contains constant = true) :
    after.constant? constant = some found.shift := by
  have isOp : second.op? constant = some (.constant found.shift) :=
    (moves.gains.grows.sameAt moves.gainsConstant.live).1.trans moves.gainsConstant.op?_new
  refine constant?_eq_some_iff.mpr ?_
  exact (op?_congr (moves.sheds.node_eq constant live)).trans isOp

/-- Unless the old Subtract depends on itself, only what it depended on can be lost. -/
theorem reaches_of_redirect (acyclic : ¬ before.Precedes id id)
    (reaches : (second.redirect id replacement).Reaches other id) : before.Reaches other id := by
  rcases reaches_redirect reaches with reaches | ⟨reader, reads, _, reaches⟩
  · exact (moves.grows.reaches_iff moves.consistent moves.live).mp reaches
  · have back := (moves.grows.reaches_iff moves.consistent moves.live).mp reaches
    have readerLive := moves.consistent.reaches_live moves.live back
    exact absurd (.head' ((moves.grows.reads_iff readerLive).mp reads) back) acyclic

theorem survives (acyclic : ¬ before.Precedes id id) (old : before.contains other = true)
    (apart : ¬ before.Reaches other id) : after.contains other = true :=
  moves.sheds.keeps (moves.grows.live old) fun reaches =>
    apart (moves.reaches_of_redirect acyclic reaches)

theorem replacement_live (acyclic : ¬ before.Precedes id id) :
    after.contains replacement = true := by
  refine moves.sheds.keeps moves.gains.live fun reaches => ?_
  have old := moves.consistent.reaches_live moves.live (moves.reaches_of_redirect acyclic reaches)
  exact moves.ne_replacement old rfl

/-! ### Trying again -/

/-- What the new Subtract reads first is as it was. -/
theorem node_data (live : after.contains replacement = true) :
    after.contains found.data.node = true ∧
      after.node? found.data.node = before.node? found.data.node := by
  obtain ⟨_, _, _, pattern⟩ := subtractAfterConvert?_eq_some_iff.mp moves.present
  have reads := reads_of_input? (moves.input?_replacement live 0)
  have dataLive := (moves.sheds.consistent.reads_live reads).1
  exact ⟨dataLive, moves.node_eq dataLive (pattern.data_live moves.consistent)⟩

theorem readsConstant (live : after.contains replacement = true) :
    after.inputNode? replacement 1 = some constant ∧
      after.constant? constant = some found.shift := by
  have read := moves.input?_replacement live 1
  exact ⟨congrArg (Option.map Output.node) read,
    moves.constant?_constant (moves.sheds.consistent.reads_live (reads_of_input? read)).1⟩

/-- The new Subtract could only be moved before what it reads, with the shift that was rounded. -/
theorem operands_eq {convert operand : NodeId} {tensor : Tensor α} {next : SubtractAfterConvert α}
    (again : after.SubtractsConverted replacement convert operand tensor next) :
    convert = found.data.node ∧ tensor = found.shift := by
  obtain ⟨readsConstant, isConstant⟩ := moves.readsConstant again.live
  have readsConvert := again.readsConvert
  rw [inputNode?, moves.input?_replacement again.live] at readsConvert
  cases readsConstant.symm.trans again.readsConstant
  exact ⟨(Option.some.inj readsConvert).symm,
    Option.some.inj (again.isConstant.symm.trans isConstant)⟩

/-- If the new Subtract can be moved in turn, then the Convert was applied to what another Convert
gives as real numbers. -/
theorem stacksConverts {next : SubtractAfterConvert α}
    (again : after.subtractAfterConvert? replacement = some next) : before.StacksConverts id := by
  obtain ⟨_, _, _, nextPattern⟩ := subtractAfterConvert?_eq_some_iff.mp again
  obtain ⟨_, _, _, pattern⟩ := subtractAfterConvert?_eq_some_iff.mp moves.present
  obtain ⟨rfl, -⟩ := moves.operands_eq nextPattern
  have same := (moves.node_data nextPattern.live).2
  have type_eq : found.shift.elementType = next.restoredType := by
    have restores := nextPattern.restores
    rw [elementType?_congr same, pattern.typed] at restores
    exact Option.some.inj restores
  exact ⟨found, moves.present, (kind?_congr same).symm.trans nextPattern.isConvert,
    type_eq ▸ nextPattern.isReal⟩

/-- The new Subtract can be moved in turn exactly if the rounded shift can be rounded again, into
the type that the Convert before the other one reads. -/
theorem again_iff (acyclic : ¬ before.Precedes id id) :
    (∃ next, after.subtractAfterConvert? replacement = some next) ↔ before.MovesAgain id := by
  obtain ⟨_, _, _, pattern⟩ := subtractAfterConvert?_eq_some_iff.mp moves.present
  have live := moves.replacement_live acyclic
  obtain ⟨dataLive, same⟩ := moves.node_data live
  have input?_data : after.input? found.data.node 0 = before.input? found.data.node 0 := by
    rw [input?, input?, moves.incoming_eq dataLive (pattern.data_live moves.consistent)]
    exact fun reads => acyclic (.head reads pattern.precedes)
  have type_eq {data : Output} (read : before.input? found.data.node 0 = some data) :
      after.elementType? data.node = before.elementType? data.node := by
    have reads := reads_of_input? (input?_data.trans read)
    exact elementType?_congr (moves.node_eq (moves.sheds.consistent.reads_live reads).1
      (moves.consistent.reads_live (reads_of_input? read)).1)
  constructor
  · rintro ⟨next, again⟩
    obtain ⟨_, present, isConvert, isReal⟩ := moves.stacksConverts again
    cases moves.present.symm.trans present
    obtain ⟨_, _, _, nextPattern⟩ := subtractAfterConvert?_eq_some_iff.mp again
    obtain ⟨rfl, rfl⟩ := moves.operands_eq nextPattern
    have read := input?_data.symm.trans nextPattern.readsData
    exact ⟨found, next.data, next.shift.elementType, present, isConvert, isReal, read,
      (type_eq read).symm.trans nextPattern.typed,
      (congrArg Tensor.elementType nextPattern.shift_eq).symm⟩
  · rintro ⟨_, data, type, present, isConvert, isReal, read, typed, fits⟩
    cases moves.present.symm.trans present
    obtain ⟨readsConstant, isConstant⟩ := moves.readsConstant live
    let next : SubtractAfterConvert α :=
      { name := after.name replacement
        data := data
        shift := found.shift.roundWithTolerance type roundingTolerance
        restoredType := found.shift.elementType }
    have again : after.SubtractsConverted replacement found.data.node constant found.shift next :=
      { isSubtract := kind?_of_op? (moves.op?_replacement live)
        readsConvert := congrArg (Option.map Output.node) (moves.input?_replacement live 0)
        isConvert := (kind?_congr same).trans isConvert
        restores := (elementType?_congr same).trans pattern.typed
        isReal := isReal
        readsData := input?_data.trans read
        typed := ((type_eq read).trans typed).trans (congrArg some fits.symm)
        readsConstant := readsConstant
        isConstant := isConstant
        shift_eq := by rw [fits]
        name_eq := rfl }
    exact ⟨next, subtractAfterConvert?_eq_some_iff.mpr ⟨_, _, _, again⟩⟩

end MovesSubtract

end Graph

/-! ## Runs -/

namespace GraphRevision

open QuantGraph.Graph Revision

section Runs

variable [Scalar α] {graph after : Graph α} {id replacement : NodeId}

/-- Without the pattern nothing changes. With it, the Subtract is moved. -/
theorem ensures_subtractBeforeConvert_moves (consistent : graph.IsConsistent) :
    (subtractBeforeConvert id).Ensures graph (fun _ => True) fun outcome after =>
      match outcome with
      | none => graph.subtractAfterConvert? id = none ∧ after = graph
      | some replacement => ∃ found constant first second,
          graph.MovesSubtract found id constant replacement first second after := by
  unfold subtractBeforeConvert
  rw [ensures_bind, ensures_get]
  split
  case h_1 absent => exact ⟨absent, rfl⟩
  case h_2 found present =>
    obtain ⟨_, _, _, pattern⟩ := subtractAfterConvert?_eq_some_iff.mp present
    apply ensures_gainWithConstant consistent found.data
      (fun _ => ⟨rfl, by simp⟩) fun _ => trivial
    intro constant first replacement second gainsConstant gains
    have different : id ≠ replacement :=
      gains.ne_of_live (gainsConstant.grows.live pattern.live)
    apply ensures_bind.mpr
    apply ensures_change.mpr
    split
    case h_1 after replaced =>
      exact ⟨found, constant, first, second, present, consistent, gainsConstant, gains,
        (sheds_of_replace gains.consistent different replaced).2⟩
    case h_2 => trivial

theorem runOn_subtractBeforeConvert_eq_none_iff (consistent : graph.IsConsistent) :
    (subtractBeforeConvert id).runOn graph = (.ok none, graph) ↔
      graph.subtractAfterConvert? id = none := by
  constructor
  · intro ran
    exact ((ensures_subtractBeforeConvert_moves consistent).of_runOn ran).1
  · intro absent
    have declines : (subtractBeforeConvert id).Ensures graph (fun _ => False)
        fun outcome after => outcome = none ∧ after = graph := by
      unfold subtractBeforeConvert
      rw [ensures_bind, ensures_get, absent]
      exact ⟨rfl, rfl⟩
    obtain ⟨_, _, ran, rfl, rfl⟩ := declines.exists_runOn
    exact ran

/-- Once a Subtract has been moved before a Convert, it is moved no further, unless the Convert was
applied to what another Convert gives as real numbers. Where it does not depend on itself, it is
then moved exactly if the rounded shift can be rounded into the type before that Convert too. -/
theorem runOn_subtractBeforeConvert_again (consistent : graph.IsConsistent)
    (ran : (subtractBeforeConvert id).runOn graph = (.ok (some replacement), after)) :
    (¬ graph.StacksConverts id →
      (subtractBeforeConvert replacement).runOn after = (.ok none, after)) ∧
    (¬ graph.Precedes id id →
      ((subtractBeforeConvert replacement).runOn after = (.ok none, after) ↔
        ¬ graph.MovesAgain id)) := by
  obtain ⟨found, constant, first, second, moves⟩ :=
    (ensures_subtractBeforeConvert_moves consistent).of_runOn ran
  rw [runOn_subtractBeforeConvert_eq_none_iff moves.sheds.consistent]
  constructor
  · intro single
    refine Option.eq_none_iff_forall_ne_some.mpr fun next again => ?_
    exact single (moves.stacksConverts again)
  · intro acyclic
    rw [← moves.again_iff acyclic, not_exists]
    exact Option.eq_none_iff_forall_ne_some

end Runs

/-- A byte is converted to some types, one after the other, and then something is taken away. -/
def shiftedByte (types : List ElementType) (shift : Rat) : List (Draft Rat) :=
  let converts := types.mapIdx fun position type =>
    ((Op.convert type).draft "converted").readAll [NodeId.mk position]
  { op := .parameter, name := "x", declared := some { elementType := .u8, shape := [1] } } ::
    converts ++
    [(Op.constant (.scalar .f32 shift)).draft "shift",
      (Op.subtract.draft "shifted").readAll [NodeId.mk types.length, NodeId.mk (types.length + 1)],
      (Op.result.draft "output").readAll [NodeId.mk (types.length + 2)]]

theorem runOn_subtractBeforeConvert_again_shiftedByte :
    ∃ graph after : Graph Rat, Graph.empty.addAll (shiftedByte [.f32] 3) = .ok graph ∧
      graph.IsConsistent ∧
      (subtractBeforeConvert (NodeId.mk 3)).runOn graph = (.ok (some (NodeId.mk 6)), after) ∧
      ¬ graph.StacksConverts (NodeId.mk 3) ∧ ¬ graph.Precedes (NodeId.mk 3) (NodeId.mk 3) ∧
      (subtractBeforeConvert (NodeId.mk 6)).runOn after = (.ok none, after) ∧
      ¬ graph.MovesAgain (NodeId.mk 3) := by
  have ordered : ∀ draft ∈ shiftedByte [.f32] 3, draft.IsInOrder := by decide
  have made : (Graph.empty.addAll (shiftedByte [.f32] 3)).map (fun graph =>
      ((graph.subtractAfterConvert? (NodeId.mk 3)).map fun found => graph.kind? found.data.node,
        ((subtractBeforeConvert (NodeId.mk 3)).runOn graph).1)) =
      .ok (some (some .parameter), .ok (some (NodeId.mk 6))) := by decide +kernel
  obtain ⟨graph, added, facts⟩ := Outcome.map_eq_ok.mp made
  obtain ⟨pattern, moved⟩ := Prod.mk.inj facts
  have wellFormed := Graph.wellFormed_empty.addAll ordered added
  have single : ¬ graph.StacksConverts (NodeId.mk 3) := by
    rintro ⟨found, present, isConvert, _⟩
    rw [present, Option.map_some, isConvert] at pattern
    cases pattern
  have acyclic := wellFormed.acyclic (NodeId.mk 3)
  have ran : (subtractBeforeConvert (NodeId.mk 3)).runOn graph = (.ok (some (NodeId.mk 6)), _) :=
    Prod.ext moved rfl
  obtain ⟨alone, exactly⟩ := runOn_subtractBeforeConvert_again wellFormed.consistent ran
  exact ⟨graph, _, added, wellFormed.consistent, ran, single, acyclic, alone single,
    (exactly acyclic).mp (alone single)⟩

/-- A Subtract behind two Converts is moved twice, one Convert at a time. -/
theorem exists_subtractBeforeConvert_again :
    ∃ graph after : Graph Rat, Graph.empty.addAll (shiftedByte [.f16, .f32] 3) = .ok graph ∧
      graph.IsConsistent ∧
      (subtractBeforeConvert (NodeId.mk 4)).runOn graph = (.ok (some (NodeId.mk 7)), after) ∧
      (subtractBeforeConvert (NodeId.mk 7)).runOn after ≠ (.ok none, after) := by
  have made : (Graph.empty.addAll (shiftedByte [.f16, .f32] 3)).map (fun graph =>
      let moved := (subtractBeforeConvert (NodeId.mk 4)).runOn graph
      (moved.1, (((subtractBeforeConvert (NodeId.mk 7)).runOn moved.2).1.map Option.isSome))) =
      .ok (.ok (some (NodeId.mk 7)), .ok true) := by decide +kernel
  obtain ⟨graph, added, facts⟩ := Outcome.map_eq_ok.mp made
  obtain ⟨moved, again⟩ := Prod.mk.inj facts
  refine ⟨graph, _, added, (Graph.wellFormed_empty.consistent.addAll added).1, Prod.ext moved rfl,
    fun still => ?_⟩
  rw [still] at again
  cases again

end GraphRevision

end QuantGraph
