import QuantGraph.Dequantization.Move
import QuantGraph.Proofs.Graph.Mutation
import QuantGraph.Proofs.Revision.Primitives

/-! The nodes that the steps of a revision create, in any graph whatsoever. -/

namespace QuantGraph

@[simp] theorem Draft.op_withPrecision? (draft : Draft α) (precision : Option ElementType) :
    (draft.withPrecision? precision).op = draft.op := by
  cases precision <;> rfl

namespace GraphRevision

open Revision

theorem ensures_extend_of_eq {graph : Graph α}
    {extension : Graph α → Except GraphError (NodeId × Graph α)}
    {done : NodeId → Graph α → Prop}
    (ok : ∀ id after, extension graph = .ok (id, after) → done id after) :
    (extend extension).Ensures graph (fun _ => True) done := by
  refine ensures_extend.mpr ?_
  cases extended : extension graph with
  | error => trivial
  | ok result => exact ok result.1 result.2 extended

end GraphRevision

namespace Graph.Creates

/-- The kinds of node that dequantizations and regrouped sums and products are made of. -/
structure AllowsArithmetic (allowed : OpKind → Prop) : Prop where
  add : allowed .add
  constant : allowed .constant
  convert : allowed .convert
  multiply : allowed .multiply
  subtract : allowed .subtract

/-- A fake quantization takes the place of another one. -/
structure AllowsQuantization (allowed : OpKind → Prop) : Prop extends AllowsArithmetic allowed where
  fakeQuantize : allowed .fakeQuantize

theorem allowsQuantization_any : AllowsQuantization fun _ => True :=
  ⟨⟨trivial, trivial, trivial, trivial, trivial⟩, trivial⟩

theorem allowsArithmetic_ne : AllowsArithmetic fun kind => kind ≠ .fakeQuantize := by
  constructor <;> decide

end Graph.Creates

namespace Graph.Makes

open GraphRevision Revision Creates

variable {allowed : OpKind → Prop} {start graph : Graph α} {count : Nat} {id : NodeId}

/-! ## Single steps -/

section Steps

variable (makes : start.Makes allowed count graph)

include makes

theorem ensures_add {draft : Draft α} {done : NodeId → Graph α → Prop}
    (allows : allowed draft.op.kind)
    (ok : ∀ id after, start.Makes allowed (count + 1) after → done id after) :
    (GraphRevision.add draft).Ensures graph (fun _ => True) done :=
  ensures_extend_of_eq fun id after added => ok id after (makes.add allows added)

theorem ensures_addCopy {outputs : List Output} {done : NodeId → Graph α → Prop}
    (allows : ∀ kind, graph.kind? id = some kind → allowed kind)
    (ok : ∀ copy after, start.Makes allowed (count + 1) after → done copy after) :
    (GraphRevision.addCopy id outputs).Ensures graph (fun _ => True) done := by
  refine ensures_extend_of_eq fun copy after copied => ok copy after ?_
  unfold Graph.addCopy at copied
  split at copied
  case h_1 node found =>
    have kind_eq : (copyDraft node outputs).op.kind = node.kind :=
      congrArg Op.kind (copyDraft_eq node outputs).1
    refine makes.add ?_ copied
    rw [kind_eq]
    exact allows node.kind (by rw [kind?, found, Option.map_some])
  case h_2 => cases copied

theorem ensures_perform (mutation : Mutation α) {done : PUnit → Graph α → Prop}
    (retains : ∀ after, graph.perform mutation = .ok after → graph.Retains after)
    (ok : ∀ after, start.Makes allowed count after → done PUnit.unit after) :
    (GraphRevision.change fun graph => graph.perform mutation).Ensures graph (fun _ => True)
      done := by
  refine GraphRevision.ensures_change.mpr ?_
  cases performed : graph.perform mutation with
  | error => trivial
  | ok after => exact ok after (makes.perform performed (retains after performed))

theorem ensures_replace {old new : NodeId} {done : PUnit → Graph α → Prop}
    (ok : ∀ after, start.Makes allowed count after → done PUnit.unit after) :
    (GraphRevision.replace old new).Ensures graph (fun _ => True) done :=
  makes.ensures_perform (.replace old new) (fun _ => retains_replace) ok

theorem ensures_setInput {consumer : NodeId} {slot : UInt8} {source : Output}
    {done : PUnit → Graph α → Prop}
    (ok : ∀ after, start.Makes allowed count after → done PUnit.unit after) :
    (GraphRevision.setInput consumer slot source).Ensures graph (fun _ => True) done :=
  makes.ensures_perform (.setInput consumer slot source) (fun _ => retains_setInput) ok

theorem ensures_setPrecision {precision : ElementType} {done : PUnit → Graph α → Prop}
    (ok : ∀ after, start.Makes allowed count after → done PUnit.unit after) :
    (GraphRevision.setPrecision id precision).Ensures graph (fun _ => True) done :=
  makes.ensures_perform (.setPrecision id precision) (fun _ => retains_setPrecision) ok

theorem ensures_overridePrecision {precision : ElementType} {done : PUnit → Graph α → Prop}
    (ok : ∀ after, start.Makes allowed count after → done PUnit.unit after) :
    (GraphRevision.overridePrecision id precision).Ensures graph (fun _ => True) done :=
  makes.ensures_perform (.overridePrecision id precision) (fun _ => retains_overridePrecision) ok

theorem prune (id : NodeId) : start.Makes allowed count (graph.prune id).2 :=
  @Makes.perform _ _ _ _ _ _ (.prune id) makes rfl (retains_pruneAll graph [id] [])

theorem ensures_adoptPrecision {source : Output} {name : String} :
    (adoptPrecision id source name).Ensures graph (fun _ => True)
      fun _ after => start.Makes allowed count after := by
  unfold adoptPrecision
  rw [ensures_bind, ensures_get]
  dsimp only
  split
  case isTrue => trivial
  case isFalse =>
    cases graph.elementType? source.node with
    | none => trivial
    | some => exact makes.ensures_overridePrecision fun _ makes => makes

end Steps

/-! ## Arithmetic and dequantization -/

section Arithmetic

variable (makes : start.Makes allowed count graph) (arithmetic : AllowsArithmetic allowed)

include makes arithmetic

theorem ensures_addConstant {tensor : Tensor α} {name : String} {done : NodeId → Graph α → Prop}
    (ok : ∀ id after, start.Makes allowed (count + 1) after → done id after) :
    (GraphRevision.addConstant tensor name).Ensures graph (fun _ => True) done :=
  makes.ensures_add arithmetic.constant ok

theorem ensures_attach {values : Dequantization α} {data : Output} {name : String}
    {withConvert : Bool} {done : DequantizationChain → Graph α → Prop}
    (ok : ∀ chain after more, start.Makes allowed (count + more + 1) after → done chain after) :
    (values.attach data name withConvert).Ensures graph (fun _ => True) done := by
  unfold Dequantization.attach
  have converted : (values.attachConvert data name withConvert).Ensures graph (fun _ => True)
      fun _ after => ∃ more, start.Makes allowed (count + more) after := by
    unfold Dequantization.attachConvert
    split
    case isTrue => exact ensures_bind.mpr (makes.ensures_add arithmetic.convert
      fun _ _ makes => ⟨1, makes⟩)
    case isFalse => exact ⟨0, makes⟩
  refine ensures_bind.mpr (converted.mono (fun _ _ => trivial) ?_)
  rintro convert middle ⟨first, makes⟩
  have subtracted : (values.attachSubtract ((convert.map NodeId.output).getD data) name).Ensures
      middle (fun _ => True) fun _ after =>
        ∃ more, start.Makes allowed (count + first + more) after := by
    unfold Dequantization.attachSubtract
    split
    case h_1 =>
      exact ensures_bind.mpr (makes.ensures_addConstant arithmetic fun _ _ makes =>
        ensures_bind.mpr (makes.ensures_add arithmetic.subtract fun _ _ makes =>
          ⟨2, makes⟩))
    case h_2 => exact ⟨0, makes⟩
  refine ensures_bind.mpr (subtracted.mono (fun _ _ => trivial) ?_)
  rintro subtract last ⟨second, makes⟩
  refine ensures_bind.mpr (makes.ensures_addConstant arithmetic fun _ _ makes =>
    ensures_bind.mpr (makes.ensures_add arithmetic.multiply fun _ _ makes => ?_))
  exact ok _ _ (first + second + 1) (by rw [← Nat.add_assoc, ← Nat.add_assoc]; exact makes)

theorem ensures_convertLike {chain : DequantizationChain} {plan : ChainMove} :
    (convertLike id chain plan).Ensures graph (fun _ => True)
      fun _ after => ∃ more, start.Makes allowed (count + more) after := by
  unfold convertLike
  rw [ensures_bind, ensures_get]
  dsimp only
  cases graph.elementType? plan.multiply with
  | none => trivial
  | some multiplyType =>
      dsimp only
      split
      case isTrue => exact ⟨0, makes⟩
      case isFalse => exact makes.ensures_add arithmetic.convert fun _ _ makes => ⟨1, makes⟩

theorem ensures_shiftLike {plan : ChainMove} :
    (shiftLike id plan).Ensures graph (fun _ => True)
      fun _ after => ∃ more, start.Makes allowed (count + more) after := by
  unfold shiftLike
  split
  case h_1 => exact makes.ensures_add arithmetic.subtract fun _ _ makes => ⟨1, makes⟩
  case h_2 => exact ⟨0, makes⟩

variable [Scalar α]

theorem ensures_subtractBeforeConvert {done : Option NodeId → Graph α → Prop}
    (ok : ∀ result after more, start.Makes allowed (count + more) after → done result after) :
    (subtractBeforeConvert id).Ensures graph (fun _ => True) done := by
  unfold subtractBeforeConvert
  rw [ensures_bind, ensures_get]
  split
  case h_1 => exact ok Option.none graph 0 makes
  case h_2 =>
    refine ensures_bind.mpr (makes.ensures_addConstant arithmetic fun _ _ makes => ?_)
    refine ensures_bind.mpr (makes.ensures_add arithmetic.subtract fun _ _ makes => ?_)
    exact ensures_bind.mpr (makes.ensures_replace fun _ makes => ok _ _ 2 makes)

/-- The moved operation is copied, whatever its kind. -/
theorem ensures_moveChainAfter {chain : DequantizationChain} {updatePrecision moveSubtract : Bool}
    (copied : ∀ kind, graph.kind? id = some kind → allowed kind) :
    (moveChainAfter id chain updatePrecision moveSubtract).Ensures graph (fun _ => True)
      fun _ after => ∃ more, start.Makes allowed (count + more + 1) after := by
  unfold moveChainAfter
  rw [ensures_bind, ensures_get, ensures_bind]
  refine ensures_ofExcept trivial fun plan _ => ?_
  refine ensures_bind.mpr (makes.ensures_addCopy copied fun copy middle makes => ?_)
  refine ensures_ite_bind (fun after => start.Makes allowed (count + 1) after)
    (fun _ => makes.ensures_adoptPrecision) (fun _ => makes) ?_
  intro adopted makes
  refine ensures_bind.mpr ((makes.ensures_convertLike arithmetic).mono (fun _ _ => trivial) ?_)
  rintro converted middle ⟨first, makes⟩
  refine ensures_bind.mpr ((makes.ensures_shiftLike arithmetic).mono (fun _ _ => trivial) ?_)
  rintro shifted middle ⟨second, makes⟩
  refine ensures_bind.mpr (makes.ensures_add arithmetic.multiply fun _ _ makes => ?_)
  refine ensures_bind.mpr (makes.ensures_replace fun _ makes => ?_)
  have total (more : Nat) : count + 1 + first + second + 1 + more =
      count + (1 + first + second + more) + 1 := by omega
  split
  case h_1 =>
    refine ensures_bind.mpr (makes.ensures_subtractBeforeConvert arithmetic ?_)
    exact fun _ _ more makes => ⟨_, total more ▸ makes⟩
  case h_2 => exact ⟨_, total 0 ▸ makes⟩

end Arithmetic

end Graph.Makes

end QuantGraph
