import QuantGraph.Proofs.Joint.Quantized
import QuantGraph.Proofs.Rules.Creation

/-! What the rules for the surroundings of a Concat tell is what they do, in any graph
whatsoever. -/

namespace QuantGraph

namespace GraphRevision

open QuantGraph.Graph Revision Creates

variable [Scalar α] {allowed : OpKind → Prop} {start graph : Graph α} {count : Nat}
  {subgraph : Subgraph} {cache : DequantizationCache α} {withConvert : Bool}

theorem ensures_dequantizeLayer_makes (arithmetic : AllowsArithmetic allowed)
    (makes : start.Makes allowed count graph) {layer : NodeId} :
    (dequantizeLayer subgraph cache withConvert layer).Ensures graph (fun _ => True)
      fun _ after => ∃ more, start.Makes allowed (count + more) after := by
  unfold dequantizeLayer
  rw [ensures_bind, ensures_get]
  dsimp only
  split
  case isTrue => exact ⟨0, makes⟩
  case isFalse =>
    rw [ensures_bind]
    refine ensures_ofExcept trivial fun values _ => ?_
    refine ensures_bind.mpr (makes.ensures_attach arithmetic fun chain middle more makes => ?_)
    refine ensures_forM (fun after => ∃ more, start.Makes allowed (count + more) after)
      ⟨more + 1, makes⟩ ?_
    rintro ⟨consumer, slot⟩ state ⟨more, makes⟩
    exact makes.ensures_setInput fun _ makes => ⟨more, makes⟩

theorem ensures_dequantizeLayers_makes (arithmetic : AllowsArithmetic allowed)
    (makes : start.Makes allowed count graph) :
    (dequantizeLayers subgraph cache withConvert).Ensures graph (fun _ => True)
      fun _ after => ∃ more, start.Makes allowed (count + more) after := by
  unfold dequantizeLayers
  refine ensures_forM (fun after => ∃ more, start.Makes allowed (count + more) after)
    ⟨0, makes⟩ ?_
  rintro layer state ⟨first, makes⟩
  refine (ensures_dequantizeLayer_makes arithmetic makes).mono (fun _ _ => trivial) ?_
  exact fun _ _ ⟨second, makes⟩ => ⟨first + second, Nat.add_assoc .. ▸ makes⟩

end GraphRevision

namespace JointRevision

open QuantGraph.Graph Revision Creates

variable [Scalar α] {allowed : OpKind → Prop} {start : Graph α} {state : JointState α}
  {count : Nat} {cache : DequantizationCache α} {precision : ElementType} {policy : Policy}

omit [Scalar α] in
theorem ensures_onRun_iff {revision : RunRevision α β} {failed : JointState α → Prop}
    {done : β → JointState α → Prop} :
    (onRun revision).Ensures state failed done ↔
      revision.Ensures state.toRunState (fun run => failed { state with toRunState := run })
        fun value run => done value { state with toRunState := run } := ensures_onPart

omit [Scalar α] in
theorem ensures_narrow_makes (quantization : AllowsQuantization allowed)
    (makes : start.Makes allowed count state.graph) {id : NodeId}
    {values : Dequantization α} {min max : α} :
    (narrow cache id values precision min max).Ensures state (fun _ => True)
      fun _ after => start.Makes allowed (count + 3) after.graph := by
  unfold narrow JointRevision.onGraph
  rw [ensures_bind, ensures_onRun_iff, RunRevision.ensures_onGraph]
  refine (GraphRevision.ensures_narrowFakeQuantize_makes quantization makes).mono
    (fun _ _ => trivial) ?_
  intro narrowed after makes
  rw [ensures_bind, ensures_modify, ensures_bind, ensures_onRun_iff,
    RunRevision.ensures_markHandled, ensures_pure]
  rw [RunState.graph_markHandled]
  exact makes

theorem ensures_finish_makes {updatePrecisions : Bool} (arithmetic : AllowsArithmetic allowed)
    (makes : start.Makes allowed count state.graph) :
    (finish cache precision updatePrecisions).Ensures state (fun _ => True)
      fun _ after => ∃ more, start.Makes allowed (count + more) after.graph := by
  unfold finish JointRevision.onGraph
  rw [ensures_bind, ensures_get, ensures_bind, ensures_onRun_iff, RunRevision.ensures_onGraph]
  refine (GraphRevision.ensures_dequantizeLayers_makes arithmetic makes).mono
    (fun _ _ => trivial) ?_
  rintro _ after ⟨more, makes⟩
  refine ensures_forM
    (fun (after : JointState α) => ∃ more, start.Makes allowed (count + more) after.graph)
    ⟨more, makes⟩ ?_
  rintro layer state ⟨more, makes⟩
  unfold finishLayer
  rw [ensures_bind, ensures_get]
  dsimp only
  refine ensures_ite_bind (fun after : JointState α =>
    start.Makes allowed (count + more) after.graph) (fun _ => ?_) (fun _ => makes) ?_
  · unfold JointRevision.onGraph
    rw [ensures_onRun_iff, RunRevision.ensures_onGraph]
    exact makes.ensures_setPrecision fun _ makes => makes
  · intro after makes
    rw [ensures_onRun_iff, RunRevision.ensures_markHandled, RunState.graph_markHandled]
    exact ⟨more, makes⟩

/-! ## The two ways of quantizing -/

omit [Scalar α] in
theorem ensures_foldlM_makes {β γ : Type} {entries : List β}
    {body : γ → β → JointRevision α γ} {value : γ}
    (each : ∀ value entry count (middle : JointState α),
      start.Makes allowed count middle.graph →
        (body value entry).Ensures middle (fun _ => True)
          fun _ after => start.Makes allowed (count + 3) after.graph)
    (makes : start.Makes allowed count state.graph) :
    (entries.foldlM body value).Ensures state (fun _ => True)
      fun _ after => start.Makes allowed (count + 3 * entries.length) after.graph := by
  induction entries generalizing value state count with
  | nil => exact makes
  | cons head tail induction =>
      have total : count + 3 * (head :: tail).length = count + 3 + 3 * tail.length := by
        rw [List.length_cons]
        omega
      rw [List.foldlM_cons, total]
      exact ensures_bind.mpr ((each value head count state makes).mono (fun _ _ => trivial)
        fun _ _ makes => induction makes)

theorem ensures_narrowToTargets_makes (quantization : AllowsQuantization allowed)
    {targets : List (TargetRange α)} {updatePrecisions : Bool} :
    (narrowToTargets targets updatePrecisions).Ensures state (fun _ => True)
      fun _ after => state.graph.Makes allowed
        (0 + 3 * (state.subgraph.quantizers.zip targets).length) after.graph := by
  unfold narrowToTargets
  rw [ensures_bind, ensures_get]
  refine ensures_foldlM_makes ?_ .none
  rintro cache ⟨id, target⟩ count middle makes
  rw [ensures_bind, ensures_get, ensures_bind]
  refine ensures_ofExcept trivial fun values _ => ?_
  exact ensures_narrow_makes quantization makes

theorem ensures_narrowToShares_makes (quantization : AllowsQuantization allowed)
    {shared : SharedScale α} {updatePrecisions : Bool} :
    (narrowToShares shared updatePrecisions).Ensures state (fun _ => True)
      fun _ after => state.graph.Makes allowed
        (0 + 3 * (state.subgraph.quantizers.zip shared.limits).length) after.graph := by
  unfold narrowToShares
  rw [ensures_bind, ensures_get]
  refine ensures_foldlM_makes ?_ .none
  rintro cache ⟨id, limits⟩ count middle makes
  rw [ensures_bind, ensures_get]
  exact ensures_narrow_makes quantization makes

/-- Behind at least one narrowed fake quantization. -/
theorem ensures_finish_tells {updatePrecisions : Bool} {quantizers : List NodeId}
    (arithmetic : AllowsArithmetic allowed) (fed : quantizers ≠ [])
    (makes : start.Makes allowed (0 + 3 * quantizers.length) state.graph) :
    (finish cache precision updatePrecisions).Ensures state (fun _ => True)
      fun _ after => ∃ count, start.Makes allowed (count + 1) after.graph := by
  have positive := List.length_pos_iff.mpr fed
  refine (ensures_finish_makes arithmetic makes).mono (fun _ _ => trivial) ?_
  rintro _ after ⟨more, makes⟩
  have total : 0 + 3 * quantizers.length + more = 3 * quantizers.length + more - 1 + 1 := by omega
  exact ⟨_, total ▸ makes⟩

theorem tells_quantizePerChannel (quantization : AllowsQuantization allowed)
    (fed : state.subgraph.quantizers ≠ []) :
    (quantizePerChannel policy).Ensures state (fun _ => True)
      fun changed after => if changed then
        ∃ count, state.graph.Makes allowed (count + 1) after.graph else after = state := by
  unfold quantizePerChannel
  rw [ensures_bind, ensures_get, ensures_bind]
  refine ensures_ofExcept trivial fun outcome resolved => ?_
  cases outcome with
  | none => exact rfl
  | some found =>
      have length_eq := (JointState.targets_of_forSubgraph resolved).1
      refine ensures_bind.mpr ((ensures_narrowToTargets_makes quantization).mono
        (fun _ _ => trivial) fun cache narrowed makes => ?_)
      rw [List.length_zip, length_eq, Nat.min_self] at makes
      exact ensures_bind.mpr (ensures_finish_tells quantization.toAllowsArithmetic fed makes)

theorem tells_quantizeWithSharedScale (quantization : AllowsQuantization allowed)
    (fed : state.subgraph.quantizers ≠ []) :
    (quantizeWithSharedScale policy).Ensures state (fun _ => True)
      fun changed after => if changed then
        ∃ count, state.graph.Makes allowed (count + 1) after.graph else after = state := by
  unfold quantizeWithSharedScale
  rw [ensures_bind, ensures_get, ensures_bind]
  refine ensures_ofExcept trivial fun outcome resolved => ?_
  cases outcome with
  | none => exact rfl
  | some shared =>
      have length_eq := (JointState.limits_of_forSubgraph resolved).1
      refine ensures_bind.mpr ((ensures_narrowToShares_makes quantization).mono
        (fun _ _ => trivial) fun cache narrowed makes => ?_)
      rw [List.length_zip, length_eq, Nat.min_self] at makes
      exact ensures_bind.mpr (ensures_finish_tells quantization.toAllowsArithmetic fed makes)

end JointRevision

namespace Subgraph

theorem quantizers_ne_nil_of_around? {registry : Registry} {graph : Graph α} {concat : NodeId}
    {subgraph : Subgraph} (found : around? registry graph concat = some subgraph) :
    subgraph.quantizers ≠ [] := by
  unfold around? at found
  split at found
  case h_1 =>
    split at found
    case isTrue => cases found
    case isFalse fed =>
      cases found
      exact fun none => fed (List.isEmpty_iff.mpr none)
  case h_2 => cases found

end Subgraph

end QuantGraph
