import QuantGraph.Proofs.Joint.Passes
import QuantGraph.Proofs.Run.Attempts

/-! In a run of the default transformations every fake quantization is split or narrowed at
most once, and nothing that a pass creates is handed over again. While Concats are dealt with,
this rests on the constants: they read nothing, so that narrowing one fake quantization takes
no other out of the graph. -/

namespace QuantGraph

open QuantGraph.Graph Revision

/-- The rules that split or narrow fake quantizations. -/
def Rule.handsOver : Rule → Bool
  | concat | concatMultiChannels | fakeQuantize => true
  | add | avgPool | fuseConvert | fuseFakeQuantize | fuseMultiplyToFakeQuantize
  | fuseSubtractToFakeQuantize | layout _ | matMul | maxPool | multiply | relu
  | subtractMultiplyToMultiplyAdd => false

namespace Attempt

variable [Scalar α]

/-- The passes of an attempt in their order. -/
def passes (registry : Registry) (attempt : Attempt α) : List (Pass α) :=
  let policy := attempt.transformation.policy
  match attempt.transformation.rule with
  | .concat => RunRevision.passesAroundConcat registry policy attempt.id attempt.before
  | .concatMultiChannels =>
      RunRevision.passesAroundConcatChannels registry policy attempt.id attempt.before
  | .fakeQuantize => RunRevision.passesQuantizing registry policy attempt.id attempt.before
  | _ => []

theorem passes_eq_nil {registry : Registry} {attempt : Attempt α}
    (idle : attempt.transformation.rule.handsOver = false) : attempt.passes registry = [] := by
  obtain ⟨⟨rule, policy⟩, id, before⟩ := attempt
  cases rule <;> first | rfl | cases idle

theorem flatMap_passes_concat {registry : Registry} (past : List (Attempt α))
    (attempt : Attempt α) :
    (past ++ [attempt]).flatMap (passes registry) =
      past.flatMap (passes registry) ++ attempt.passes registry := by
  rw [List.flatMap_append, List.flatMap_singleton]

end Attempt

namespace Registry

/-- The passes of a run in their order. -/
def passes [Scalar α] (registry : Registry) (graph : Graph α) : List (Pass α) :=
  (registry.attempts graph).flatMap (Attempt.passes registry)

end Registry

namespace Transformation

variable [Scalar α] {registry : Registry} {id : NodeId} {transformation : Transformation}

/-- Rules that create no fake quantizations take no notes. -/
theorem Rewrites.handled_eq {before after : RunState α}
    (rewrites : transformation.Rewrites registry id before after)
    (plain : transformation.rule.createsQuantizer = false) : after.handled = before.handled := by
  obtain ⟨rule, policy⟩ := transformation
  cases rule <;> first | exact rewrites.2 | cases plain

end Transformation

namespace RunState

variable [Scalar α] {start : Graph α} {registry : Registry} {attempts : List (Attempt α)}
  {state : RunState α} {attempt : Attempt α}

/-- What holds between two attempts as long as fake quantizations are split. -/
structure Proceeds (start : Graph α) (registry : Registry) (attempts : List (Attempt α))
    (state : RunState α) : Prop where
  evolves : start.Evolves state.graph
  tracks : state.Tracks start (attempts.flatMap (Attempt.passes registry))

/-- What holds between two attempts as long as Concats are dealt with. -/
structure ProceedsThroughConcats (start : Graph α) (registry : Registry)
    (attempts : List (Attempt α)) (state : RunState α) : Prop
    extends Proceeds start registry attempts state where
  constants : state.graph.ConstantsReadNothing

end RunState

namespace RunRevision

variable [Scalar α] {start : Graph α} {registry : Registry}

/-- The fake quantizations that have been handed over in some attempts. -/
def PassedOnce (start : Graph α) (registry : Registry) (attempts : List (Attempt α)) : Prop :=
  start.PassesOnce (attempts.flatMap (Attempt.passes registry))

theorem passedOnce_concat_of_idle {past : List (Attempt α)} {attempt : Attempt α}
    (once : PassedOnce start registry past)
    (idle : attempt.transformation.rule.handsOver = false) :
    PassedOnce start registry (past ++ [attempt]) := by
  unfold PassedOnce
  rw [Attempt.flatMap_passes_concat, Attempt.passes_eq_nil idle, List.append_nil]
  exact once

/-- The Concats come first. -/
theorem follows_branchSpecific {policy : Policy} (wellFormed : start.WellFormed) :
    Follows registry (Registry.all policy).branchSpecific (PassedOnce start registry)
      (RunState.ProceedsThroughConcats start registry) := by
  intro kind transformation selected id past state proceeds found
  have matched := (Registry.isBuilt_all policy).isKeyed.branchSpecific kind transformation selected
  have isRule := Registry.rule_of_mem_branchSpecific_all selected
  obtain ⟨rule, own⟩ := transformation
  cases isRule
  have isConcat : state.graph.kind? id = some .concat := found.trans (congrArg some matched.symm)
  have graph_wellFormed := proceeds.evolves.wellFormed wellFormed
  have passes_eq : (past ++ [Attempt.mk ⟨.concatMultiChannels, own⟩ id state]).flatMap
      (Attempt.passes registry) = past.flatMap (Attempt.passes registry) ++
        passesAroundConcatChannels registry own id state :=
    Attempt.flatMap_passes_concat past _
  obtain ⟨once, tracks⟩ := tracks_quantizeConcatChannels proceeds.tracks graph_wellFormed
    proceeds.constants isConcat
  rw [← passes_eq] at once tracks
  refine ⟨once, (tracks.and (ensures_quantizeConcatChannels graph_wellFormed proceeds.evolves
    isConcat)).mono (fun _ _ => trivial) ?_⟩
  rintro changed after ⟨tracks, ⟨_, evolves⟩, outcome⟩
  refine ⟨⟨evolves, tracks⟩, ?_⟩
  cases changed with
  | false =>
      rw [show after = state from outcome]
      exact proceeds.constants
  | true =>
      obtain ⟨subgraph, around, quantizes⟩ := outcome
      obtain ⟨discovers, _⟩ :=
        Subgraph.discovers_around? isConcat (RunState.subgraphAround?_eq_some around).1
      exact JointState.constantsReadNothing_of_quantizesSubgraph graph_wellFormed proceeds.constants
        discovers quantizes

/-- A rule is for splitting fake quantizations, or it creates none, being for other nodes. -/
def IsGeneral (rule : Rule) : Prop :=
  rule = .fakeQuantize ∨ rule.createsQuantizer = false ∧ rule.handsOver = false ∧
    rule.matchedKind ≠ .fakeQuantize ∧ rule.matchedKind ≠ .result

instance (rule : Rule) : Decidable (IsGeneral rule) := inferInstanceAs (Decidable (_ ∨ _))

theorem isGeneral_of_mem_general_all {policy : Policy} {kind : OpKind}
    {transformation : Transformation}
    (selected : transformation ∈ (Registry.all policy).general kind) :
    transformation.matchedKind = kind ∧ IsGeneral transformation.rule := by
  refine ⟨(Registry.isBuilt_all policy).isKeyed.general kind transformation selected, ?_⟩
  have known := Registry.rule_of_mem_general_all selected
  revert known
  generalize transformation.rule = rule
  revert rule
  decide

/-- General transformations follow, on fake quantizations first. -/
theorem follows_general {select : OpKind → List Transformation} (wellFormed : start.WellFormed)
    (general : ∀ kind, ∀ transformation ∈ select kind,
      transformation.matchedKind = kind ∧ IsGeneral transformation.rule) :
    Follows registry select (PassedOnce start registry) (RunState.Proceeds start registry) := by
  intro kind transformation selected id past state proceeds found
  obtain ⟨matched, isGeneral⟩ := general kind transformation selected
  have isKind : state.graph.kind? id = some transformation.matchedKind :=
    found.trans (congrArg some matched.symm)
  have graph_wellFormed := proceeds.evolves.wellFormed wellFormed
  rcases isGeneral with isRule | ⟨plain, idle, other, not_result⟩
  · obtain ⟨rule, own⟩ := transformation
    cases isRule
    have passes_eq : (past ++ [Attempt.mk ⟨.fakeQuantize, own⟩ id state]).flatMap
        (Attempt.passes registry) = past.flatMap (Attempt.passes registry) ++
          passesQuantizing registry own id state :=
      Attempt.flatMap_passes_concat past _
    obtain ⟨once, tracks⟩ := tracks_quantize proceeds.tracks graph_wellFormed isKind
    rw [← passes_eq] at once tracks
    refine ⟨once, (tracks.and (ensures_quantize graph_wellFormed proceeds.evolves)).mono
      (fun _ _ => trivial) ?_⟩
    exact fun _ _ ⟨tracks, evolves, _⟩ => ⟨evolves, tracks⟩
  · refine ⟨passedOnce_concat_of_idle proceeds.tracks.once idle, ?_⟩
    have passes_eq : (past ++ [Attempt.mk transformation id state]).flatMap
        (Attempt.passes registry) = past.flatMap (Attempt.passes registry) := by
      rw [Attempt.flatMap_passes_concat, Attempt.passes_eq_nil idle, List.append_nil]
    have copied (copy : OpKind) (isCopy : state.graph.kind? id = some copy) :
        copy ≠ .fakeQuantize := by
      rw [isKind] at isCopy
      exact Option.some.inj isCopy ▸ other
    refine ((Transformation.tells_apply Creates.allowsArithmetic_ne
      (fun creates => by rw [plain] at creates; cases creates) copied).and
      (Transformation.ensures_apply graph_wellFormed proceeds.evolves isKind not_result)).mono
      (fun _ _ => trivial) ?_
    rintro changed after ⟨told, evolves, outcome⟩
    refine ⟨evolves, ?_⟩
    rw [passes_eq]
    cases changed with
    | false =>
        rw [show after = state from outcome]
        exact proceeds.tracks
    | true =>
        obtain ⟨count, creates⟩ := told
        refine proceeds.tracks.creates creates fun uid noted => ?_
        rw [Transformation.Rewrites.handled_eq outcome plain]
        exact noted

/-- In the end no transformation hands anything over. -/
theorem follows_idle {select : OpKind → List Transformation}
    (idle : ∀ kind, ∀ transformation ∈ select kind, transformation.rule.handsOver = false) :
    Follows registry select (PassedOnce start registry)
      (fun attempts (_ : RunState α) => PassedOnce start registry attempts) := by
  intro kind transformation selected id past state once _
  have later : PassedOnce start registry (past ++ [⟨transformation, id, state⟩]) :=
    passedOnce_concat_of_idle once (idle kind transformation selected)
  exact ⟨later, ensures_trivial.mono (fun _ _ => trivial) fun _ _ _ => later⟩

theorem records_branchSpecific (policy : Policy) (wellFormed : start.WellFormed) :
    Records (PassedOnce start (Registry.all policy))
      (RunState.ProceedsThroughConcats start (Registry.all policy))
      (RunState.Proceeds start (Registry.all policy))
      (traverse (Registry.all policy) (Registry.all policy).branchSpecific)
      (attemptsIn (Registry.all policy) (Registry.all policy).branchSpecific) :=
  ((follows_branchSpecific wellFormed).records_traverse
    fun _ _ proceeds => proceeds.tracks.once).mono fun _ _ proceeds => proceeds.toProceeds

theorem records_general {select : OpKind → List Transformation} (wellFormed : start.WellFormed)
    (general : ∀ kind, ∀ transformation ∈ select kind,
      transformation.matchedKind = kind ∧ IsGeneral transformation.rule) :
    Records (PassedOnce start registry) (RunState.Proceeds start registry)
      (RunState.Proceeds start registry) (traverse registry select) (attemptsIn registry select) :=
  (follows_general wellFormed general).records_traverse fun _ _ proceeds => proceeds.tracks.once

/-- Traversals that hand nothing over. -/
theorem records_idle {selections : List (OpKind → List Transformation)}
    (idle : ∀ select ∈ selections, ∀ kind, ∀ transformation ∈ select kind,
      transformation.rule.handsOver = false) (revisions : Nat) :
    Records (PassedOnce start registry)
      (fun attempts (_ : RunState α) => PassedOnce start registry attempts)
      (fun attempts _ => PassedOnce start registry attempts)
      (selections.foldlM (fun _ => traverse registry) revisions)
      (along (fun _ => traverse registry) (fun _ => attemptsIn registry) selections revisions) := by
  induction selections generalizing revisions with
  | nil =>
      refine records_nil ?_
      exact fun _ _ once => once
  | cons select rest induction =>
      refine records_cons ((follows_idle (idle select List.mem_cons_self)).records_traverse
        fun _ _ once => once) fun revisions => ?_
      exact induction (fun other member => idle other (List.mem_cons_of_mem select member)) revisions

end RunRevision

namespace Registry

/-- The cleanups of the default registry. -/
theorem handsOver_of_mem_cleanups {policy : Policy} {select : OpKind → List Transformation}
    (member : select ∈ (all policy).cleanup :: (all policy).standaloneCleanup.map
      fun transformation kind => if kind = transformation.matchedKind then [transformation] else [])
    {kind : OpKind} {transformation : Transformation} (selected : transformation ∈ select kind) :
    transformation.rule.handsOver = false := by
  rcases List.mem_cons.mp member with rfl | listed
  · have known := rule_of_mem_cleanup_all selected
    revert known
    generalize transformation.rule = rule
    revert rule
    decide
  · obtain ⟨standalone, known, rfl⟩ := List.mem_map.mp listed
    dsimp only at selected
    split at selected
    case isTrue =>
      rw [List.mem_singleton.mp selected]
      have known := rule_of_mem_standaloneCleanup_all known
      revert known
      generalize standalone.rule = rule
      revert rule
      decide
    case isFalse => cases selected

variable {graph : Graph α} {policy : Policy}

theorem retains_relaxed (graph : Graph α) :
    graph.Retains (relaxed graph).graph ∧ (relaxed graph).graph.edges = graph.edges := by
  obtain ⟨makes, edges_eq⟩ := makes_relaxed (fun _ => True) graph
  exact ⟨makes.retains, edges_eq⟩

variable [Scalar α]

theorem proceeds_relaxed (wellFormed : graph.WellFormed) (constants : graph.ConstantsReadNothing) :
    RunState.ProceedsThroughConcats graph (all policy) [] (relaxed graph) := by
  obtain ⟨retains, edges_eq⟩ := retains_relaxed graph
  have creates := (Creates.none : graph.Creates (fun kind => kind ≠ .fakeQuantize) 0 graph).retain
    retains
  refine ⟨⟨evolves_relaxed wellFormed, ?_, .nil graph, ?_⟩, ?_⟩
  · exact Nat.le_of_eq retains.nextUid_eq.symm
  · exact fun id uid quantizer => Or.inr ⟨⟨id, creates.isQuantizer quantizer⟩, by simp⟩
  · intro id tensor constant
    obtain ⟨node, present, isConstant⟩ := Option.bind_eq_some_iff.mp constant
    obtain ⟨earlier, found, _, op_eq⟩ := retains.exists_node id node present
    have known : graph.constant? id = some tensor := by
      rw [constant?, found, Option.bind_some, ← isConstant, Node.constant?, Node.constant?, op_eq]
    rw [inputs, incoming, edges_eq]
    exact constants id tensor known

theorem passesOnce_passes (wellFormed : graph.WellFormed)
    (constants : graph.ConstantsReadNothing) :
    graph.PassesOnce ((all policy).passes graph) := by
  unfold passes attempts
  split
  case isTrue => exact .nil graph
  case isFalse =>
    have selections : (RunRevision.traversals (all policy)).map Prod.snd =
        (all policy).branchSpecific ::
          (fun kind => if kind = .fakeQuantize then (all policy).general kind else []) ::
          (all policy).general :: (all policy).cleanup ::
          (all policy).standaloneCleanup.map fun transformation kind =>
            if kind = transformation.matchedKind then [transformation] else [] := rfl
    have concats := RunRevision.records_branchSpecific policy wellFormed
    have quantizing := @RunRevision.records_general α _ graph (all policy)
      (fun kind => if kind = .fakeQuantize then (all policy).general kind else []) wellFormed (by
        intro kind transformation selected
        split at selected
        case isTrue => exact RunRevision.isGeneral_of_mem_general_all selected
        case isFalse => cases selected)
    have general := @RunRevision.records_general α _ graph (all policy) (all policy).general
      wellFormed fun _ _ => RunRevision.isGeneral_of_mem_general_all
    have cleaning (revisions : Nat) := @RunRevision.records_idle α _ graph (all policy)
      ((all policy).cleanup :: (all policy).standaloneCleanup.map fun transformation kind =>
        if kind = transformation.matchedKind then [transformation] else [])
      (fun _ member _ _ selected => handsOver_of_mem_cleanups member selected) revisions
    rw [selections]
    have run : Records (RunRevision.PassedOnce graph (all policy))
        (RunState.ProceedsThroughConcats graph (all policy))
        (fun attempts _ => RunRevision.PassedOnce graph (all policy) attempts)
        (List.foldlM (fun _ => RunRevision.traverse (all policy)) 0 (_ :: _ :: _ :: _))
        (along (fun _ => RunRevision.traverse (all policy))
          (fun _ => RunRevision.attemptsIn (all policy)) (_ :: _ :: _ :: _) 0) :=
      records_cons concats fun _ => records_cons quantizing fun _ =>
        records_cons (general.mono fun _ _ proceeds => proceeds.tracks.once) cleaning
    exact (run [] _ (proceeds_relaxed wellFormed constants)).1

/-- In a graph with a cycle nothing is attempted. -/
theorem attempts_eq_nil (registry : Registry) (cyclic : ¬ graph.IsAcyclic) :
    registry.attempts graph = [] := by
  obtain ⟨error, unordered⟩ :
      ∃ error, RunRevision.snapshot (relaxed graph).graph = .error error := by
    unfold RunRevision.snapshot
    cases ordered : (relaxed graph).graph.topologicalOrder with
    | error error => exact ⟨_, rfl⟩
    | ok order =>
        have edges_eq := (retains_relaxed graph).2
        exact absurd ((isAcyclic_of_topologicalOrder ordered).mono fun edge member =>
          edges_eq.symm ▸ member) cyclic
  unfold attempts
  split
  case isTrue => rfl
  case isFalse =>
    unfold RunRevision.attemptsThrough
    generalize (RunRevision.traversals registry).map Prod.snd = selections
    cases selections with
    | nil => rfl
    | cons select rest =>
        have gives_up : (RunRevision.traverse registry select).runOn (relaxed graph) =
            (.error error, relaxed graph) := by
          have unfolded : (RunRevision.traverse registry select).runOn (relaxed graph) =
              (Revision.ofExcept (RunRevision.snapshot (relaxed graph).graph) >>= fun nodes =>
                nodes.foldlM (RunRevision.visitEntry registry select) 0 :
                  RunRevision α Nat).runOn (relaxed graph) := rfl
          rw [unfolded, unordered]
          rfl
        rw [along, RunRevision.attemptsIn, unordered, gives_up]
        rfl

/-- What the first traversal hands over comes first. -/
theorem exists_passes_eq_append (policy : Policy) (graph : Graph α) :
    ∃ later, (all policy).passes graph =
      (RunRevision.attemptsIn (all policy) (all policy).branchSpecific (relaxed graph)).flatMap
        (Attempt.passes (all policy)) ++ later := by
  obtain ⟨rest, attempted⟩ : ∃ rest, (all policy).attempts graph =
      RunRevision.attemptsIn (all policy) (all policy).branchSpecific (relaxed graph) ++ rest :=
    ⟨_, rfl⟩
  exact ⟨_, by rw [passes, attempted, List.flatMap_append]⟩

/-- Two Concats that share a fake quantization. Two operations stand between them, the last of
which the second Concat joins. -/
def overlappingConcats (limit first : Draft Rat) : List (Draft Rat) :=
  let input := (NodeId.mk 0).output
  let zero := (NodeId.mk 1).output
  let full := (NodeId.mk 2).output
  let quantized (name : String) : Draft Rat :=
    ((Op.fakeQuantize 256).draft name).readOutputs [input, zero, full, zero, full]
  [{ op := .parameter, name := "input"
     declared := some { elementType := .f32, shape := [1, 1, 1, 1] } },
    (Op.constant (.scalar .f32 0)).draft "zero",
    (Op.constant (.scalar .f32 255)).draft "full",
    quantized "shared",
    (Op.constant (.scalar .f32 0)).draft "own low",
    (Op.constant (.scalar .f32 255)).draft "own high",
    ((Op.fakeQuantize 256).draft "own").readOutputs
      [input, zero, full, (NodeId.mk 4).output, (NodeId.mk 5).output],
    ((Op.concat 1).draft "side").readAll [NodeId.mk 3, NodeId.mk 6],
    limit, first, quantized "extra",
    ((Op.concat 1).draft "joined").readAll [NodeId.mk 9, NodeId.mk 10, NodeId.mk 3],
    (Op.result.draft "output").readAll [NodeId.mk 11]]

/-- A constant, which may read something, is an output limit of what the second Concat joins. -/
def overlappingOnLimit (reads : List NodeId) : List (Draft Rat) :=
  overlappingConcats (((Op.constant (.scalar .f32 0)).draft "limit").readAll reads)
    (((Op.fakeQuantize 256).draft "first").readOutputs [(NodeId.mk 0).output, (NodeId.mk 1).output,
      (NodeId.mk 2).output, (NodeId.mk 8).output, (NodeId.mk 2).output])

/-- What the second Concat joins reads nothing on its first slot, and the first Concat behind
its limits. -/
def overlappingOnShiftedSlots : List (Draft Rat) :=
  overlappingConcats
    ((Op.constant { elementType := .f32, values := .replicate [1, 1, 1, 1] (0 : Rat) }).draft "data")
    (((((((Op.fakeQuantize 256).draft "first").input (NodeId.mk 8).output 1).input
      (NodeId.mk 2).output 2).input (NodeId.mk 1).output 3).input (NodeId.mk 2).output 4).input
      (NodeId.mk 7).output 5)

/-- A run ends well, and yet a fake quantization is handed over that an earlier pass has
created. -/
def PassesCreated (graph : Graph Rat) : Prop :=
  ∃ report after, (all {}).transform graph = (.ok report, after) ∧
    ∃ (pass other : Pass Rat) (id : NodeId) (uid : Nat),
      [pass, other].Sublist ((all {}).passes graph) ∧ pass.Creates uid ∧
        pass.after.IsQuantizer id uid ∧ other.given = some uid

/-- Which fake quantizations are handed over after two passes, which identity numbers are given
out then, and what is left at an index. -/
def laterPasses (graph : Graph Rat) (id : NodeId) :
    List (Option Nat × Nat × Nat × Option Nat × Option OpKind) :=
  (((all {}).passes graph).drop 2).map fun pass => (pass.given, pass.before.nextUid,
    pass.after.nextUid, pass.after.uid? id, pass.after.kind? id)

theorem passesCreated_of_laterPasses {graph : Graph Rat} {id : NodeId} {revisions : Nat}
    (ended : ((all {}).transform graph).1.map RunReport.totalRevisions = .ok revisions)
    (passed : laterPasses graph id =
      [(some 10, 19, 22, some 21, some .fakeQuantize), (some 21, 22, 25, none, none)]) :
    PassesCreated graph := by
  obtain ⟨report, ran, _⟩ := Outcome.map_eq_ok.mp ended
  obtain ⟨pass, rest, split, facts, passed⟩ := List.map_eq_cons_iff.mp passed
  obtain ⟨other, rest, rfl, given, passed⟩ := List.map_eq_cons_iff.mp passed
  cases List.map_eq_nil_iff.mp passed
  simp only [Prod.mk.injEq] at facts given
  obtain ⟨_, first, last, uid, kind⟩ := facts
  refine ⟨report, _, Prod.ext ran rfl, pass, other, id, 21, ?_, ⟨?_, ?_⟩, ⟨uid, kind⟩, given.1⟩
  · rw [← split]
    exact List.drop_sublist 2 _
  · rw [first]
    decide
  · rw [last]
    decide

end Registry

end QuantGraph
