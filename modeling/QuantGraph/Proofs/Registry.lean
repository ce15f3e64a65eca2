import QuantGraph.Run

/-! Registries as they are built: from the empty one, by additions, removals and changes
of policy. In each of them a transformation stands under the kind that it matches. -/

namespace QuantGraph

namespace Bucket

/-- Every transformation stands under its own kind. -/
def IsKeyed (bucket : Bucket) : Prop :=
  ∀ kind, ∀ transformation ∈ bucket kind, transformation.matchedKind = kind

variable {bucket : Bucket}

theorem isKeyed_empty : empty.IsKeyed := by
  intro kind transformation member
  cases member

theorem IsKeyed.add (keyed : bucket.IsKeyed) (added : Transformation) :
    (bucket.add added).IsKeyed := by
  intro kind transformation member
  unfold Bucket.add at member
  split at member
  case isTrue equal =>
    rcases List.mem_append.mp member with member | member
    · exact keyed kind transformation member
    · rw [List.mem_singleton.mp member]
      exact equal.symm
  case isFalse => exact keyed kind transformation member

theorem IsKeyed.remove (keyed : bucket.IsKeyed) (removed : OpKind) :
    (bucket.remove removed).IsKeyed := by
  intro kind transformation member
  unfold Bucket.remove at member
  split at member
  case isTrue => cases member
  case isFalse => exact keyed kind transformation member

theorem IsKeyed.mapPolicy (keyed : bucket.IsKeyed) (change : Policy → Policy) :
    (bucket.mapPolicy change).IsKeyed := by
  intro kind transformation member
  obtain ⟨original, known, rfl⟩ := List.mem_map.mp member
  exact keyed kind original known

theorem mem_foldl_add {added : List Transformation} {kind : OpKind}
    {transformation : Transformation} (member : transformation ∈ added.foldl add bucket kind) :
    transformation ∈ bucket kind ∨ transformation ∈ added := by
  induction added generalizing bucket with
  | nil => exact Or.inl member
  | cons head tail induction =>
      rcases induction member with earlier | later
      · unfold Bucket.add at earlier
        split at earlier
        case isTrue =>
          rcases List.mem_append.mp earlier with known | last
          · exact Or.inl known
          · exact Or.inr (List.mem_singleton.mp last ▸ List.mem_cons_self)
        case isFalse => exact Or.inl earlier
      · exact Or.inr (List.mem_cons_of_mem head later)

/-- What a bucket of transformations under one policy holds comes from their rules. -/
theorem rule_of_mem_foldl_add {rules : List Rule} {policy : Policy} {kind : OpKind}
    {transformation : Transformation}
    (member : transformation ∈
      (rules.map fun rule => { rule := rule, policy := policy }).foldl add empty kind) :
    transformation.rule ∈ rules := by
  rcases mem_foldl_add member with none | added
  · cases none
  · obtain ⟨rule, known, rfl⟩ := List.mem_map.mp added
    exact known

end Bucket

namespace Registry

/-- A registry that is built with the edits. -/
inductive IsBuilt : Registry → Prop where
  | empty : IsBuilt .empty
  | addBranchSpecific {registry : Registry} (built : IsBuilt registry)
      (transformation : Transformation) : IsBuilt (registry.addBranchSpecific transformation)
  | addGeneral {registry : Registry} (built : IsBuilt registry)
      (transformation : Transformation) : IsBuilt (registry.addGeneral transformation)
  | addCleanup {registry : Registry} (built : IsBuilt registry)
      (transformation : Transformation) : IsBuilt (registry.addCleanup transformation)
  | addStandaloneCleanup {registry : Registry} (built : IsBuilt registry)
      (transformation : Transformation) : IsBuilt (registry.addStandaloneCleanup transformation)
  | removeBranchSpecific {registry : Registry} (built : IsBuilt registry) (kind : OpKind) :
      IsBuilt (registry.removeBranchSpecific kind)
  | removeGeneral {registry : Registry} (built : IsBuilt registry) (kind : OpKind) :
      IsBuilt (registry.removeGeneral kind)
  | removeCleanup {registry : Registry} (built : IsBuilt registry) (kind : OpKind) :
      IsBuilt (registry.removeCleanup kind)
  | mapPolicy {registry : Registry} (built : IsBuilt registry) (change : Policy → Policy) :
      IsBuilt (registry.mapPolicy change)

private theorem IsBuilt.foldl {edit : Registry → Transformation → Registry}
    (step : ∀ {registry}, IsBuilt registry → ∀ added, IsBuilt (edit registry added))
    {registry : Registry} (built : registry.IsBuilt) (added : List Transformation) :
    (added.foldl edit registry).IsBuilt := by
  induction added generalizing registry with
  | nil => exact built
  | cons head tail induction => exact induction (step built head)

theorem isBuilt_all (policy : Policy) : (all policy).IsBuilt := by
  have branched := IsBuilt.empty.addBranchSpecific
    { rule := .concatMultiChannels, policy := policy }
  have general := branched.foldl .addGeneral
  have cleanup := fun added => (general added).foldl .addCleanup
  exact (cleanup _ _).foldl .addStandaloneCleanup _

/-- Every transformation stands under its own kind in each bucket. -/
structure IsKeyed (registry : Registry) : Prop where
  branchSpecific : registry.branchSpecific.IsKeyed
  general : registry.general.IsKeyed
  cleanup : registry.cleanup.IsKeyed

theorem IsBuilt.isKeyed {registry : Registry} (built : registry.IsBuilt) : registry.IsKeyed := by
  induction built with
  | empty => exact ⟨Bucket.isKeyed_empty, Bucket.isKeyed_empty, Bucket.isKeyed_empty⟩
  | addBranchSpecific _ added keyed =>
      exact ⟨keyed.branchSpecific.add added, keyed.general, keyed.cleanup⟩
  | addGeneral _ added keyed =>
      exact ⟨keyed.branchSpecific, keyed.general.add added, keyed.cleanup⟩
  | addCleanup _ added keyed =>
      exact ⟨keyed.branchSpecific, keyed.general, keyed.cleanup.add added⟩
  | addStandaloneCleanup _ _ keyed => exact ⟨keyed.branchSpecific, keyed.general, keyed.cleanup⟩
  | removeBranchSpecific _ kind keyed =>
      exact ⟨keyed.branchSpecific.remove kind, keyed.general, keyed.cleanup⟩
  | removeGeneral _ kind keyed =>
      exact ⟨keyed.branchSpecific, keyed.general.remove kind, keyed.cleanup⟩
  | removeCleanup _ kind keyed =>
      exact ⟨keyed.branchSpecific, keyed.general, keyed.cleanup.remove kind⟩
  | mapPolicy _ change keyed =>
      exact ⟨keyed.branchSpecific.mapPolicy change, keyed.general.mapPolicy change,
        keyed.cleanup⟩

/-- What a traversal tries on a node matches its kind and is found under it. -/
theorem IsKeyed.selected {registry : Registry} (keyed : registry.IsKeyed)
    {select : OpKind → List Transformation}
    (member : select ∈ (RunRevision.traversals registry).map Prod.snd) {kind : OpKind}
    {transformation : Transformation} (selected : transformation ∈ select kind) :
    transformation.matchedKind = kind ∧ transformation ∈ registry.find kind := by
  have general (known : transformation ∈ registry.general kind) :
      transformation.matchedKind = kind ∧ transformation ∈ registry.find kind :=
    ⟨keyed.general kind transformation known, by simp [find, known]⟩
  simp only [RunRevision.traversals, List.map_cons, List.map_map, List.cons_append,
    List.nil_append, List.mem_cons, List.mem_map] at member
  rcases member with rfl | rfl | rfl | rfl | ⟨standalone, known, rfl⟩
  · exact ⟨keyed.branchSpecific kind transformation selected, by simp [find, selected]⟩
  · dsimp only at selected
    split at selected
    · exact general selected
    · cases selected
  · exact general selected
  · exact ⟨keyed.cleanup kind transformation selected, by simp [find, selected]⟩
  · simp only [Function.comp_apply] at selected
    split at selected
    case isTrue equal =>
      cases List.mem_singleton.mp selected
      exact ⟨equal.symm, by simp [find, known, equal]⟩
    case isFalse => cases selected

/-! ## The default registry -/

variable {policy : Policy} {kind : OpKind} {transformation : Transformation}

theorem rule_of_mem_branchSpecific_all
    (member : transformation ∈ (all policy).branchSpecific kind) :
    transformation.rule = .concatMultiChannels := by
  have known : transformation.rule ∈ [Rule.concatMultiChannels] :=
    @Bucket.rule_of_mem_foldl_add _ policy kind transformation member
  exact List.mem_singleton.mp known

theorem rule_of_mem_general_all (member : transformation ∈ (all policy).general kind) :
    transformation.rule ∈ [Rule.add, .avgPool, .fakeQuantize, .matMul, .maxPool, .multiply, .relu,
      .layout .reshape, .layout .squeeze, .layout .transpose, .layout .unsqueeze] :=
  @Bucket.rule_of_mem_foldl_add _ policy kind transformation member

theorem rule_of_mem_cleanup_all (member : transformation ∈ (all policy).cleanup kind) :
    transformation.rule ∈ [Rule.fuseConvert, .fuseFakeQuantize] :=
  @Bucket.rule_of_mem_foldl_add _ policy kind transformation member

theorem rule_of_mem_standaloneCleanup_all
    (member : transformation ∈ (all policy).standaloneCleanup) :
    transformation.rule ∈ [Rule.fuseSubtractToFakeQuantize, .fuseMultiplyToFakeQuantize,
      .subtractMultiplyToMultiplyAdd] := by
  have known : transformation ∈
      ([Rule.fuseSubtractToFakeQuantize, .fuseMultiplyToFakeQuantize,
        .subtractMultiplyToMultiplyAdd].map fun rule => { rule := rule, policy := policy }) := member
  obtain ⟨rule, listed, rfl⟩ := List.mem_map.mp known
  exact listed

end Registry

end QuantGraph
