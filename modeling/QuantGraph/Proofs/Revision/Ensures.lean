import Mathlib.Data.List.Forall2
import QuantGraph.Revision

/-! What a revision ensures: one property of the state it leaves when it gives up,
and another of its value together with the state it leaves otherwise. -/

namespace QuantGraph

namespace Revision

/-- From the state `before`, the revision leaves a state with `failed` if it gives
up, and a value and a state with `done` otherwise. -/
def Ensures (revision : Revision σ β) (before : σ) (failed : σ → Prop)
    (done : β → σ → Prop) : Prop :=
  match revision.runOn before with
  | (.ok value, after) => done value after
  | (.error _, after) => failed after

variable {σ β γ τ : Type} {before : σ} {failed : σ → Prop}

theorem Ensures.of_runOn {revision : Revision σ β} {done : β → σ → Prop} {value : β} {after : σ}
    (ensures : revision.Ensures before failed done)
    (ran : revision.runOn before = (.ok value, after)) : done value after := by
  unfold Ensures at ensures
  rw [ran] at ensures
  exact ensures

theorem Ensures.of_runOn_error {revision : Revision σ β} {done : β → σ → Prop}
    {error : RevisionError} {after : σ} (ensures : revision.Ensures before failed done)
    (ran : revision.runOn before = (.error error, after)) : failed after := by
  unfold Ensures at ensures
  rw [ran] at ensures
  exact ensures

theorem Ensures.mono {revision : Revision σ β} {failed' : σ → Prop} {done done' : β → σ → Prop}
    (ensures : revision.Ensures before failed done)
    (failed_imp : ∀ after, failed after → failed' after)
    (done_imp : ∀ value after, done value after → done' value after) :
    revision.Ensures before failed' done' := by
  unfold Ensures at ensures ⊢
  split at ensures
  · exact done_imp _ _ ensures
  · exact failed_imp _ ensures

theorem Ensures.and {revision : Revision σ β} {failed' : σ → Prop} {done done' : β → σ → Prop}
    (left : revision.Ensures before failed done) (right : revision.Ensures before failed' done') :
    revision.Ensures before (fun after => failed after ∧ failed' after)
      fun value after => done value after ∧ done' value after := by
  unfold Ensures at left right ⊢
  rcases ran : revision.runOn before with ⟨outcome, after⟩
  rw [ran] at left right
  cases outcome <;> exact ⟨left, right⟩

theorem ensures_trivial {revision : Revision σ β} :
    revision.Ensures before (fun _ => True) fun _ _ => True := by
  unfold Ensures
  split <;> trivial

/-! ## Plain steps -/

theorem runOn_bind (revision : Revision σ β) (next : β → Revision σ γ) (state : σ) :
    (revision >>= next).runOn state =
      match revision.runOn state with
      | (.ok value, after) => (next value).runOn after
      | (.error error, after) => (.error error, after) := by
  change (ExceptT.bindCont next (revision.runOn state).1).run (revision.runOn state).2 = _
  rcases revision.runOn state with ⟨outcome, after⟩
  cases outcome <;> rfl

@[simp] theorem ensures_pure {value : β} {done : β → σ → Prop} :
    (pure value : Revision σ β).Ensures before failed done ↔ done value before := Iff.rfl

@[simp] theorem ensures_bind {revision : Revision σ β} {next : β → Revision σ γ}
    {done : γ → σ → Prop} :
    (revision >>= next).Ensures before failed done ↔
      revision.Ensures before failed fun value after => (next value).Ensures after failed done := by
  unfold Ensures
  rw [runOn_bind]
  rcases revision.runOn before with ⟨outcome, after⟩
  cases outcome <;> rfl

@[simp] theorem ensures_map {revision : Revision σ β} {transform : β → γ} {done : γ → σ → Prop} :
    (transform <$> revision).Ensures before failed done ↔
      revision.Ensures before failed fun value after => done (transform value) after := by
  rw [map_eq_pure_bind]
  exact ensures_bind

@[simp] theorem ensures_get {done : σ → σ → Prop} :
    (get : Revision σ σ).Ensures before failed done ↔ done before before := Iff.rfl

@[simp] theorem ensures_set {state : σ} {done : PUnit → σ → Prop} :
    (set state : Revision σ PUnit).Ensures before failed done ↔ done PUnit.unit state := Iff.rfl

@[simp] theorem ensures_modify {change : σ → σ} {done : PUnit → σ → Prop} :
    (modify change : Revision σ PUnit).Ensures before failed done ↔
      done PUnit.unit (change before) := Iff.rfl

@[simp] theorem ensures_throw {error : RevisionError} {done : β → σ → Prop} :
    (throw error : Revision σ β).Ensures before failed done ↔ failed before := Iff.rfl

theorem ensures_ofExcept {outcome : Except RevisionError β} {done : β → σ → Prop}
    (error : failed before) (ok : ∀ value, outcome = .ok value → done value before) :
    (ofExcept outcome).Ensures before failed done := by
  cases outcome with
  | error => exact error
  | ok value => exact ok value rfl

/-- A step that is only taken under a condition, with what comes after it. -/
theorem ensures_ite_bind {condition : Prop} [Decidable condition] {step : Revision σ PUnit}
    {next : PUnit → Revision σ β} {done : β → σ → Prop} (middle : σ → Prop)
    (taken : condition → step.Ensures before failed fun _ => middle)
    (skipped : ¬ condition → middle before)
    (rest : ∀ after, middle after → (next PUnit.unit).Ensures after failed done) :
    (if condition then step >>= next else next PUnit.unit).Ensures before failed done := by
  split
  case isTrue holds =>
    exact ensures_bind.mpr ((taken holds).mono (fun _ bad => bad) fun _ after => rest after)
  case isFalse fails => exact rest before (skipped fails)

@[simp] theorem ensures_onPart {get : σ → τ} {put : τ → σ → σ} {revision : Revision τ β}
    {done : β → σ → Prop} :
    (onPart get put revision).Ensures before failed done ↔
      revision.Ensures (get before) (fun part => failed (put part before))
        fun value part => done value (put part before) := by
  unfold Ensures
  change (match ((revision.runOn (get before)).1, put (revision.runOn (get before)).2 before) with
    | (.ok value, after) => done value after
    | (.error _, after) => failed after) ↔ _
  rcases revision.runOn (get before) with ⟨outcome, part⟩
  cases outcome <;> rfl

/-! ## Repetition -/

/-- An invariant speaks of the entries that are still to come. -/
theorem ensures_foldlM {entries : List β} {body : γ → β → Revision σ γ} {value : γ}
    (invariant : List β → γ → σ → Prop) (start : invariant entries value before)
    (step : ∀ head tail value state, invariant (head :: tail) value state →
      (body value head).Ensures state failed (invariant tail)) :
    (entries.foldlM body value).Ensures before failed (invariant []) := by
  induction entries generalizing before value with
  | nil => exact start
  | cons head tail induction =>
      rw [List.foldlM_cons]
      exact ensures_bind.mpr ((step head tail value before start).mono (fun _ bad => bad)
        fun _ _ kept => induction kept)

/-- What every round of a loop keeps, the loop keeps. -/
theorem ensures_forM {entries : List β} {body : β → Revision σ PUnit} (invariant : σ → Prop)
    (start : invariant before)
    (kept : ∀ entry state, invariant state →
      (body entry).Ensures state failed fun _ after => invariant after) :
    (entries.forM body).Ensures before failed fun _ after => invariant after := by
  induction entries generalizing before with
  | nil => exact start
  | cons head tail induction =>
      exact ensures_bind.mpr ((kept head before start).mono (fun _ bad => bad)
        fun _ _ holds => induction holds)

theorem ensures_mapM {entries : List β} {body : β → Revision σ γ} (invariant : σ → Prop)
    (start : invariant before)
    (kept : ∀ entry ∈ entries, ∀ state, invariant state →
      (body entry).Ensures state failed fun _ after => invariant after) :
    (entries.mapM body).Ensures before failed fun _ after => invariant after := by
  induction entries generalizing before with
  | nil => exact start
  | cons head tail induction =>
      rw [List.mapM_cons, ensures_bind]
      refine (kept head List.mem_cons_self before start).mono (fun _ bad => bad) ?_
      intro value middle holds
      rw [ensures_bind]
      exact (induction holds fun entry member => kept entry (List.mem_cons_of_mem head member)).mono
        (fun _ bad => bad) fun _ _ holds => holds

/-- Steps taken one after the other, one for each entry. -/
inductive Sequence (step : β → σ → σ → Prop) : List β → σ → σ → Prop where
  | nil {state : σ} : Sequence step [] state state
  | cons {head : β} {tail : List β} {before middle after : σ} (first : step head before middle)
      (rest : Sequence step tail middle after) : Sequence step (head :: tail) before after

/-- The steps of a sequence may be read as steps for other entries. -/
theorem Sequence.exists_entries {step : β → σ → σ → Prop} {entries : List β} {before after : σ}
    (sequence : Sequence step entries before after) (step' : γ → σ → σ → Prop)
    (related : β → γ → Prop)
    (each : ∀ entry left right, entry ∈ entries → step entry left right →
      ∃ other, related entry other ∧ step' other left right) :
    ∃ others, List.Forall₂ related entries others ∧ Sequence step' others before after := by
  induction sequence with
  | nil => exact ⟨[], .nil, .nil⟩
  | cons first _ induction =>
      obtain ⟨other, isRelated, taken⟩ := each _ _ _ List.mem_cons_self first
      obtain ⟨others, allRelated, rest⟩ := induction fun entry left right member =>
        each entry left right (List.mem_cons_of_mem _ member)
      exact ⟨other :: others, .cons isRelated allRelated, .cons taken rest⟩

/-- A loop takes the steps of its body one after the other. -/
theorem ensures_forM_sequence {entries : List β} {body : β → Revision σ PUnit}
    (step : β → σ → σ → Prop) (kept : σ → Prop) (start : kept before)
    (taken : ∀ entry state, entry ∈ entries → kept state →
      (body entry).Ensures state failed fun _ after => kept after ∧ step entry state after) :
    (entries.forM body).Ensures before failed fun _ after =>
      kept after ∧ Sequence step entries before after := by
  induction entries generalizing before with
  | nil => exact ⟨start, .nil⟩
  | cons head tail induction =>
      refine ensures_bind.mpr ((taken head before List.mem_cons_self start).mono
        (fun _ bad => bad) fun _ middle first => ?_)
      refine (induction first.1 fun entry state member =>
        taken entry state (List.mem_cons_of_mem head member)).mono (fun _ bad => bad) ?_
      exact fun _ after rest => ⟨rest.1, .cons first.2 rest.2⟩

/-- A fold takes the steps of its body one after the other, on its value and the state. -/
theorem ensures_foldlM_sequence {entries : List β} {body : γ → β → Revision σ γ} {value : γ}
    (step : β → γ × σ → γ × σ → Prop) (kept : γ → σ → Prop) (start : kept value before)
    (taken : ∀ entry value state, entry ∈ entries → kept value state →
      (body value entry).Ensures state failed fun next after =>
        kept next after ∧ step entry (value, state) (next, after)) :
    (entries.foldlM body value).Ensures before failed fun result after =>
      kept result after ∧ Sequence step entries (value, before) (result, after) := by
  induction entries generalizing before value with
  | nil => exact ⟨start, .nil⟩
  | cons head tail induction =>
      rw [List.foldlM_cons]
      refine ensures_bind.mpr ((taken head value before List.mem_cons_self start).mono
        (fun _ bad => bad) fun next middle first => ?_)
      refine (induction first.1 fun entry value state member =>
        taken entry value state (List.mem_cons_of_mem head member)).mono (fun _ bad => bad) ?_
      exact fun _ after rest => ⟨rest.1, .cons first.2 rest.2⟩

end Revision

end QuantGraph
