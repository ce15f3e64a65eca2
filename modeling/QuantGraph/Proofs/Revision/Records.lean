import QuantGraph.Proofs.Revision.Ensures

/-! What is recorded while a revision runs, also one that gives up on the way. -/

namespace QuantGraph

namespace Revision

variable {σ β γ τ : Type}

/-- What the steps of a loop record, up to the one that gives up. -/
def along (body : γ → β → Revision σ γ) (record : γ → β → σ → List τ) :
    List β → γ → σ → List τ
  | [], _, _ => []
  | entry :: rest, value, state =>
      record value entry state ++
        match (body value entry).runOn state with
        | (.ok next, after) => along body record rest next after
        | (.error _, _) => []

/-- Where `pre` holds of the record so far and the state, the record stays sound, and `post`
holds of it and the state in the end unless the revision gives up. -/
def Records (sound : List τ → Prop) (pre post : List τ → σ → Prop) (revision : Revision σ β)
    (record : σ → List τ) : Prop :=
  ∀ past state, pre past state → sound (past ++ record state) ∧
    revision.Ensures state (fun _ => True) fun _ after => post (past ++ record state) after

variable {sound : List τ → Prop} {pre mid post : List τ → σ → Prop}
  {body : γ → β → Revision σ γ} {record : γ → β → σ → List τ}

theorem Records.mono {post' : List τ → σ → Prop} {revision : Revision σ β} {record : σ → List τ}
    (records : Records sound pre post revision record)
    (post_imp : ∀ past state, post past state → post' past state) :
    Records sound pre post' revision record := by
  intro past state held
  obtain ⟨recorded, ensures⟩ := records past state held
  exact ⟨recorded, ensures.mono (fun _ _ => trivial) fun _ after => post_imp _ after⟩

theorem records_nil (silent : ∀ past state, pre past state → sound past) {value : γ} :
    Records sound pre pre (([] : List β).foldlM body value) (along body record [] value) := by
  intro past state held
  rw [along, List.append_nil]
  exact ⟨silent past state held, held⟩

theorem records_cons {head : β} {tail : List β} {value : γ}
    (first : Records sound pre mid (body value head) (record value head))
    (rest : ∀ next, Records sound mid post (tail.foldlM body next)
      (along body record tail next)) :
    Records sound pre post ((head :: tail).foldlM body value)
      (along body record (head :: tail) value) := by
  intro past state held
  obtain ⟨recorded, ensures⟩ := first past state held
  rw [List.foldlM_cons, along, ← List.append_assoc]
  rcases ran : (body value head).runOn state with ⟨outcome, middle⟩
  cases outcome with
  | error error =>
      dsimp only
      rw [List.append_nil]
      refine ⟨recorded, ensures_bind.mpr ?_⟩
      unfold Ensures
      rw [ran]
      trivial
  | ok next =>
      obtain ⟨recorded, later⟩ := rest next _ middle (ensures.of_runOn ran)
      refine ⟨recorded, ensures_bind.mpr ?_⟩
      unfold Ensures
      rw [ran]
      exact later

/-- An invariant speaks of the entries that are still to come. -/
theorem records_foldlM (invariant : List β → List τ → σ → Prop)
    (silent : ∀ past state, invariant [] past state → sound past)
    (each : ∀ head tail value, Records sound (invariant (head :: tail)) (invariant tail)
      (body value head) (record value head)) (entries : List β) (value : γ) :
    Records sound (invariant entries) (invariant []) (entries.foldlM body value)
      (along body record entries value) := by
  induction entries generalizing value with
  | nil => exact records_nil silent
  | cons head tail induction => exact records_cons (each head tail value) fun next => induction next

end Revision

end QuantGraph
