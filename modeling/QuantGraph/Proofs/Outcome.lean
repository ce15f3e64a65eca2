import Mathlib.Data.List.Forall2

/-! When a computation that may fail succeeds. -/

namespace QuantGraph

namespace Outcome

variable {ε ε' β γ : Type}

theorem bind_eq_ok {outcome : Except ε β} {next : β → Except ε γ} {result : γ} :
    (outcome >>= next) = .ok result ↔ ∃ value, outcome = .ok value ∧ next value = .ok result := by
  cases outcome with
  | error error =>
      constructor
      · intro equal
        cases equal
      · rintro ⟨_, equal, _⟩
        cases equal
  | ok value =>
      constructor
      · intro equal
        exact ⟨value, rfl, equal⟩
      · rintro ⟨_, equal, found⟩
        cases equal
        exact found

theorem mapError_eq_ok {transform : ε → ε'} {outcome : Except ε β} {value : β} :
    outcome.mapError transform = .ok value ↔ outcome = .ok value := by
  cases outcome with
  | error error =>
      constructor
      · intro equal
        cases equal
      · intro equal
        cases equal
  | ok found =>
      constructor
      · intro equal
        cases equal
        rfl
      · intro equal
        cases equal
        rfl

theorem map_eq_ok {transform : β → γ} {outcome : Except ε β} {result : γ} :
    outcome.map transform = .ok result ↔ ∃ value, outcome = .ok value ∧ transform value = result := by
  cases outcome with
  | error error =>
      constructor
      · intro equal
        cases equal
      · rintro ⟨_, equal, _⟩
        cases equal
  | ok value => simp [Except.map]

theorem mapM_eq_some {step : β → Option γ} {entries : List β} {results : List γ} :
    entries.mapM step = some results ↔
      List.Forall₂ (fun entry result => step entry = some result) entries results := by
  induction entries generalizing results with
  | nil =>
      rw [List.mapM_nil, List.forall₂_nil_left_iff]
      exact ⟨fun equal => (Option.some.inj equal).symm, fun equal => congrArg some equal.symm⟩
  | cons head tail induction =>
      rw [List.mapM_cons, List.forall₂_cons_left_iff]
      simp only [Option.bind_eq_bind, Option.bind_eq_some_iff, Option.pure_def, Option.some.injEq,
        induction]
      constructor
      · rintro ⟨first, found, rest, all, rfl⟩
        exact ⟨first, rest, found, all, rfl⟩
      · rintro ⟨first, rest, found, all, rfl⟩
        exact ⟨first, found, rest, all, rfl⟩

theorem mapM_eq_ok {step : β → Except ε γ} {entries : List β} {results : List γ} :
    entries.mapM step = .ok results ↔
      List.Forall₂ (fun entry result => step entry = .ok result) entries results := by
  induction entries generalizing results with
  | nil =>
      rw [List.mapM_nil, List.forall₂_nil_left_iff]
      exact ⟨fun equal => (Except.ok.inj equal).symm, fun equal => congrArg Except.ok equal.symm⟩
  | cons head tail induction =>
      rw [List.mapM_cons, List.forall₂_cons_left_iff, bind_eq_ok]
      constructor
      · rintro ⟨first, found, next⟩
        obtain ⟨rest, all, equal⟩ := bind_eq_ok.mp next
        exact ⟨first, rest, found, induction.mp all, (Except.ok.inj equal).symm⟩
      · rintro ⟨first, rest, found, all, rfl⟩
        exact ⟨first, found, bind_eq_ok.mpr ⟨rest, induction.mpr all, rfl⟩⟩

theorem mapM_congr {left right : β → Except ε γ} {entries : List β}
    (agree : ∀ entry ∈ entries, left entry = right entry) :
    entries.mapM left = entries.mapM right := by
  induction entries with
  | nil => rfl
  | cons head tail induction =>
      rw [List.mapM_cons, List.mapM_cons, agree head List.mem_cons_self,
        induction fun entry member => agree entry (List.mem_cons_of_mem head member)]

end Outcome

end QuantGraph
