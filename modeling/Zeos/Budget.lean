set_option autoImplicit false

/-! Amortised bounds for runs of a labelled transition system: what the steps spend is paid
out of a balance, and out of what some steps pay in. -/

namespace Transition

universe u v

variable {σ : Type u} {ℓ : Type v} (step : σ → ℓ → Option σ)

/-- The sum of a weight over the steps of a run, which ends at a step that is not enabled. -/
def total (weight : σ → ℓ → σ → Nat) : σ → List ℓ → Nat
  | _, [] => 0
  | state, label :: labels =>
      match step state label with
      | none => 0
      | some state' => weight state label state' + total weight state' labels

/-- Some step of the run is an event of this kind. -/
def Meets (event : σ → ℓ → σ → Prop) : σ → List ℓ → Prop
  | _, [] => False
  | state, label :: labels =>
      match step state label with
      | none => False
      | some state' => event state label state' ∨ Meets event state' labels

variable {step}

/-- Every step up to the event pays for what it spends. A run that has spent the balance and
all that was paid in has met the event. -/
theorem meets_of_spent {event : σ → ℓ → σ → Prop} {spent paid : σ → ℓ → σ → Nat}
    (balance : Nat → σ → Prop) (solvent : ∀ b state, balance b state → 0 < b)
    (pays : ∀ b state label state', balance b state → step state label = some state' →
      event state label state' ∨ ∃ b', balance b' state' ∧
        spent state label state' + b' ≤ b + paid state label state') :
    ∀ labels b state, balance b state →
      b + total step paid state labels ≤ total step spent state labels →
      Meets step event state labels := by
  intro labels
  induction labels with
  | nil =>
      intro b state holds due
      have some := solvent b state holds
      rw [total, total] at due
      omega
  | cons label labels ih =>
      intro b state holds due
      have some := solvent b state holds
      rw [Meets]
      rw [total, total] at due
      cases stepped : step state label with
      | none =>
          rw [stepped] at due
          dsimp only at due
          omega
      | some state' =>
          rw [stepped] at due
          dsimp only at due ⊢
          rcases pays b state label state' holds stepped with now | ⟨b', holds', paying⟩
          · exact Or.inl now
          · exact Or.inr (ih b' state' holds' (by omega))

end Transition
