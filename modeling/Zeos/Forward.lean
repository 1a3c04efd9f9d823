import Zeos.Transition

set_option autoImplicit false

/-! Forward simulation of a transition system by a step relation, lifted from steps to runs. -/

namespace Transition

universe u v w x

variable {σ : Type u} {τ : Type w} {ℓ : Type v} {ρ : Type x}

/-- A run of a step relation, with its labels in order. -/
inductive Path (moves : τ → ℓ → τ → Prop) : τ → List ℓ → τ → Prop where
  | nil (state : τ) : Path moves state [] state
  | cons {state middle last : τ} {label : ℓ} {labels : List ℓ} : moves state label middle →
      Path moves middle labels last → Path moves state (label :: labels) last

/-- The labels of a run, each with what `see` reads in the state before it. -/
def seenAlong (step : σ → ℓ → Option σ) (see : σ → ρ) : σ → List ℓ → List (ρ × ℓ)
  | _, [] => []
  | state, label :: labels => (see state, label) ::
      match step state label with
      | none => []
      | some state' => seenAlong step see state' labels

variable {step : σ → ℓ → Option σ} {admits : σ → ℓ → Bool} {see : σ → ρ}
  {moves : τ → ρ × ℓ → τ → Prop}

/-- Where each admitted step is matched by a move that knows what is seen, each run is matched by a
path. -/
theorem path_of_run (related : σ → τ → Prop)
    (matched : ∀ {state state' : σ} {label : ℓ} {abstract : τ}, related state abstract →
      admits state label = true → step state label = some state' →
      ∃ abstract', moves abstract (see state, label) abstract' ∧ related state' abstract') :
    ∀ {labels : List ℓ} {state last : σ} {abstract : τ}, related state abstract →
      run step admits state labels = some last →
      ∃ final, Path moves abstract (seenAlong step see state labels) final ∧
        related last final := by
  intro labels
  induction labels with
  | nil =>
      intro state last abstract holds ran
      cases ran
      exact ⟨abstract, .nil abstract, holds⟩
  | cons label labels ih =>
      intro state last abstract holds ran
      rw [run] at ran
      split at ran
      · rename_i allowed
        split at ran
        · cases ran
        · rename_i state' stepped
          obtain ⟨abstract', move, holds'⟩ := matched holds allowed stepped
          obtain ⟨final, path, ended⟩ := ih holds' ran
          rw [seenAlong, stepped]
          exact ⟨final, .cons move path, ended⟩
      · cases ran

/-- Where a move is determined, so is a path. -/
theorem Path.unique {moves : τ → ℓ → τ → Prop} {state last last' : τ} {labels : List ℓ}
    (path : Path moves state labels last) (path' : Path moves state labels last')
    (determined : ∀ {state middle middle' : τ} {label : ℓ},
      moves state label middle → moves state label middle' → middle = middle') : last = last' := by
  induction path with
  | nil => cases path' with
    | nil => rfl
  | cons move _ ih => cases path' with
    | cons move' rest' =>
        cases determined move move'
        exact ih rest'

end Transition
