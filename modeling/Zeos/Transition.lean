set_option autoImplicit false

/-! Runs of a labelled transition system whose steps are restricted by a
condition on the state and the label, and the induction rules for them. -/

namespace Transition

universe u v

variable {σ : Type u} {τ : Type u} {ℓ : Type v}

/-- The states reached from a start state by admitted steps. -/
inductive Reachable (step : σ → ℓ → Option σ) (admits : σ → ℓ → Prop) (start : σ → Prop) :
    σ → Prop where
  | start {state : σ} : start state → Reachable step admits start state
  | next {state state' : σ} (label : ℓ) : Reachable step admits start state →
      admits state label → step state label = some state' → Reachable step admits start state'

variable {step : σ → ℓ → Option σ} {admits admits' : σ → ℓ → Prop} {start : σ → Prop}

/-- What holds at the start and is kept by every admitted step holds always. -/
theorem Reachable.invariant (inv : σ → Prop) (initial : ∀ state, start state → inv state)
    (kept : ∀ state label state', inv state → admits state label →
      step state label = some state' → inv state')
    {state : σ} (reached : Reachable step admits start state) : inv state := by
  induction reached with
  | start started => exact initial _ started
  | next label _ allowed stepped ih => exact kept _ label _ ih allowed stepped

theorem Reachable.mono (weaker : ∀ state label, admits state label → admits' state label)
    {state : σ} (reached : Reachable step admits start state) :
    Reachable step admits' start state := by
  induction reached with
  | start started => exact .start started
  | next label _ allowed stepped ih => exact .next label ih (weaker _ _ allowed) stepped

/-- The state after a list of labels, if every step is enabled and admitted. -/
def run (step : σ → ℓ → Option σ) (admits : σ → ℓ → Bool) : σ → List ℓ → Option σ
  | state, [] => some state
  | state, label :: labels =>
      if admits state label then
        match step state label with
        | none => none
        | some state' => run step admits state' labels
      else none

theorem Reachable.of_run {admits : σ → ℓ → Bool} {labels : List ℓ} :
    ∀ {state state' : σ}, Reachable step (fun s l => admits s l = true) start state →
      run step admits state labels = some state' →
      Reachable step (fun s l => admits s l = true) start state' := by
  induction labels with
  | nil =>
      intro state state' reached ran
      cases ran
      exact reached
  | cons label labels ih =>
      intro state state' reached ran
      rw [run] at ran
      split at ran
      · rename_i allowed
        split at ran
        · cases ran
        · rename_i middle stepped
          exact ih (.next label reached allowed stepped) ran
      · cases ran

/-- The last step of a run. -/
theorem run_concat {admits : σ → ℓ → Bool} {labels : List ℓ} {label : ℓ} : ∀ {state last : σ},
    run step admits state (labels ++ [label]) = some last →
    ∃ middle, run step admits state labels = some middle ∧ step middle label = some last := by
  induction labels with
  | nil =>
      intro state last ran
      rw [List.nil_append, run] at ran
      split at ran
      · split at ran
        · cases ran
        · rename_i state' stepped
          cases ran
          exact ⟨state, rfl, stepped⟩
      · cases ran
  | cons first labels ih =>
      intro state last ran
      rw [List.cons_append, run] at ran
      split at ran
      · rename_i allowed
        split at ran
        · cases ran
        · rename_i state' stepped
          obtain ⟨middle, before, after⟩ := ih ran
          refine ⟨middle, ?_, after⟩
          rw [run, if_pos allowed, stepped]
          exact before
      · cases ran

end Transition
