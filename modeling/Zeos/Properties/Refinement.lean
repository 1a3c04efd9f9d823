import Zeos.Boot
import Zeos.Forward

set_option autoImplicit false

/-! The kernel refines the abstract scheduler, run by run. -/

namespace Zeos

open Transition (Path path_of_run seenAlong)

namespace Roster

variable {seen : Seen} {r r₁ r₂ : Roster} {label : Option Action}

/-- What the abstract scheduler refuses leaves it as it is. -/
theorem Step.refused {action : Action} (step : Step seen r (some action) r₁)
    (refused : r.Refuses seen action) : r₁ = r := by
  cases step with
  | quiet => rfl
  | preempt _ needed => exact absurd refused needed
  | press value key user pressed room => have := refused key pressed; omega
  | wake value key reader rest user pressed room => have := refused key pressed; omega
  | fork task dir others dirs user busy pool =>
      exact absurd (pool.symm.trans refused) (List.cons_ne_nil task others)
  | clone _ _ _ _ _ _ _ _ _ _ allowed => exact absurd refused allowed
  | exit => exact refused.elim
  | read _ _ _ _ _ _ allowed => exact absurd refused allowed
  | semInit nSem value sem user busy place unused =>
      exact Bool.noConfusion ((refused sem place).symm.trans unused)
  | semTake nSem sem user busy place used =>
      exact Bool.noConfusion ((refused sem place).symm.trans used)
  | semBlock nSem sem user busy place used =>
      exact Bool.noConfusion ((refused sem place).symm.trans used)
  | semRaise nSem sem user busy place used =>
      exact Bool.noConfusion ((refused sem place).symm.trans used)
  | semGrant nSem sem task rest user busy place used =>
      exact Bool.noConfusion ((refused sem place).symm.trans used)
  | semDestroy nSem sem owner user busy place used owned pid =>
      exact absurd pid (refused sem owner place used owned)

/-- A reader is left waiting, or woken. -/
theorem left_or_woken {reader : TaskId} {rest : List TaskId}
    (waiting : r.queue .readers = reader :: rest)
    (left : r.queue .readers = [] ∨
      r.pending.length + 2 < keyboardBufferSize ∧ seen.satisfied = false) :
    ¬ (seen.satisfied = true ∨ r.pending.length + 2 = keyboardBufferSize) := by
  rcases left with none | ⟨room, unsatisfied⟩
  · exact absurd (waiting.symm.trans none) (List.cons_ne_nil reader rest)
  · rintro (satisfied | full)
    · exact Bool.noConfusion (satisfied.symm.trans unsatisfied)
    · omega

/-- What the checks see decides the step. -/
theorem Step.unique (first : Step seen r label r₁) (second : Step seen r label r₂) : r₁ = r₂ := by
  cases first with
  | quiet action user refused => exact (second.refused refused).symm
  | preempt user needed => cases second with
    | quiet _ _ refused => exact absurd refused needed
    | preempt => rfl
  | press value key user pressed room wait => cases second with
    | quiet _ _ refused => have := refused key pressed; omega
    | press value key' user' pressed' =>
        cases pressed.symm.trans pressed'
        rfl
    | wake _ _ _ _ _ _ _ waiting enough => exact absurd enough (left_or_woken waiting wait)
  | wake value key reader rest user pressed room waiting enough => cases second with
    | quiet _ _ refused => have := refused key pressed; omega
    | press _ _ _ _ _ wait => exact absurd enough (left_or_woken waiting wait)
    | wake _ key' reader' rest' user' pressed' room' waiting' =>
        cases pressed.symm.trans pressed'
        cases waiting.symm.trans waiting'
        rfl
  | fork task dir others dirs user busy pool spare => cases second with
    | quiet _ _ refused => exact absurd (pool.symm.trans refused) (List.cons_ne_nil task others)
    | fork task' dir' others' dirs' user' busy' pool' spare' =>
        cases pool.symm.trans pool'
        cases spare.symm.trans spare'
        rfl
  | clone function stack exitFunc task dir others user busy pool own allowed => cases second with
    | quiet _ _ refused => exact absurd refused allowed
    | clone _ _ _ task' dir' others' user' busy' pool' own' =>
        cases pool.symm.trans pool'
        cases own.symm.trans own'
        rfl
  | exit user busy => cases second with
    | quiet _ _ refused => exact refused.elim
    | exit => rfl
  | read fd buffer size user busy positive allowed => cases second with
    | quiet _ _ refused => exact absurd refused allowed
    | read => rfl
  | semInit nSem value sem user busy place unused => cases second with
    | quiet _ _ refused => exact Bool.noConfusion ((refused sem place).symm.trans unused)
    | semInit _ _ sem' user' busy' place' =>
        cases place.symm.trans place'
        rfl
  | semTake nSem sem user busy place used some => cases second with
    | quiet _ _ refused => exact Bool.noConfusion ((refused sem place).symm.trans used)
    | semTake _ sem' user' busy' place' =>
        cases place.symm.trans place'
        rfl
    | semBlock _ sem' user' busy' place' used' none =>
        cases place.symm.trans place'
        exact absurd none some
  | semBlock nSem sem user busy place used none => cases second with
    | quiet _ _ refused => exact Bool.noConfusion ((refused sem place).symm.trans used)
    | semTake _ sem' user' busy' place' used' some =>
        cases place.symm.trans place'
        exact absurd none some
    | semBlock _ sem' user' busy' place' =>
        cases place.symm.trans place'
        rfl
  | semRaise nSem sem user busy place used idle => cases second with
    | quiet _ _ refused => exact Bool.noConfusion ((refused sem place).symm.trans used)
    | semRaise _ sem' user' busy' place' =>
        cases place.symm.trans place'
        rfl
    | semGrant _ sem' task rest user' busy' place' used' waiting =>
        cases place.symm.trans place'
        cases idle.symm.trans waiting
  | semGrant nSem sem task rest user busy place used waiting => cases second with
    | quiet _ _ refused => exact Bool.noConfusion ((refused sem place).symm.trans used)
    | semRaise _ sem' user' busy' place' used' idle =>
        cases place.symm.trans place'
        cases idle.symm.trans waiting
    | semGrant _ sem' task' rest' user' busy' place' used' waiting' =>
        cases place.symm.trans place'
        cases waiting.symm.trans waiting'
        rfl
  | semDestroy nSem sem owner user busy place used owned pid => cases second with
    | quiet _ _ refused => exact absurd pid (refused sem owner place used owned)
    | semDestroy _ sem' owner' user' busy' place' used' owned' =>
        cases place.symm.trans place'
        cases owned.symm.trans owned'
        rfl
  | resume switching outside => cases second with
    | resume => rfl
    | resumeWait sem _ saved => simp [saved] at outside
    | resumeFirst buffer size _ saved => simp [saved] at outside
    | resumeLoop buffer totalSize size _ saved => simp [saved] at outside
  | resumeWait sem switching saved => cases second with
    | resume _ outside => simp [saved] at outside
    | resumeWait => rfl
    | resumeFirst _ _ _ saved' => cases saved.symm.trans saved'
    | resumeLoop _ _ _ _ saved' => cases saved.symm.trans saved'
  | resumeFirst buffer size switching saved => cases second with
    | resume _ outside => simp [saved] at outside
    | resumeWait _ _ saved' => cases saved.symm.trans saved'
    | resumeFirst _ _ _ saved' =>
        cases saved.symm.trans saved'
        rfl
    | resumeLoop _ _ _ _ saved' => cases saved.symm.trans saved'
  | resumeLoop buffer totalSize size switching saved => cases second with
    | resume _ outside => simp [saved] at outside
    | resumeWait _ _ saved' => cases saved.symm.trans saved'
    | resumeFirst _ _ _ saved' => cases saved.symm.trans saved'
    | resumeLoop _ _ _ _ saved' =>
        cases saved.symm.trans saved'
        rfl

/-- A step that is told what was seen. -/
def Told (r : Roster) (entry : Seen × Option Action) (r' : Roster) : Prop :=
  Step entry.1 r entry.2 r'

theorem Told.unique {entry : Seen × Option Action} (first : Told r entry r₁)
    (second : Told r entry r₂) : r₁ = r₂ := Step.unique first second

end Roster

end Zeos
