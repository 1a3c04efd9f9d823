import Zeos.Timing

set_option autoImplicit false

/-! The time slice of the running task, counted in clock interrupts. -/

namespace Zeos

namespace Timing

variable {c c' : Timing} {task next : TaskId} {n : Nat} {e : Event}

/-- The live tasks, and idle among them, have the quantum they were created with. -/
structure Steady (c : Timing) : Prop where
  quanta : ∀ t, c.state t ≠ .invalid → c.quantum t = defaultQuantum
  idle : c.state c.idle ≠ .invalid

/-- The running task has had `n` ticks of its quantum. -/
structure Sliced (c : Timing) (n : Nat) : Prop extends Steady c where
  running : c.state c.current ≠ .invalid
  ticks : c.ticks = n
  inside : (n : Int) < defaultQuantum
  remaining : (c.st c.current).remainingTicks = BitVec.ofInt 32 (defaultQuantum - n)

/-! ### What keeps the quanta -/

theorem Steady.stamp (steady : Steady c) : Steady (c.stamp task e) :=
  ⟨steady.quanta, steady.idle⟩

/-- A task that lives changes its state. -/
theorem Steady.setState (steady : Steady c) {state : TaskState} (lives : c.state task ≠ .invalid)
    (stays : task = c.idle → state ≠ .invalid) : Steady (c.setState task state) := by
  constructor
  · intro t alive
    by_cases here : t = task
    · rw [here]
      exact steady.quanta task lives
    · apply steady.quanta t
      intro dead
      exact alive ((Function.update_of_ne here ..).trans dead)
  · show Function.update c.state task state c.idle ≠ .invalid
    by_cases here : c.idle = task
    · rw [here, Function.update_self]
      exact stays here.symm
    · rw [Function.update_of_ne here]
      exact steady.idle

theorem Steady.grant (steady : Steady c) (blocked : c.state task = .blocked) :
    Steady (c.grant task) :=
  (steady.setState (by simp [blocked]) (by simp)).stamp

theorem Steady.grants (steady : Steady c) (grants : Grants c c') : Steady c' := by
  induction grants with
  | none => exact steady
  | more task _ blocked ih => exact ih.grant blocked

theorem Steady.spawn (steady : Steady c) {start : Resume} (running : c.state c.current ≠ .invalid) :
    Steady (c.spawn task start) := by
  constructor
  · intro t alive
    show Function.update c.quantum task (c.quantum c.current) t = defaultQuantum
    by_cases here : t = task
    · rw [here, Function.update_self]
      exact steady.quanta _ running
    · rw [Function.update_of_ne here]
      apply steady.quanta t
      intro dead
      exact alive ((Function.update_of_ne here ..).trans dead)
  · show Function.update c.state task .ready c.idle ≠ .invalid
    rw [Function.update_apply]
    split
    · simp
    · exact steady.idle

/-- A task that gets the CPU starts with all its quantum. -/
theorem Steady.dispatch (steady : Steady c) {saved : Resume} (eligible : c.Eligible next) :
    Sliced (c.dispatch next saved) 0 := by
  have lives : c.state next ≠ .invalid := by
    rcases eligible with ready | idle
    · simp [ready]
    · rw [idle]
      exact steady.idle
  have quantum : c.quantum next = defaultQuantum := steady.quanta next lives
  have running : Steady (c.setState next .run) := steady.setState lives (by simp)
  have run : Steady ((c.setState next .run).stamp next .readyToSys) := running.stamp
  refine ⟨⟨run.quanta, run.idle⟩, ?_, rfl, by decide, ?_⟩
  · show Function.update c.state next .run next ≠ .invalid
    simp
  · show (Function.update ((c.setState next .run).stamp next .readyToSys).st next _
      next).remainingTicks = _
    rw [Function.update_self]
    show (if c.quantum next - 0 ≥ 0 then BitVec.ofInt 32 (c.quantum next - 0) else 0) = _
    rw [quantum]
    rfl

/-! ### What keeps the slice -/

/-- The events that set the remaining ticks are those that make a task ready anew. -/
theorem remaining_stamp (other : task ≠ c.current ∨ e ≠ .freeToReady ∧ e ≠ .sysToReady) :
    ((c.stamp task e).st c.current).remainingTicks = (c.st c.current).remainingTicks := by
  show (Function.update c.st task (c.stamped task e) c.current).remainingTicks = _
  by_cases here : c.current = task
  · rw [here, Function.update_self]
    rcases other with apart | events
    · exact absurd here.symm apart
    · cases e with
      | freeToReady => exact absurd rfl events.1
      | sysToReady => exact absurd rfl events.2
      | refresh =>
          simp only [stamped, credit]
          split
          · rfl
          · split
            · rfl
            · rfl
      | _ => rfl
  · rw [Function.update_of_ne here]

theorem Sliced.stamp (sliced : Sliced c n)
    (other : task ≠ c.current ∨ e ≠ .freeToReady ∧ e ≠ .sysToReady) :
    Sliced (c.stamp task e) n :=
  ⟨sliced.toSteady.stamp, sliced.running, sliced.ticks, sliced.inside,
    (remaining_stamp other).trans sliced.remaining⟩

theorem Sliced.enter (sliced : Sliced c n) : Sliced c.enter n := by
  have handling : Sliced { c with handling := true } n :=
    ⟨⟨sliced.quanta, sliced.idle⟩, sliced.running, sliced.ticks, sliced.inside, sliced.remaining⟩
  exact handling.stamp (Or.inr (by simp))

theorem Sliced.close (sliced : Sliced c n) : Sliced c.close n := by
  unfold Timing.close
  split
  · exact sliced
  · have left : Sliced { c with handling := false } n :=
      ⟨⟨sliced.quanta, sliced.idle⟩, sliced.running, sliced.ticks, sliced.inside, sliced.remaining⟩
    exact left.stamp (Or.inr (by simp))

theorem Sliced.grant (sliced : Sliced c n) (blocked : c.state task = .blocked) :
    Sliced (c.grant task) n := by
  have steady := sliced.toSteady.grant blocked
  have running : Function.update c.state task .ready c.current ≠ .invalid := by
    rw [Function.update_apply]
    split
    · simp
    · exact sliced.running
  exact ⟨steady, running, sliced.ticks, sliced.inside,
    (remaining_stamp (c := c.setState task .ready) (Or.inr (by simp))).trans sliced.remaining⟩

theorem Sliced.grants (sliced : Sliced c n) (grants : Grants c c') : Sliced c' n := by
  induction grants with
  | none => exact sliced
  | more task _ blocked ih => exact ih.grant blocked

theorem Sliced.spawn (sliced : Sliced c n) {start : Resume} (dead : c.state task = .invalid) :
    Sliced (c.spawn task start) n := by
  have apart : task ≠ c.current := fun same => sliced.running (same ▸ dead)
  have running : Function.update c.state task .ready c.current ≠ .invalid := by
    rw [Function.update_of_ne apart.symm]
    exact sliced.running
  have kept : ((c.spawn task start).st c.current).remainingTicks =
      (c.st c.current).remainingTicks := by
    show (Function.update (Function.update c.st task _) task _ c.current).remainingTicks = _
    rw [Function.update_of_ne apart.symm, Function.update_of_ne apart.symm]
  exact ⟨sliced.toSteady.spawn sliced.running, running, sliced.ticks, sliced.inside,
    kept.trans sliced.remaining⟩

/-! ### Steps -/

/-- The ticks of the running task after a step into a mode. -/
def sliceAfter (label : Option Action) (mode : Mode) (n : Nat) : Nat :=
  if mode = .switching then 0 else if label = some .clock then n + 1 else n

theorem Steady.block (steady : Steady c) (running : c.state c.current ≠ .invalid) :
    Steady c.block :=
  (steady.setState running (by simp)).stamp

theorem Steady.requeue (steady : Steady c) (running : c.state c.current ≠ .invalid) :
    Steady c.requeue :=
  (steady.setState running (by simp)).stamp

theorem Serves.sliced (serves : Serves c c') (sliced : Sliced c n) (user : c.mode = .user) :
    Sliced c' (sliceAfter none c'.mode n) := by
  have stays : ∀ {c' : Timing}, c'.mode = .user → Sliced c' n →
      Sliced c' (sliceAfter none c'.mode n) := by
    intro c' mode after
    rw [sliceAfter, mode]
    exact after
  cases serves with
  | refresh task _ => exact stays user (sliced.stamp (Or.inr (by simp)))
  | spawn child start dead _ => exact stays user (sliced.spawn dead)
  | grants granted => exact stays ((mode_grants granted).trans user) (sliced.grants granted)
  | block next saved _ _ eligible =>
      exact (sliced.toSteady.block sliced.running).dispatch eligible
  | exit next busy granted eligible =>
      have retired : Steady c.retire :=
        sliced.toSteady.setState sliced.running fun same => absurd same busy
      exact (retired.grants granted).dispatch eligible

theorem Wakes.sliced (wakes : Wakes c c') (sliced : Sliced c n) (user : c.mode = .user) :
    Sliced c' (sliceAfter none c'.mode n) := by
  have ready : ∀ {c : Timing} {reader : TaskId}, (c.grant reader).Eligible reader := by
    intro c reader
    left
    exact Function.update_self ..
  cases wakes with
  | quiet =>
      rw [sliceAfter, user]
      exact sliced
  | busy reader busy blocked =>
      have apart : c.requeue.state reader ≠ .invalid := by
        show Function.update c.state c.current .ready reader ≠ .invalid
        rw [Function.update_apply]
        split
        · simp
        · simp [blocked]
      have steady := sliced.toSteady.requeue sliced.running
      exact ((steady.setState apart (by simp)).stamp).dispatch ready
  | idle reader _ blocked => exact (sliced.toSteady.grant blocked).dispatch ready

/-- One more tick, before the decision. -/
theorem remaining_tick (sliced : Sliced c n) : (c.tick.st c.current).remainingTicks =
    BitVec.ofInt 32 (defaultQuantum - (n + 1)) := by
  have inside := sliced.inside
  show (Function.update c.st c.current _ c.current).remainingTicks = _
  rw [Function.update_self]
  show (if c.quantum c.current - (c.ticks + 1) ≥ 0 then
    BitVec.ofInt 32 (c.quantum c.current - (c.ticks + 1)) else 0) = _
  rw [sliced.quanta _ sliced.running, sliced.ticks, if_pos (by omega)]

/-- The quantum runs out at the last tick. -/
theorem remaining_tick_zero (sliced : Sliced c n) :
    (c.tick.st c.current).remainingTicks = 0 ↔ (n : Int) + 1 = defaultQuantum := by
  have inside := sliced.inside
  rw [remaining_tick sliced]
  constructor
  · intro none
    have value := congrArg BitVec.toNat none
    rw [BitVec.toNat_ofInt] at value
    change _ = 0 at value
    simp only [defaultQuantum] at value inside ⊢
    omega
  · intro last
    rw [last]
    rfl

theorem Ticks.sliced (ticks : Ticks c c') (sliced : Sliced c n) (user : c.mode = .user) :
    Sliced c' (sliceAfter (some .clock) c'.mode n) := by
  have steady : Steady c.tick := ⟨sliced.quanta, sliced.idle⟩
  cases ticks with
  | stay waiting more =>
      have left : ¬ (n : Int) + 1 = defaultQuantum :=
        fun last => more (Or.inr ((remaining_tick_zero sliced).mpr last))
      have inside := sliced.inside
      have mode : c.tick.mode = .user := user
      rw [sliceAfter, mode]
      refine ⟨steady, sliced.running, ?_, ?_, ?_⟩
      · show c.ticks + 1 = ((n + 1 : Nat) : Int)
        rw [sliced.ticks]
        omega
      · show ((n + 1 : Nat) : Int) < defaultQuantum
        omega
      · exact remaining_tick sliced
  | preempt waiting next _ _ eligible =>
      exact (Steady.requeue (c := c.tick) steady sliced.running).dispatch eligible
  | idleOver waiting next _ _ eligible => exact steady.stamp.dispatch eligible

/-- Every step keeps the count of the ticks. -/
theorem Step.sliced {label : Option Action} (step : Step c label c') (sliced : Sliced c n) :
    Sliced c' (sliceAfter label c'.mode n) := by
  cases step with
  | access action user apart =>
      rw [sliceAfter, user, if_neg (by simp), if_neg (by simpa using apart)]
      exact sliced
  | call request user serves =>
      rw [mode_close]
      exact (serves.sliced sliced.enter user).close
  | keyboard value user wakes =>
      rw [mode_close]
      exact (wakes.sliced sliced.enter user).close
  | clock user ticks =>
      rw [mode_close]
      exact (ticks.sliced sliced.enter user).close
  | resume _ _ serves =>
      rw [mode_close]
      have goes : Sliced c.goOn n :=
        ⟨⟨sliced.quanta, sliced.idle⟩, sliced.running, sliced.ticks, sliced.inside, sliced.remaining⟩
      exact (serves.sliced goes rfl).close
  | resumeIdle _ _ =>
      exact ⟨⟨sliced.quanta, sliced.idle⟩, sliced.running, sliced.ticks, sliced.inside,
        sliced.remaining⟩

/-- A task other than idle gives up the CPU at its last tick and not before. -/
theorem Ticks.expires (ticks : Ticks c c') (sliced : Sliced c n) (user : c.mode = .user)
    (busy : c.current ≠ c.idle) : c'.mode = .switching ↔ (n : Int) + 1 = defaultQuantum := by
  have needs : ∀ waiting : Prop, c.tick.NeedsSched waiting → (n : Int) + 1 = defaultQuantum := by
    intro waiting need
    rcases need with idle | none
    · exact absurd idle.1 busy
    · exact (remaining_tick_zero sliced).mp none
  cases ticks with
  | stay waiting more =>
      have mode : c.tick.mode = .user := user
      rw [mode]
      constructor
      · intro switching
        cases switching
      · exact fun last => absurd (Or.inr ((remaining_tick_zero sliced).mpr last)) more
  | preempt waiting next _ need _ => exact ⟨fun _ => needs waiting need, fun _ => rfl⟩
  | idleOver waiting next idle _ _ => exact absurd idle busy

theorem Step.expires (step : Step c (some .clock) c') (sliced : Sliced c n)
    (busy : c.current ≠ c.idle) : c'.mode = .switching ↔ (n : Int) + 1 = defaultQuantum := by
  cases step with
  | access action _ apart => exact absurd rfl apart
  | clock user ticks =>
      rw [mode_close]
      exact ticks.expires sliced.enter user busy

/-! ### Who runs -/

theorem Serves.current (serves : Serves c c') (user : c'.mode = .user) :
    c'.current = c.current := by
  cases serves with
  | refresh task _ => rfl
  | spawn child start _ _ => rfl
  | grants granted => exact current_grants granted
  | block next saved _ _ _ => cases user
  | exit next _ _ _ => cases user

/-- Until the CPU goes to another task the same one runs. -/
theorem Step.current {label : Option Action} (step : Step c label c') (user : c'.mode = .user) :
    c'.current = c.current := by
  cases step with
  | access action _ _ => rfl
  | call request _ serves =>
      rw [mode_close] at user
      exact current_close.trans (serves.current user)
  | keyboard value _ wakes =>
      rw [mode_close] at user
      rw [current_close]
      cases wakes with
      | quiet => rfl
      | busy reader _ _ => cases user
      | idle reader _ _ => cases user
  | clock _ ticks =>
      rw [mode_close] at user
      rw [current_close]
      cases ticks with
      | stay waiting _ => rfl
      | preempt waiting next _ _ _ => cases user
      | idleOver waiting next _ _ _ => cases user
  | resume _ _ serves =>
      rw [mode_close] at user
      exact current_close.trans (serves.current user)
  | resumeIdle _ _ => rfl

/-- A call gives up the CPU by blocking or for good. -/
theorem Serves.gone (serves : Serves c c') (user : c.mode = .user) (left : c'.mode = .switching) :
    c'.state c.current = .blocked ∨ c'.state c.current = .invalid := by
  cases serves with
  | refresh task _ =>
      rw [show (c.stamp task .refresh).mode = .user from user] at left
      cases left
  | spawn child start _ _ =>
      rw [show (c.spawn child start).mode = .user from user] at left
      cases left
  | grants granted =>
      rw [mode_grants granted, user] at left
      cases left
  | block next saved busy _ eligible =>
      left
      have blocked : c.block.state c.current = .blocked := Function.update_self ..
      have apart : c.current ≠ next := by
        intro same
        rcases eligible with ready | idle
        · rw [← same, blocked] at ready
          cases ready
        · exact busy (same.trans idle)
      exact (Function.update_of_ne apart ..).trans blocked
  | exit next busy granted eligible =>
      right
      have dead : c.retire.state c.current = .invalid := Function.update_self ..
      have kept := (state_grants granted (by rw [dead]; simp)).trans dead
      have same_idle := idle_grants granted
      have apart : c.current ≠ next := by
        intro same
        rcases eligible with ready | resting
        · rw [← same, kept] at ready
          cases ready
        · exact busy (same.trans (resting.trans same_idle))
      exact (Function.update_of_ne apart ..).trans kept

/-- Except for the clock and the keyboard, the running task gives up the CPU by itself. -/
theorem Step.gone {label : Option Action} (step : Step c label c') (apart : label ≠ some .clock)
    (left : c'.mode = .switching) : c'.state c.current = .blocked ∨
      c'.state c.current = .invalid ∨ ∃ value, label = some (.keyboard value) := by
  have calls : ∀ {c' : Timing}, c'.state c.current = .blocked ∨ c'.state c.current = .invalid →
      c'.close.state c.current = .blocked ∨ c'.close.state c.current = .invalid ∨
        ∃ value, label = some (.keyboard value) := by
    intro c' gone
    rw [state_close]
    rcases gone with blocked | dead
    · exact Or.inl blocked
    · exact Or.inr (Or.inl dead)
  cases step with
  | access action user _ =>
      rw [user] at left
      cases left
  | call request user serves =>
      rw [mode_close] at left
      exact calls (serves.gone user left)
  | keyboard value user wakes => exact Or.inr (Or.inr ⟨value, rfl⟩)
  | clock user ticks => exact absurd rfl apart
  | resume _ _ serves =>
      rw [mode_close] at left
      exact calls (serves.gone rfl left)
  | resumeIdle _ _ => cases left

end Timing

end Zeos
