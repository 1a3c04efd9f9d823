import Zeos.Timing.Account

set_option autoImplicit false

/-! Every step keeps the accounts. -/

namespace Zeos

namespace Timing

variable {c c' : Timing} {task next : TaskId} {e : Event}

/-- Inside a handler nobody but the current task and idle can be running. -/
structure Inside (c : Timing) : Prop extends Accounted c where
  handling : c.handling = true
  alone : ∀ t, t ≠ c.idle → c.state t = .run → t = c.current
  returns : ∀ t, t ≠ c.idle → t ≠ c.current → c.state t = .ready ∨ c.state t = .blocked →
    (c.resume t).returns = true

/-- The current task runs. -/
structure Handling (c : Timing) : Prop extends Inside c where
  running : c.current ≠ c.idle → c.state c.current = .run

/-- Nobody runs: the CPU is about to be given to a task. -/
structure Vacant (c : Timing) : Prop extends Inside c where
  vacant : c.current ≠ c.idle → c.state c.current ≠ .run

/-- Between the steps. -/
structure Kept (c : Timing) : Prop extends Accounted c where
  alone : ∀ t, t ≠ c.idle → c.state t = .run → t = c.current
  returns : ∀ t, t ≠ c.idle → t ≠ c.current → c.state t = .ready ∨ c.state t = .blocked →
    (c.resume t).returns = true
  running : c.current ≠ c.idle → c.state c.current = .run
  user : c.mode = .user → c.current ≠ c.idle → c.handling = false
  switching : c.mode = .switching → c.handling = true
  resumes : c.mode = .switching → c.current ≠ c.idle → (c.resume c.current).returns = true

/-! ### Phases -/

/-- What a task does that is not running does not depend on the handlers. -/
theorem phase_of_state (same : c'.state task = c.state task) (rests : c.state task ≠ .run) :
    c'.phase task = c.phase task := by
  unfold phase
  rw [same]
  cases state : c.state task with
  | run => exact absurd state rests
  | _ => rfl

theorem phase_setState {state : TaskState} (apart : task ≠ next) :
    (c.setState next state).phase task = c.phase task := by
  unfold phase
  rw [show (c.setState next state).state task = c.state task from Function.update_of_ne apart ..]
  rfl

/-! ### The ends of a handler -/

theorem Kept.enter (kept : Kept c) (user : c.mode = .user) : Handling c.enter := by
  have rests : ∀ t, t ≠ c.idle → t ≠ c.current → c.state t ≠ .run :=
    fun t other apart run => apart (kept.alone t other run)
  have accounted : Accounted c.enter := by
    apply kept.toAccounted.charge { c with handling := true } rfl rfl rfl
    · intro t other apart alive
      exact ⟨alive, phase_of_state rfl (rests t other apart)⟩
    · simp
    · intro other
      have run := kept.running other
      have phase : c.phase c.current = .user := by
        unfold Timing.phase
        rw [run, kept.user user other]
        rfl
      refine ⟨by simp [run], fun incr => ?_⟩
      rw [phase]
      exact charged_credit (e := .userToSys) (by simp [ends])
  exact ⟨⟨accounted, rfl, kept.alone, kept.returns⟩, kept.running⟩

theorem Handling.close (handling : Handling c) (user : c.mode = .user) : Kept c.close := by
  have rests : ∀ t, t ≠ c.idle → t ≠ c.current → c.state t ≠ .run :=
    fun t other apart run => apart (handling.alone t other run)
  have closed : c.close = { c with handling := false }.stamp c.current .sysToUser := by
    unfold Timing.close
    rw [user, if_neg (by simp)]
  have mode : c.close.mode = .user := by
    rw [closed]
    exact user
  have accounted : Accounted c.close := by
    rw [closed]
    apply handling.toAccounted.charge { c with handling := false } rfl rfl rfl
    · intro t other apart alive
      exact ⟨alive, phase_of_state rfl (rests t other apart)⟩
    · simp
    · intro other
      have run := handling.running other
      have phase : c.phase c.current = .system := by
        unfold Timing.phase
        rw [run, handling.handling]
        rfl
      refine ⟨by simp [run], fun incr => ?_⟩
      rw [phase]
      exact charged_credit (e := .sysToUser) (by simp [ends])
  refine ⟨accounted, ?_, ?_, ?_, ?_, ?_, ?_⟩
  · rw [closed]
    exact handling.alone
  · rw [closed]
    exact handling.returns
  · rw [closed]
    exact handling.running
  · intro _ _
    rw [closed]
    rfl
  · rw [mode]
    simp
  · rw [mode]
    simp

/-- A task that was switched to goes on inside its handler. -/
theorem Kept.goOn (kept : Kept c) (switching : c.mode = .switching) : Handling c.goOn :=
  ⟨⟨kept.toAccounted.congr c.goOn rfl rfl (fun _ _ alive => ⟨alive, rfl⟩) fun _ => ⟨rfl, fun _ => rfl⟩,
    kept.switching switching, kept.alone, kept.returns⟩, kept.running⟩

/-- Idle goes on outside one. -/
theorem Kept.goOnIdle (kept : Kept c) (idle : c.current = c.idle) : Kept c.goOn :=
  ⟨kept.toAccounted.congr c.goOn rfl rfl (fun _ _ alive => ⟨alive, rfl⟩) fun _ => ⟨rfl, fun _ => rfl⟩,
    kept.alone, kept.returns, kept.running, fun _ busy => absurd idle busy, nofun, nofun⟩

/-! ### Inside a handler -/

theorem Inside.grant (inside : Inside c) (blocked : c.state task = .blocked) :
    Inside (c.grant task) := by
  refine ⟨?_, inside.handling, ?_, ?_⟩
  · apply inside.toAccounted.charge (c.setState task .ready) rfl rfl rfl
    · intro t other apart alive
      have same : (c.setState task .ready).state t = c.state t := Function.update_of_ne apart ..
      rw [same] at alive
      exact ⟨alive, phase_setState apart⟩
    · simp
    · intro other
      have phase : c.phase task = .blocked := by
        unfold Timing.phase
        rw [blocked]
      refine ⟨by simp [blocked], fun incr => ?_⟩
      rw [phase]
      exact charged_credit (c := c.setState task .ready) (e := .blockedToReady) (by simp [ends])
  · intro t other run
    have run' : Function.update c.state task .ready t = .run := run
    by_cases mine : t = task
    · rw [mine, Function.update_self] at run'
      cases run'
    · rw [Function.update_of_ne mine] at run'
      exact inside.alone t other run'
  · intro t other apart waits
    have waits' : Function.update c.state task .ready t = .ready ∨
      Function.update c.state task .ready t = .blocked := waits
    by_cases mine : t = task
    · rw [mine] at other apart ⊢
      exact inside.returns task other apart (Or.inr blocked)
    · rw [Function.update_of_ne mine] at waits'
      exact inside.returns t other apart waits'

theorem Handling.grant (handling : Handling c) (blocked : c.state task = .blocked) :
    Handling (c.grant task) := by
  refine ⟨handling.toInside.grant blocked, fun busy => ?_⟩
  have run := handling.running busy
  have apart : c.current ≠ task := fun same => by simp [same, blocked] at run
  exact (Function.update_of_ne apart ..).trans run

theorem Vacant.grant (vacant : Vacant c) (blocked : c.state task = .blocked) :
    Vacant (c.grant task) := by
  refine ⟨vacant.toInside.grant blocked, fun busy => ?_⟩
  show Function.update c.state task .ready c.current ≠ .run
  rw [Function.update_apply]
  split
  · simp
  · exact vacant.vacant busy

theorem Handling.grants (handling : Handling c) (grants : Grants c c') : Handling c' := by
  induction grants with
  | none => exact handling
  | more task _ blocked ih => exact ih.grant blocked

theorem Vacant.grants (vacant : Vacant c) (grants : Grants c c') : Vacant c' := by
  induction grants with
  | none => exact vacant
  | more task _ blocked ih => exact ih.grant blocked

theorem Handling.refresh (handling : Handling c)
    (waits : c.state task = .ready ∨ c.state task = .blocked) :
    Handling (c.stamp task .refresh) := by
  refine ⟨⟨?_, handling.handling, handling.alone, handling.returns⟩, handling.running⟩
  apply handling.toAccounted.charge c rfl rfl rfl
  · exact fun t _ _ alive => ⟨alive, rfl⟩
  · simp
  · intro _
    refine ⟨?_, fun incr => charged_refresh waits⟩
    rcases waits with ready | blocked
    · simp [ready]
    · simp [blocked]

theorem Handling.spawn (handling : Handling c) {start : Resume} (dead : c.state task = .invalid)
    (returns : start.returns = true) : Handling (c.spawn task start) := by
  have away : ∀ t, t ≠ task → (c.spawn task start).state t = c.state t :=
    fun t apart => Function.update_of_ne apart ..
  have here : (c.spawn task start).state task = .ready := Function.update_self ..
  refine ⟨⟨?_, handling.handling, ?_, ?_⟩, ?_⟩
  · apply handling.toAccounted.read (c.born task start) rfl rfl
    · intro t other apart alive
      rw [show (c.born task start).state t = c.state t from away t apart] at alive
      refine ⟨alive, phase_setState apart, ?_⟩
      exact Function.update_of_ne apart ..
    · intro _
      refine ⟨rfl, fun _ => ?_, fun later => absurd rfl later⟩
      show Stats.sum ((c.born task start).stamped task .freeToReady) = 0
      show Stats.sum { Function.update c.st task ⟨0, 0, 0, 0, 0, 0, 0⟩ task with
        remainingTicks := _, elapsedTotalTicks := _ } = 0
      rw [Function.update_self]
      rfl
  · intro t other run
    by_cases mine : t = task
    · rw [mine, here] at run
      cases run
    · rw [away t mine] at run
      exact handling.alone t other run
  · intro t other apart waits
    show (Function.update c.resume task start t).returns = true
    by_cases mine : t = task
    · rw [mine, Function.update_self]
      exact returns
    · rw [away t mine] at waits
      rw [Function.update_of_ne mine]
      exact handling.returns t other apart waits
  · intro busy
    have run := handling.running busy
    have apart : c.current ≠ task := fun same => by simp [same, dead] at run
    exact (away _ apart).trans run

/-! ### Giving up the CPU -/

/-- The current task stops running, with a reading of the clock. -/
theorem Handling.stop (handling : Handling c) (busy : c.current ≠ c.idle) {state : TaskState}
    (stops : state ≠ .run) (system : ends e = .system) :
    Vacant ((c.setState c.current state).stamp c.current e) := by
  have here : (c.setState c.current state).state c.current = state := Function.update_self ..
  have away : ∀ t, t ≠ c.current → (c.setState c.current state).state t = c.state t :=
    fun t apart => Function.update_of_ne apart ..
  have run := handling.running busy
  refine ⟨⟨?_, handling.handling, ?_, ?_⟩, ?_⟩
  · apply handling.toAccounted.charge (c.setState c.current state) rfl rfl rfl
    · intro t other apart alive
      rw [away t apart] at alive
      exact ⟨alive, phase_setState apart⟩
    · intro start
      rw [start] at system
      cases system
    · intro _
      have phase : c.phase c.current = ends e := by
        unfold Timing.phase
        rw [run, handling.handling, system]
        rfl
      refine ⟨by simp [run], fun incr => ?_⟩
      rw [phase]
      exact charged_credit (c := c.setState c.current state) (by simp [system])
  · intro t other running
    by_cases mine : t = c.current
    · exact mine
    · exact handling.alone t other ((away t mine).symm.trans running)
  · intro t other apart waits
    have waits' : (c.setState c.current state).state t = .ready ∨
      (c.setState c.current state).state t = .blocked := waits
    rw [away t apart] at waits'
    exact handling.returns t other apart waits'
  · intro _
    show (c.setState c.current state).state c.current ≠ .run
    rw [here]
    exact stops

/-- The current task leaves for good. -/
theorem Handling.retire (handling : Handling c) : Vacant c.retire := by
  have away : ∀ t, t ≠ c.current → c.retire.state t = c.state t :=
    fun t apart => Function.update_of_ne apart ..
  have dead : c.retire.state c.current = .invalid := Function.update_self ..
  refine ⟨⟨?_, handling.handling, ?_, ?_⟩, ?_⟩
  · apply handling.toAccounted.congr c.retire rfl rfl
    · intro t other alive
      by_cases mine : t = c.current
      · rw [mine] at alive
        exact absurd dead alive
      · rw [away t mine] at alive
        exact ⟨alive, phase_setState mine⟩
    · exact fun t => ⟨rfl, fun _ => rfl⟩
  · intro t other running
    by_cases mine : t = c.current
    · exact mine
    · exact handling.alone t other ((away t mine).symm.trans running)
  · intro t other apart waits
    rw [away t apart] at waits
    exact handling.returns t other apart waits
  · intro _
    show c.retire.state c.current ≠ .run
    rw [dead]
    simp

/-- Nobody else runs while idle has the CPU. -/
theorem Handling.idle (handling : Handling c) (idle : c.current = c.idle) : Vacant c :=
  ⟨handling.toInside, fun busy => absurd idle busy⟩

/-- A reading for idle, which has no account. -/
theorem Vacant.rest (vacant : Vacant c) (idle : c.current = c.idle) (later : e ≠ .freeToReady) :
    Vacant (c.stamp c.current e) := by
  refine ⟨⟨?_, vacant.handling, vacant.alone, vacant.returns⟩, vacant.vacant⟩
  apply vacant.toAccounted.charge c rfl rfl rfl
  · exact fun t _ _ alive => ⟨alive, rfl⟩
  · exact later
  · exact fun other => absurd idle other

/-- The remaining ticks are on no account. -/
theorem Accounted.refreshTicks (accounted : Accounted c) : Accounted (c.refreshTicks task) := by
  apply accounted.congr (c.refreshTicks task) rfl rfl
  · exact fun _ _ alive => ⟨alive, rfl⟩
  · intro t
    show (Function.update c.st task _ t).elapsedTotalTicks = _ ∧
      ∀ p, (Function.update c.st task _ t).bucket p = _
    by_cases mine : t = task
    · rw [mine, Function.update_self]
      exact ⟨rfl, fun p => by cases p <;> rfl⟩
    · rw [Function.update_of_ne mine]
      exact ⟨rfl, fun _ => rfl⟩

theorem Handling.tick (handling : Handling c) : Handling c.tick := by
  have ticked : Accounted { c with ticks := c.ticks + 1 } :=
    handling.toAccounted.congr _ rfl rfl (fun _ _ alive => ⟨alive, rfl⟩) fun _ => ⟨rfl, fun _ => rfl⟩
  exact ⟨⟨ticked.refreshTicks, handling.handling, handling.alone, handling.returns⟩,
    handling.running⟩

/-- The CPU goes to a task that was ready. -/
theorem Vacant.dispatch (vacant : Vacant c) {saved : Resume} (eligible : c.Eligible next)
    (returns : saved.returns = true ∨ c.state c.current = .invalid) :
    Kept (c.dispatch next saved) := by
  have here : (c.dispatch next saved).state next = .run := Function.update_self ..
  have away : ∀ t, t ≠ next → (c.dispatch next saved).state t = c.state t :=
    fun t apart => Function.update_of_ne apart ..
  have rests : ∀ t, t ≠ c.idle → c.state t ≠ .run := by
    intro t other run
    have mine := vacant.alone t other run
    rw [mine] at other run
    exact vacant.vacant other run
  have accounted : Accounted (c.dispatch next saved) := by
    have read : Accounted ((c.setState next .run).stamp next .readyToSys) := by
      apply vacant.toAccounted.charge (c.setState next .run) rfl rfl rfl
      · intro t other apart alive
        rw [show (c.setState next .run).state t = c.state t from away t apart] at alive
        exact ⟨alive, phase_setState apart⟩
      · simp
      · intro other
        have ready : c.state next = .ready := eligible.resolve_right other
        have phase : c.phase next = .ready := by
          unfold Timing.phase
          rw [ready]
        refine ⟨by simp [ready], fun incr => ?_⟩
        rw [phase]
        exact charged_credit (c := c.setState next .run) (e := .readyToSys) (by simp [ends])
    have reset : Accounted { (c.setState next .run).stamp next .readyToSys with ticks := 0 } :=
      read.congr _ rfl rfl (fun _ _ alive => ⟨alive, rfl⟩) fun _ => ⟨rfl, fun _ => rfl⟩
    have refreshed := @Accounted.refreshTicks _ next reset
    exact refreshed.congr (c.dispatch next saved) rfl rfl
      (fun _ _ alive => ⟨alive, rfl⟩) fun _ => ⟨rfl, fun _ => rfl⟩
  have resume : ∀ t, t ≠ c.idle → c.state t = .ready ∨ c.state t = .blocked →
      ((c.dispatch next saved).resume t).returns = true := by
    intro t other waits
    show (Function.update c.resume c.current saved t).returns = true
    by_cases mine : t = c.current
    · rw [mine, Function.update_self]
      rcases returns with returns | dead
      · exact returns
      · rw [mine, dead] at waits
        rcases waits with ready | blocked
        · cases ready
        · cases blocked
    · rw [Function.update_of_ne mine]
      exact vacant.returns t other mine waits
  refine ⟨accounted, ?_, ?_, fun _ => here, nofun, fun _ => vacant.handling, ?_⟩
  · intro t other run
    by_cases mine : t = next
    · exact mine
    · rw [away t mine] at run
      exact absurd run (rests t other)
  · intro t other apart waits
    rw [away t apart] at waits
    exact resume t other waits
  · intro _ other
    exact resume next other (Or.inl (eligible.resolve_right other))

/-! ### Steps -/

theorem eligible_grant : (c.grant task).Eligible task := Or.inl (Function.update_self ..)

theorem Serves.kept (serves : Serves c c') (handling : Handling c) (user : c.mode = .user) :
    Kept c'.close := by
  cases serves with
  | refresh task waits => exact (handling.refresh waits).close user
  | spawn child start dead returns => exact (handling.spawn dead returns).close user
  | grants granted => exact (handling.grants granted).close ((mode_grants granted).trans user)
  | block next saved busy returns eligible =>
      have vacant : Vacant c.block := handling.stop busy (by simp) rfl
      rw [close_switching rfl]
      exact vacant.dispatch eligible (Or.inl returns)
  | @exit c₁ next busy granted eligible =>
      have vacant := handling.retire.grants granted
      have dead : c.retire.state c.retire.current = .invalid := Function.update_self ..
      have gone : c₁.state c₁.current = .invalid := by
        rw [current_grants granted]
        exact (state_grants granted (by rw [dead]; simp)).trans dead
      rw [close_switching rfl]
      exact vacant.dispatch eligible (Or.inr gone)

theorem Wakes.kept (wakes : Wakes c c') (handling : Handling c) (user : c.mode = .user) :
    Kept c'.close := by
  cases wakes with
  | quiet => exact handling.close user
  | busy reader busy blocked =>
      have vacant : Vacant c.requeue := handling.stop busy (by simp) rfl
      have run := handling.running busy
      have apart : reader ≠ c.current := fun same => by simp [← same, blocked] at run
      have waits : c.requeue.state reader = .blocked := (Function.update_of_ne apart ..).trans blocked
      rw [close_switching rfl]
      exact (vacant.grant waits).dispatch eligible_grant (Or.inl rfl)
  | idle reader idle blocked =>
      rw [close_switching rfl]
      exact ((handling.idle idle).grant blocked).dispatch eligible_grant (Or.inl rfl)

theorem Ticks.kept (ticks : Ticks c c') (handling : Handling c) (user : c.mode = .user) :
    Kept c'.close := by
  cases ticks with
  | stay waiting more => exact handling.tick.close user
  | preempt waiting next busy need eligible =>
      have vacant : Vacant c.tick.requeue := handling.tick.stop busy (by simp) rfl
      rw [close_switching rfl]
      exact vacant.dispatch eligible (Or.inl rfl)
  | idleOver waiting next idle need eligible =>
      have vacant := (handling.tick.idle idle).rest (e := .sysToReady) idle (by simp)
      rw [close_switching rfl]
      exact vacant.dispatch eligible (Or.inl rfl)

/-- Every step keeps the accounts. -/
theorem Step.kept {label : Option Action} (step : Step c label c') (kept : Kept c) : Kept c' := by
  cases step with
  | access action _ _ => exact kept
  | call request user serves => exact serves.kept (kept.enter user) user
  | keyboard value user wakes => exact wakes.kept (kept.enter user) user
  | clock user ticks => exact ticks.kept (kept.enter user) user
  | resume switching _ serves => exact serves.kept (kept.goOn switching) rfl
  | resumeIdle switching rests =>
      apply kept.goOnIdle
      by_contra busy
      rw [kept.resumes switching busy] at rests
      cases rests

end Timing

end Zeos
