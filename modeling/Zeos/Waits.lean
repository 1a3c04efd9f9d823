import Zeos.Park

set_option autoImplicit false

/-! How every blocked `sys_sem_wait` ends. The flag `sem_deleted` of a task stays
set from the destruction that woke it until its wait returns. -/

namespace Zeos

namespace Roster

open History

/-- A wait that has ended and not yet returned. -/
def Owed (r : Roster) (task : TaskId) (sem : SemId) : Prop :=
  (task ∈ r.queue .ready ∨ r.mode = .switching ∧ task = r.current) ∧
    (r.task task).resume = .semWait sem

structure WaitSound (r : Roster) : Prop where
  waiting : ∀ s, (waits r.trace).waiting s = r.queue (.waiters s)
  parked : ∀ {s t}, t ∈ r.queue (.waiters s) → (r.task t).aborted = false
  due : ∀ {t s}, r.Owed t s →
    (waits r.trace).outcome t = some (if (r.task t).aborted then -1 else 0)
  flagged : ∀ {t}, (r.task t).aborted = true → ∃ s, r.Owed t s
  fulfilled : ∀ {t}, (waits r.trace).outcome t ≠ none → ∃ s, r.Owed t s
  answered : (waits r.trace).answered = true

variable {r r' : Roster} {task other : TaskId} {q q' : Queue} {sem : SemId}

theorem WaitSound.congr (sound : WaitSound r) (trace : waits r'.trace = waits r.trace)
    (queue : ∀ s, r'.queue (.waiters s) = r.queue (.waiters s))
    (aborted : ∀ t, (r'.task t).aborted = (r.task t).aborted)
    (owed : ∀ t s, r'.Owed t s ↔ r.Owed t s) : WaitSound r' := by
  refine ⟨?_, ?_, ?_, ?_, ?_, ?_⟩
  · intro s
    rw [trace, queue, sound.waiting]
  · intro s t member
    rw [queue] at member
    rw [aborted, sound.parked member]
  · intro t s due
    rw [trace, aborted]
    exact sound.due ((owed t s).mp due)
  · intro t flag
    rw [aborted] at flag
    obtain ⟨s, due⟩ := sound.flagged flag
    exact ⟨s, (owed t s).mpr due⟩
  · intro t some
    rw [trace] at some
    obtain ⟨s, due⟩ := sound.fulfilled some
    exact ⟨s, (owed t s).mpr due⟩
  · rw [trace]
    exact sound.answered

/-- While a user program runs, only ready tasks are owed a return. -/
theorem owed_user (user : r.mode = .user) :
    r.Owed task sem ↔ task ∈ r.queue .ready ∧ (r.task task).resume = .semWait sem := by
  simp [Owed, user]

/-- The flag of the running program is clear. -/
theorem WaitSound.clear (sound : WaitSound r) (running : r.Running) (user : r.mode = .user) :
    (r.task r.current).aborted = false := by
  rw [← Bool.not_eq_true]
  intro flag
  obtain ⟨s, owed⟩ := sound.flagged flag
  rw [owed_user user] at owed
  exact running.out ⟨.ready, owed.1⟩

/-- The running task stops at a point outside `sys_sem_wait`. -/
theorem WaitSound.suspend {first : Bool} {saved : Resume} (sound : WaitSound r)
    (running : r.Running) (user : r.mode = .user) (notWait : ∀ s, saved ≠ .semWait s)
    (notWaiters : ∀ s, q ≠ .waiters s) :
    WaitSound ((r.place r.current q first).save saved) := by
  refine sound.congr rfl ?_ (by simp) ?_
  · intro s
    simp [save, place, setQueue, setState, setTask, Ne.symm (notWaiters s)]
  · intro t s
    rw [owed_user user, owed_user (by simpa using user), save_queue, mem_place, save_resume,
      place_current, place_resume]
    by_cases same : t = r.current
    · subst same
      simp only [↓reduceIte, notWait s, and_false, false_iff, not_and]
      intro member
      exact absurd ⟨.ready, member⟩ running.out
    · simp [same]

/-- The running task stops inside `sys_sem_wait`. -/
theorem WaitSound.block (sound : WaitSound r) (running : r.Running) (user : r.mode = .user) :
    WaitSound (((r.note (.semBlocked sem r.current)).place r.current (.waiters sem) false).save
      (.semWait sem)) := by
  have clear := sound.clear running user
  have owed : ∀ t s, (((r.note (.semBlocked sem r.current)).place r.current (.waiters sem)
      false).save (.semWait sem)).Owed t s ↔ r.Owed t s := by
    intro t s
    rw [owed_user user, owed_user (by simpa [note] using user), save_queue, mem_place, save_resume,
      place_current, place_resume]
    change (_ ∨ t ∈ r.queue .ready) ∧ (if t = r.current then _ else (r.task t).resume) = _ ↔ _
    by_cases same : t = r.current
    · subst same
      have out : r.current ∉ r.queue .ready := fun member => running.out ⟨.ready, member⟩
      simp [out]
    · simp [same]
  have outcome : ∀ t, (waits (.semBlocked sem r.current :: r.trace)).outcome t =
      (waits r.trace).outcome t := fun _ => rfl
  refine ⟨?_, ?_, ?_, ?_, ?_, sound.answered⟩
  · intro s
    have waiting := sound.waiting s
    change Function.update (waits r.trace).waiting sem
      ((waits r.trace).waiting sem ++ [r.current]) s = _
    simp only [save, place, setQueue, setState, setTask, note, Function.update_apply,
      Queue.waiters.injEq, Bool.false_eq_true, ↓reduceIte]
    split
    · rename_i same
      rw [← same, waiting]
    · exact waiting
  · intro s t member
    rw [save_queue, mem_place] at member
    rw [save_aborted, place_aborted]
    rcases member with ⟨_, rfl⟩ | member
    · exact clear
    · exact sound.parked member
  · intro t s due
    rw [owed] at due
    rw [save_aborted, place_aborted]
    exact sound.due due
  · intro t flag
    rw [save_aborted, place_aborted] at flag
    obtain ⟨s, due⟩ := sound.flagged flag
    exact ⟨s, (owed t s).mpr due⟩
  · intro t some
    obtain ⟨s, due⟩ := sound.fulfilled some
    exact ⟨s, (owed t s).mpr due⟩

/-- Idle is interrupted. -/
theorem WaitSound.interrupt (sound : WaitSound r) (queues : r.QueueSound) (user : r.mode = .user)
    (idling : r.current = r.idle) : WaitSound (r.save .handler) := by
  refine sound.congr rfl (fun _ => rfl) (by simp) ?_
  intro t s
  rw [owed_user user, owed_user (show (r.save .handler).mode = .user from user), save_resume]
  by_cases same : t = r.current
  · subst same
    have out : r.current ∉ r.queue .ready := idling ▸ queues.idleOut .ready
    simp [out]
  · simp [same]

theorem WaitSound.yield (sound : WaitSound r) (queues : r.QueueSound) (running : r.Running)
    (user : r.mode = .user) : WaitSound (r.yield.save .handler) := by
  rw [Roster.yield]
  split
  · exact sound.suspend running user (by simp) (by simp)
  · rename_i idling
    exact sound.interrupt queues user (not_not.mp idling)

/-- The next task, or idle, gets the CPU. -/
theorem WaitSound.schedNext {saved : Resume} (sound : WaitSound (r.save saved))
    (park : ParkSound (r.save saved)) (queues : r.QueueSound) (user : r.mode = .user) :
    WaitSound (r.schedNext saved) := by
  rw [schedNext_eq]
  split
  · rename_i empty
    refine sound.congr rfl (fun _ => rfl) (by simp) ?_
    intro t s
    have calm := park.idle
    rw [owed_user (show (r.save saved).mode = .user from user), Owed, run_resume, run_queue,
      run_mode, run_current, save_queue, empty]
    constructor
    · rintro ⟨member | ⟨-, rfl⟩, resume⟩
      · exact ⟨member, resume⟩
      · rw [save_idle, resume] at calm
        cases calm
    · rintro ⟨member, resume⟩
      exact ⟨Or.inl member, resume⟩
  · rename_i some
    have inside : r.nextTask ∈ r.queue .ready := by
      obtain ⟨first, rest, shape⟩ := List.exists_cons_of_ne_nil some
      simp [nextTask, shape]
    refine sound.congr rfl (fun _ => rfl) (by simp) ?_
    intro t s
    rw [owed_user (show (r.save saved).mode = .user from user), Owed, run_resume, run_queue,
      run_mode, run_current, take_task, mem_take (save_sound queues), save_queue]
    simp only [true_and]
    constructor
    · rintro ⟨⟨member, _⟩ | rfl, resume⟩
      · exact ⟨member, resume⟩
      · exact ⟨inside, resume⟩
    · rintro ⟨member, resume⟩
      by_cases same : t = r.nextTask
      · exact ⟨Or.inr same, resume⟩
      · exact ⟨Or.inl ⟨member, same⟩, resume⟩

/-- A reader gets the CPU. -/
theorem WaitSound.wake (sound : WaitSound (r.yield.save .handler))
    (park : ParkSound (r.yield.save .handler)) (queues : r.yield.QueueSound)
    (user : r.yield.mode = .user) (apart : task ≠ r.current)
    (inside : task ∈ r.yield.queue .readers) : WaitSound (r.wake task) := by
  have reading := (park.fits inside).1
  rw [wake_eq apart]
  refine sound.congr rfl (fun _ => rfl) (by simp) ?_
  intro t s
  rw [owed_user (show (r.yield.save .handler).mode = .user from user), Owed, run_resume,
    run_queue, run_mode, run_current, take_task, mem_take (save_sound queues), save_queue]
  simp only [reduceCtorEq, false_and, not_false_eq_true, and_true, true_and]
  constructor
  · rintro ⟨member | rfl, resume⟩
    · exact ⟨member, resume⟩
    · rw [resume] at reading
      cases reading
  · rintro ⟨member, resume⟩
    exact ⟨Or.inl member, resume⟩

/-- A signal dequeues the first waiter. -/
theorem WaitSound.semGrant (sound : WaitSound r) (queues : r.QueueSound) (park : ParkSound r)
    (user : r.mode = .user) (inside : task ∈ r.queue (.waiters sem)) :
    WaitSound (r.semGrant sem task) := by
  have resume : (r.task task).resume = .semWait sem := park.fits inside
  have clear := sound.parked inside
  have notReady : task ∉ r.queue .ready := fun member => by
    cases queues.apart member inside
  have owed : ∀ t s, (r.semGrant sem task).Owed t s ↔ r.Owed t s ∨ t = task ∧ s = sem := by
    intro t s
    rw [owed_user user, owed_user (show (r.semGrant sem task).mode = .user from user)]
    change t ∈ ((r.take task (.waiters sem)).place task .ready false).queue .ready ∧
      (((r.take task (.waiters sem)).place task .ready false).task t).resume = _ ↔ _
    rw [mem_place, mem_take queues, place_resume, take_task]
    by_cases same : t = task
    · subst same
      simp [notReady, resume, eq_comm]
    · simp [same]
  have aborted : ∀ t, ((r.semGrant sem task).task t).aborted = (r.task t).aborted := by
    intro t
    change (((r.take task (.waiters sem)).place task .ready false).task t).aborted = _
    rw [place_aborted, take_task]
  have outcome : ∀ t, (waits (r.semGrant sem task).trace).outcome t =
      if t = task then some 0 else (waits r.trace).outcome t := by
    intro t
    exact Function.update_apply ..
  refine ⟨?_, ?_, ?_, ?_, ?_, sound.answered⟩
  · intro s
    have waiting := sound.waiting s
    change Function.update (waits r.trace).waiting sem
      (((waits r.trace).waiting sem).erase task) s = _
    simp only [Roster.semGrant, take, place, setQueue, setState, setTask, note,
      Function.update_apply, Queue.waiters.injEq, reduceCtorEq, ↓reduceIte]
    split
    · rename_i same
      rw [← same, waiting]
    · exact waiting
  · intro s t member
    rw [aborted]
    change t ∈ ((r.take task (.waiters sem)).place task .ready false).queue (.waiters s) at member
    rw [mem_place, mem_take queues] at member
    rcases member with ⟨same, _⟩ | member
    · cases same
    · exact sound.parked member.1
  · intro t s due
    rw [aborted, outcome]
    rcases (owed t s).mp due with before | ⟨rfl, _⟩
    · rw [if_neg]
      · exact sound.due before
      · rintro rfl
        exact notReady ((owed_user user).mp before).1
    · rw [if_pos rfl, clear]
      rfl
  · intro t flag
    rw [aborted] at flag
    obtain ⟨s, due⟩ := sound.flagged flag
    exact ⟨s, (owed t s).mpr (Or.inl due)⟩
  · intro t some
    rw [outcome] at some
    split at some
    · rename_i same
      exact ⟨sem, (owed t sem).mpr (Or.inr ⟨same, rfl⟩)⟩
    · obtain ⟨s, due⟩ := sound.fulfilled some
      exact ⟨s, (owed t s).mpr (Or.inl due)⟩

/-- A destruction ends the wait of every waiter, and of nobody else. -/
theorem WaitSound.semDestroy (sound : WaitSound r) (queues : r.QueueSound) (park : ParkSound r)
    (user : r.mode = .user) {owner : TaskId} : WaitSound (semDestroy owner r sem) := by
  have history : waits ((r.queue (.waiters sem)).reverse.map (.semAborted sem) ++
      .semDestroyed sem :: r.trace) = (waits r.trace).next (.semDestroyed sem) := by
    induction (r.queue (.waiters sem)).reverse with
    | nil => rfl
    | cons first rest ih => exact ih
  have apart : ∀ t, t ∈ r.queue .ready → t ∉ r.queue (.waiters sem) := by
    intro t member inside
    cases queues.apart member inside
  have owed : ∀ t s, (Roster.semDestroy owner r sem).Owed t s ↔
      r.Owed t s ∨ t ∈ r.queue (.waiters sem) ∧ s = sem := by
    intro t s
    rw [owed_user user, owed_user (by rw [semDestroy_eq]; exact user), semDestroy_eq]
    simp only [Function.update_self, List.mem_append]
    by_cases inside : t ∈ r.queue (.waiters sem)
    · have resume := park.fits inside
      have out : t ∉ r.queue .ready := fun member => apart t member inside
      simp only [inside, ↓reduceIte, or_true, true_and, out, false_and, false_or]
      change (r.task t).resume = .semWait s ↔ s = sem
      rw [resume]
      simp [eq_comm]
    · simp [inside]
  have aborted : ∀ t, ((Roster.semDestroy owner r sem).task t).aborted =
      if t ∈ r.queue (.waiters sem) then true else (r.task t).aborted := by
    intro t
    rw [semDestroy_eq]
    simp only
    split <;> rfl
  have trace : waits (Roster.semDestroy owner r sem).trace =
      (waits r.trace).next (.semDestroyed sem) := by
    rw [semDestroy_eq]
    exact history
  have outcome : ∀ t, (waits (Roster.semDestroy owner r sem).trace).outcome t =
      if t ∈ r.queue (.waiters sem) then some (-1) else (waits r.trace).outcome t := by
    intro t
    rw [trace, ← sound.waiting]
    rfl
  refine ⟨?_, ?_, ?_, ?_, ?_, ?_⟩
  · intro s
    have waiting := sound.waiting s
    rw [trace, semDestroy_eq]
    change Function.update (waits r.trace).waiting sem [] s = _
    simp only [Function.update_apply, Queue.waiters.injEq, reduceCtorEq, ↓reduceIte]
    split
    · rfl
    · exact waiting
  · intro s t member
    rw [aborted]
    simp only [semDestroy_eq, Function.update_apply, Queue.waiters.injEq, reduceCtorEq,
      ↓reduceIte] at member
    split at member
    · cases member
    · rename_i different
      rw [if_neg]
      · exact sound.parked member
      · intro inside
        exact different (Queue.waiters.inj (queues.apart member inside))
  · intro t s due
    rw [aborted, outcome]
    rcases (owed t s).mp due with due | ⟨inside, _⟩
    · have member := (owed_user user).mp due
      rw [if_neg (apart t member.1), if_neg (apart t member.1)]
      exact sound.due due
    · rw [if_pos inside, if_pos inside]
      rfl
  · intro t flag
    rw [aborted] at flag
    split at flag
    · rename_i inside
      exact ⟨sem, (owed t sem).mpr (Or.inr ⟨inside, rfl⟩)⟩
    · obtain ⟨s, due⟩ := sound.flagged flag
      exact ⟨s, (owed t s).mpr (Or.inl due)⟩
  · intro t some
    rw [outcome] at some
    split at some
    · rename_i inside
      exact ⟨sem, (owed t sem).mpr (Or.inr ⟨inside, rfl⟩)⟩
    · obtain ⟨s, due⟩ := sound.fulfilled some
      exact ⟨s, (owed t s).mpr (Or.inl due)⟩
  · rw [trace]
    exact sound.answered

/-- A new task has its flag clear. -/
theorem WaitSound.spawn (sound : WaitSound r) (user : r.mode = .user) (queues : r.QueueSound)
    {others : List TaskId} {dir : DirId} {start : Resume}
    (pool : r.queue .free = task :: others) (notWait : ∀ s, start ≠ .semWait s) :
    WaitSound ((r.allocate task dir).launch task start) := by
  have inside : task ∈ r.queue .free := by simp [pool]
  have apart : ∀ q, q ≠ .free → task ∉ r.queue q := by
    intro q notFree member
    exact notFree (queues.apart member inside)
  rw [spawn_eq pool]
  have owed : ∀ t s, ({ r with
        queue := Function.update (Function.update r.queue .free others) .ready
          (r.queue .ready ++ [task])
        task := Function.update r.task task ⟨.ready, start, false, r.lastPid, some dir⟩
        lastPid := r.lastPid + 1
        owned := Function.update r.owned task []
        born := Function.update r.born task true } : Roster).Owed t s ↔ r.Owed t s := by
    intro t s
    simp only [Owed, user, reduceCtorEq, false_and, or_false, Function.update_self,
      Function.update_apply, List.mem_append, List.mem_singleton]
    by_cases same : t = task
    · subst same
      simp [apart .ready (by simp), notWait s]
    · simp [same]
  refine ⟨?_, ?_, ?_, ?_, ?_, sound.answered⟩
  · intro s
    simp only [Function.update_apply, reduceCtorEq, ↓reduceIte]
    exact sound.waiting s
  · intro s t member
    simp only [Function.update_apply, reduceCtorEq, ↓reduceIte] at member ⊢
    split
    · rfl
    · exact sound.parked member
  · intro t s due
    have before := (owed t s).mp due
    have different : t ≠ task := by
      rintro rfl
      exact apart .ready (by simp) ((owed_user user).mp before).1
    simp only [Function.update_of_ne different]
    exact sound.due before
  · intro t flag
    simp only [Function.update_apply] at flag
    split at flag
    · cases flag
    · obtain ⟨s, due⟩ := sound.flagged flag
      exact ⟨s, (owed t s).mpr due⟩
  · intro t some
    obtain ⟨s, due⟩ := sound.fulfilled some
    exact ⟨s, (owed t s).mpr due⟩

/-- The two ways to return, in one shape. -/
theorem waitReturn_eq : { r with mode := .user }.waitReturn =
    { r with
      mode := .user
      task := Function.update r.task r.current { r.task r.current with aborted := false }
      trace := .waitReturned r.current (if (r.task r.current).aborted then -1 else 0) ::
        r.trace } := by
  rw [Roster.waitReturn]
  by_cases flag : (r.task r.current).aborted = true
  · simp [flag, setTask, note]
  · rw [Bool.not_eq_true] at flag
    have same : { r.task r.current with aborted := false } = r.task r.current := by
      rw [← flag]
    simp [flag, note, same]

/-- The dispatched waiter returns what its wait ended with, and its flag is clear
again. -/
theorem WaitSound.waitReturn (sound : WaitSound r) (switching : r.mode = .switching)
    (running : r.Running) (inside : (r.task r.current).resume = .semWait sem) :
    WaitSound ({ r with mode := .user }.waitReturn) := by
  have out : ∀ q, r.current ∉ r.queue q := fun q member => running.out ⟨q, member⟩
  have due : r.Owed r.current sem := ⟨Or.inr ⟨switching, rfl⟩, inside⟩
  have ended := sound.due due
  rw [waitReturn_eq]
  generalize (if (r.task r.current).aborted then (-1 : Int) else 0) = result at ended ⊢
  have owed : ∀ t s, ({ r with
      mode := .user
      task := Function.update r.task r.current { r.task r.current with aborted := false }
      trace := .waitReturned r.current result :: r.trace } : Roster).Owed t s ↔
        r.Owed t s ∧ t ≠ r.current := by
    intro t s
    rw [owed_user rfl, Owed]
    simp only [Function.update_apply]
    by_cases same : t = r.current
    · subst same
      simp [out .ready]
    · simp [same]
  have outcome : ∀ t, (waits (.waitReturned r.current result :: r.trace)).outcome t =
      if t = r.current then none else (waits r.trace).outcome t := by
    intro t
    exact Function.update_apply ..
  refine ⟨sound.waiting, ?_, ?_, ?_, ?_, ?_⟩
  · intro s t member
    have different : t ≠ r.current := by
      rintro rfl
      exact out _ member
    simp only [Function.update_of_ne different]
    exact sound.parked member
  · intro t s later
    obtain ⟨before, different⟩ := (owed t s).mp later
    simp only [Function.update_of_ne different, outcome, if_neg different]
    exact sound.due before
  · intro t flag
    simp only [Function.update_apply] at flag
    split at flag
    · cases flag
    · rename_i different
      obtain ⟨s, before⟩ := sound.flagged flag
      exact ⟨s, (owed t s).mpr ⟨before, different⟩⟩
  · intro t some
    rw [outcome] at some
    split at some
    · exact absurd rfl some
    · rename_i different
      obtain ⟨s, before⟩ := sound.fulfilled some
      exact ⟨s, (owed t s).mpr ⟨before, different⟩⟩
  · change ((waits r.trace).answered && decide ((waits r.trace).outcome r.current =
      Option.some result)) = true
    rw [sound.answered, ended]
    simp

/-- Any other task that is dispatched owes nothing. -/
theorem WaitSound.resumed (sound : WaitSound r)
    (outside : ∀ s, (r.task r.current).resume ≠ .semWait s) :
    WaitSound { r with mode := .user } := by
  refine sound.congr rfl (fun _ => rfl) (fun _ => rfl) ?_
  intro t s
  rw [owed_user rfl, Owed]
  constructor
  · rintro ⟨member, resume⟩
    exact ⟨Or.inl member, resume⟩
  · rintro ⟨member | ⟨-, rfl⟩, resume⟩
    · exact ⟨member, resume⟩
    · exact absurd resume (outside s)

/-- A dead task owes and is owed nothing. -/
theorem WaitSound.retire (sound : WaitSound r) (user : r.mode = .user) : WaitSound r.retire := by
  have resume : ∀ t, (r.retire.task t).resume = (r.task t).resume ∧
      (r.retire.task t).aborted = (r.task t).aborted := by
    intro t
    rw [retire_eq]
    simp only [Function.update_apply]
    split
    · rename_i same
      rw [same]
      exact ⟨rfl, rfl⟩
    · exact ⟨rfl, rfl⟩
  refine sound.congr (retire_trace _ fun _ _ => rfl) ?_ (fun t => (resume t).2) ?_
  · intro s
    simp [retire_eq]
  · intro t s
    rw [owed_user user, owed_user (by rw [retire_eq]; exact user), (resume t).1]
    simp [retire_eq]

theorem WaitSound.bury (sound : WaitSound r) (queues : r.QueueSound)
    (dead : r.current ∈ r.queue .free) (user : r.mode = .user) {saved : Resume} :
    WaitSound (r.save saved) := by
  refine sound.congr rfl (fun _ => rfl) (by simp) ?_
  intro t s
  rw [owed_user user, owed_user (show (r.save saved).mode = .user from user), save_resume,
    save_queue]
  by_cases same : t = r.current
  · subst same
    have out : r.current ∉ r.queue .ready := fun member => by cases queues.apart member dead
    simp [out]
  · simp [same]

end Roster

end Zeos
