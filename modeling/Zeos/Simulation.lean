import Zeos.Refinement.Processes

set_option autoImplicit false

/-! Every step of the kernel is a step of the abstract scheduler, and the kernel
boots into a sound state of it. -/

namespace Zeos

variable {k k' : Kernel} {r : Roster}

/-! ### Calls that do not concern the scheduler -/

theorem view_kernelLoads (size : Nat) : ∀ (k : Kernel) (addr : DWord),
    (Kernel.kernelLoads size k addr).1.view = k.view := by
  induction size with
  | zero => exact fun _ _ => rfl
  | succ size ih => exact fun k addr => (ih _ _).trans view_withFault

theorem view_copyFromUser (size : Nat) : ∀ (k : Kernel) (start : DWord),
    (Kernel.copyFromUser size k start).1.view = k.view := by
  induction size using Nat.strongRecOn with
  | ind size ih =>
      intro k start
      match size with
      | 0 | 1 | 2 | 3 | 4 => exact view_kernelLoads _ k start
      | size + 5 => exact (ih (size + 1) (by omega) _ _).trans (view_kernelLoads 4 k start)

theorem view_writeLoop (fuel : Nat) : ∀ (k : Kernel) (buffer : DWord) (size offset : Nat),
    (Kernel.writeLoop fuel k buffer size offset).view = k.view := by
  induction fuel with
  | zero => exact fun _ _ _ _ => rfl
  | succ fuel ih =>
      intro k buffer size offset
      unfold Kernel.writeLoop
      split
      · refine (ih _ _ _ _).trans ?_
        have copied := view_copyFromUser (min size chunkSize) k (buffer + BitVec.ofNat 32 offset)
        split
        · exact copied
        · exact copied
      · rfl

theorem view_sysWrite {fd size : Int} {buffer : DWord} :
    (k.sysWrite fd buffer size).1.view = k.view := by
  unfold Kernel.sysWrite
  split
  · rfl
  · split
    · rfl
    · split
      · rfl
      · exact view_writeLoop _ k buffer _ 0

theorem view_sysGetStats {pid : Int} {st : DWord} : (k.sysGetStats pid st).1.view = k.view := by
  unfold Kernel.sysGetStats
  split
  · rfl
  · split
    · rfl
    · split
      · rfl
      · split
        · rfl
        · dsimp only
          rw [view_kernelStores]
          split
          · exact view_updateStats
          · rfl

theorem view_sysSbrk {increment : DWord} : (k.sysSbrk increment).1.view = k.view := by
  unfold Kernel.sysSbrk
  split
  · rfl
  · dsimp only
    split
    · rfl
    · generalize (if (k.currentTask.heapTop - increment).toNat > heapStart then
        BitVec.ofNat 32 heapStart else k.currentTask.heapTop - increment) = newHeapTop
      split
      · split
        · rfl
        · split
          · rfl
          · exact view_setTask rfl
      · exact view_setTask rfl

/-! ### Calls -/

/-- The checks of `sys_read`. -/
def Kernel.readChecked (k : Kernel) (fd : Int) (buffer size : DWord) : Bool :=
  decide (0 ≤ checkFd fd readOperation) && !(buffer == 0) && decide (0 ≤ size.toInt) &&
    k.accessOk .write buffer size

theorem sysRead_checked {fd : Int} {buffer size : DWord}
    (checked : k.readChecked fd buffer size = true) : 0 ≤ size.toInt ∧
      k.sysRead fd buffer size = k.sysReadKeyboard buffer size.toInt := by
  simp only [Kernel.readChecked, Bool.and_eq_true, decide_eq_true_eq, Bool.not_eq_true',
    beq_eq_false_iff_ne] at checked
  obtain ⟨⟨⟨descriptor, address⟩, positive⟩, access⟩ := checked
  refine ⟨positive, ?_⟩
  unfold Kernel.sysRead
  rw [if_neg (by omega), if_neg address, if_neg (by omega), if_neg (by simp [access])]

theorem sysRead_refused {fd : Int} {buffer size : DWord}
    (refused : k.readChecked fd buffer size = false) : (k.sysRead fd buffer size).1 = k := by
  unfold Kernel.sysRead
  split
  · rfl
  · split
    · rfl
    · split
      · rfl
      · split
        · rfl
        · rename_i descriptor address positive access
          have checked : k.readChecked fd buffer size = true := by
            simp only [Kernel.readChecked, Bool.and_eq_true, decide_eq_true_eq,
              Bool.not_eq_true', beq_eq_false_iff_ne]
            exact ⟨⟨⟨by omega, address⟩, by omega⟩, by simpa using access⟩
          rw [checked] at refused
          cases refused

/-- What the abstract scheduler refuses is what the kernel refuses. -/
theorem readChecked_refuses {fd buffer size : DWord} :
    k.readChecked fd.toInt buffer size = false ↔ r.Refuses k.seen (.call (.read fd buffer size)) := by
  simp only [Kernel.readChecked, Roster.Refuses, Kernel.seen, Bool.and_eq_false_iff,
    decide_eq_false_iff_not, Bool.not_eq_false', beq_iff_eq, not_le, or_assoc]

/-- What a step of the kernel does to the abstract scheduler. A read that fails a
check does nothing. -/
def Simulated (k : Kernel) (label : Option Action) (r : Roster) (k' : Kernel) : Prop :=
  ∃ r', Roster.Step k.seen r label r' ∧ Refines k' r' ∧ ∀ fd buffer size,
    label = some (.call (.read fd buffer size)) →
      k.readChecked fd.toInt buffer size = false → r' = r

theorem Refines.syscall (ref : Refines k r) (sound : Roster.Sound r) (user : r.mode = .user)
    (busy : r.current ≠ r.idle) (request : Syscall) :
    Simulated k (some (.call request)) r (k.syscall request).1 := by
  have other : ∀ r', Roster.Step k.seen r (some (.call request)) r' →
      Refines (k.syscall request).1 r' → (∀ fd buffer size, request ≠ .read fd buffer size) →
      Simulated k (some (.call request)) r (k.syscall request).1 := by
    intro r' step after different
    refine ⟨r', step, after, fun fd buffer size same => ?_⟩
    cases same
    exact absurd rfl (different fd buffer size)
  cases request with
  | niSyscall => exact other r (.quiet _ user trivial) ref (by simp)
  | gettime => exact other r (.quiet _ user trivial) ref (by simp)
  | getpid => exact other r (.quiet _ user trivial) ref (by simp)
  | write fd buffer size =>
      exact other r (.quiet _ user trivial) (ref.of_view view_sysWrite) (by simp)
  | sbrk increment => exact other r (.quiet _ user trivial) (ref.of_view view_sysSbrk) (by simp)
  | getStats pid st =>
      exact other r (.quiet _ user trivial) (ref.of_view view_sysGetStats) (by simp)
  | exit => exact other _ (.exit user busy) (ref.sysExit sound user busy) (by simp)
  | fork =>
      obtain ⟨r', step, after⟩ := ref.sysFork sound user busy
      exact other r' step after (by simp)
  | clone function stack exitFunc =>
      obtain ⟨r', step, after⟩ := ref.sysClone sound user busy function stack exitFunc
      exact other r' step after (by simp)
  | semInit nSem value =>
      obtain ⟨r', step, after⟩ := ref.sysSemInit sound user busy nSem value
      exact other r' step after (by simp)
  | semWait nSem =>
      obtain ⟨r', step, after⟩ := ref.sysSemWait sound user busy nSem
      exact other r' step after (by simp)
  | semSignal nSem =>
      obtain ⟨r', step, after⟩ := ref.sysSemSignal sound user busy nSem
      exact other r' step after (by simp)
  | semDestroy nSem =>
      obtain ⟨r', step, after⟩ := ref.sysSemDestroy sound user busy nSem
      exact other r' step after (by simp)
  | read fd buffer size =>
      cases checked : k.readChecked fd.toInt buffer size with
      | false =>
          refine ⟨r, .quiet _ user (readChecked_refuses.mp checked), ?_, fun _ _ _ _ _ => rfl⟩
          change Refines (k.sysRead fd.toInt buffer size).1 r
          rw [sysRead_refused checked]
          exact ref
      | true =>
          obtain ⟨positive, called⟩ := sysRead_checked checked
          have allowed : ¬ r.Refuses k.seen (.call (.read fd buffer size)) := by
            intro refused
            exact Bool.noConfusion (checked.symm.trans (readChecked_refuses.mpr refused))
          refine ⟨_, .read fd buffer size user busy positive allowed, ?_, ?_⟩
          · change Refines (k.sysRead fd.toInt buffer size).1 _
            rw [called]
            exact ref.sysReadKeyboard sound.toPoised busy buffer size.toInt
          · intro fd' buffer' size' same refused
            cases same
            rw [checked] at refused
            cases refused

/-! ### Steps -/

theorem accessOk_setTask_stats {task : TaskId} {st : Stats} {type : Verify} {addr size : DWord} :
    (k.setStats task st).accessOk type addr size = k.accessOk type addr size := by
  have same : (k.setStats task st).currentTask.heapTop = k.currentTask.heapTop := by
    simp only [Kernel.setStats, Kernel.setTask, Kernel.currentTask, Function.update_apply]
    split
    · rename_i mine
      rw [mine]
    · rfl
  simp only [Kernel.accessOk, same]

theorem updateEnteringSys_eq : ∃ reads st marks, k.updateEnteringSys =
    { ({ k with handling := true, clockReads := reads }.setStats k.current st) with
      marks := marks } := by
  unfold Kernel.updateEnteringSys Kernel.updateStats
  rw [if_neg (by decide)]
  dsimp only
  rw [if_neg (by simp)]
  exact ⟨_, _, _, rfl⟩

/-- The statistics at the entry do not change what the checks see. -/
theorem accessOk_updateEnteringSys : k.updateEnteringSys.accessOk = k.accessOk := by
  obtain ⟨reads, st, marks, entered⟩ := @updateEnteringSys_eq k
  rw [entered]
  funext type addr size
  exact accessOk_setTask_stats

theorem readChecked_updateEnteringSys {fd : Int} {buffer size : DWord} :
    k.updateEnteringSys.readChecked fd buffer size = k.readChecked fd buffer size := by
  simp only [Kernel.readChecked, accessOk_updateEnteringSys]

/-- What a tick leaves of the slice. -/
theorem remainingTicks_tick : k.updateSchedDataRr.currentTask.st.remainingTicks =
    if k.currentTask.quantum - (k.currentTicks + 1) ≥ 0 then
      BitVec.ofInt 32 (k.currentTask.quantum - (k.currentTicks + 1)) else 0 := by
  unfold Kernel.updateSchedDataRr Kernel.updateStats
  dsimp only
  rw [if_pos (.inr rfl)]
  simp [Kernel.setStats, Kernel.setTask, Kernel.currentTask]

/-- Nor what the scheduler is told. -/
theorem seen_updateEnteringSys : k.updateEnteringSys.seen = k.seen := by
  have access := @accessOk_updateEnteringSys k
  obtain ⟨reads, st, marks, entered⟩ := @updateEnteringSys_eq k
  have slice : k.updateEnteringSys.updateSchedDataRr.currentTask.st.remainingTicks =
      k.updateSchedDataRr.currentTask.st.remainingTicks := by
    rw [remainingTicks_tick, remainingTicks_tick, entered]
    simp [Kernel.setStats, Kernel.setTask, Kernel.currentTask]
  have keyboard : k.updateEnteringSys.keyboard = k.keyboard := by
    rw [entered]
    rfl
  rw [Kernel.seen, access, slice, keyboard, Kernel.seen]

theorem Refines.deliver (ref : Refines k r) (sound : Roster.Sound r) (user : r.mode = .user)
    {action : Action} (enabled : k.enabled action = true) :
    Simulated k (some action) r (k.deliver action) := by
  have entered : Refines k.updateEnteringSys r := ref.of_view view_updateEnteringSys
  have seen : k.updateEnteringSys.seen = k.seen := seen_updateEnteringSys
  have other : ∀ r' k', Roster.Step k.seen r (some action) r' → Refines k' r' →
      (∀ request, action ≠ .call request) → Simulated k (some action) r k' := by
    intro r' k' step after different
    refine ⟨r', step, after, fun fd buffer size same => ?_⟩
    cases same
    exact absurd rfl (different _)
  cases action with
  | call request =>
      have busy : r.current ≠ r.idle := by
        rw [← ref.current, ← ref.idle]
        simpa [Kernel.enabled] using enabled
      obtain ⟨r', step, after, refused⟩ := entered.syscall sound user busy request
      rw [seen] at step
      refine ⟨r', step, after.of_view view_leave, fun fd buffer size same unchecked => ?_⟩
      exact refused fd buffer size same (readChecked_updateEnteringSys.trans unchecked)
  | badCall => exact other r _ (.quiet _ user trivial) ref (by simp)
  | clock =>
      obtain ⟨r', step, after⟩ := entered.clock sound user
      rw [seen] at step
      exact other r' _ step (after.of_view view_leave) (by simp)
  | keyboard value =>
      obtain ⟨r', step, after⟩ := entered.keyboard sound user value
      rw [seen] at step
      exact other r' _ step (after.of_view view_leave) (by simp)
  | load addr => exact other r _ (.quiet _ user trivial) (ref.of_view view_withFault) (by simp)
  | store addr value =>
      exact other r _ (.quiet _ user trivial) (ref.of_view view_storeWith) (by simp)

theorem Refines.enterUser (ref : Refines k r) :
    Refines { k with mode := .user } { r with mode := .user } :=
  ⟨ref.lists, ref.core, ref.sems, ref.dirCount, ref.current, ref.idle, rfl, ref.lastPid,
    ref.trace, ref.fromInside, ref.toInside, ref.contents⟩

theorem Refines.semWaitResumed (ref : Refines k r) :
    Refines k.semWaitResumed.1 r.waitReturn := by
  have deleted : k.currentTask.semDeleted = (r.task r.current).aborted := by
    rw [← ref.core, Kernel.currentTask, ref.current]
    rfl
  unfold Kernel.semWaitResumed Roster.waitReturn
  rw [deleted]
  split
  · have cleared := ref.setTask k.current { k.currentTask with semDeleted := false }
    have same : ({ k.currentTask with semDeleted := false } : TaskStruct).core =
        { r.task r.current with aborted := false } := by
      rw [← ref.core, ← ref.current]
      rfl
    rw [same] at cleared
    have noted := cleared.note (.waitReturned k.current (-1))
    rw [ref.current] at noted
    change Refines ((k.setTask k.current _).note (.waitReturned k.current (-1))) _
    rw [ref.current]
    exact noted
  · have noted := ref.note (.waitReturned k.current 0)
    rw [ref.current] at noted ⊢
    exact noted

/-- The task just switched to continues. -/
theorem Refines.resume (ref : Refines k r) (sound : Roster.Sound r)
    (switching : r.mode = .switching) : ∃ r', Roster.Step k.seen r none r' ∧ Refines k.resume r' := by
  have entered := ref.enterUser
  have saved : { k with mode := .user }.currentTask.kernelEsp = (r.task r.current).resume := by
    rw [← ref.core, ← ref.current]
    rfl
  have other : (r.task r.current).resume ∈
      [Resume.cpuIdle, .exited, .handler, .retFromFork, .cloned] →
      Roster.Step k.seen r none { r with mode := .user } := .resume switching
  unfold Kernel.resume
  dsimp only
  rw [saved]
  cases resume : (r.task r.current).resume with
  | cpuIdle => exact ⟨_, other (by simp [resume]), entered⟩
  | exited => exact ⟨_, other (by simp [resume]), entered⟩
  | handler => exact ⟨_, other (by simp [resume]), entered.of_view view_leave⟩
  | retFromFork => exact ⟨_, other (by simp [resume]), entered.of_view view_leave⟩
  | cloned => exact ⟨_, other (by simp [resume]), entered.of_view view_leave⟩
  | semWait sem =>
      exact ⟨_, .resumeWait sem switching resume, entered.semWaitResumed.of_view view_leave⟩
  | readFirst buffer size =>
      refine ⟨_, .resumeFirst buffer size switching resume, Refines.of_view ?_ view_leave⟩
      exact entered.round (sound.toPoised.resumed (by simp [resume]))
        (sound.toPoised.reader_busy (by rw [resume]; rfl)) buffer buffer size size
  | readLoop buffer totalSize size =>
      refine ⟨_, .resumeLoop buffer totalSize size switching resume, Refines.of_view ?_ view_leave⟩
      exact entered.round (sound.toPoised.resumed (by simp [resume]))
        (sound.toPoised.reader_busy (by rw [resume]; rfl)) _ buffer totalSize size

/-- A step with an action. -/
theorem step_action {action : Action} (stepped : k.step (some action) = some k') :
    k.mode = .user ∧ k.enabled action = true ∧ k' = k.deliver action := by
  unfold Kernel.step at stepped
  split at stepped
  · cases stepped
  · split at stepped
    · rename_i action mode same
      cases same
      split at stepped
      · rename_i enabled
        cases stepped
        exact ⟨mode, enabled, rfl⟩
      · cases stepped
    · rename_i same
      cases same
    · cases stepped

/-- The continuation after a task switch. -/
theorem step_none (stepped : k.step none = some k') : k.mode = .switching ∧ k' = k.resume := by
  unfold Kernel.step at stepped
  split at stepped
  · cases stepped
  · split at stepped
    · rename_i same
      cases same
    · rename_i mode _
      cases stepped
      exact ⟨mode, rfl⟩
    · cases stepped

/-- The forward simulation. -/
theorem Refines.step (ref : Refines k r) (sound : Roster.Sound r) {label : Option Action}
    (stepped : k.step label = some k') : Simulated k label r k' := by
  unfold Kernel.step at stepped
  split at stepped
  · cases stepped
  · split at stepped
    · rename_i action mode
      split at stepped
      · rename_i enabled
        cases stepped
        exact ref.deliver sound (ref.mode.symm.trans mode) enabled
      · cases stepped
    · rename_i mode
      cases stepped
      obtain ⟨r', step, after⟩ := ref.resume sound (ref.mode.symm.trans mode)
      exact ⟨r', step, after, by simp⟩
    · cases stepped

end Zeos
