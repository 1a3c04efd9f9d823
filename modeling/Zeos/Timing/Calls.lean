import Zeos.Refinement.Processes
import Zeos.Timing

set_option autoImplicit false

/-! What the functions of the kernel do with time. -/

namespace Zeos

variable {k k' : Kernel} {task : TaskId} {sem : SemId} {addr : DWord} {value : Byte}

/-! ### Small changes -/

/-- What is read of the tasks after one struct is replaced. -/
theorem read_setTask {α : Type} {struct : TaskStruct} (read : TaskStruct → α) :
    (fun t => read ((k.setTask task struct).tasks t)) =
      Function.update (fun t => read (k.tasks t)) task (read struct) := by
  funext t
  simp only [Kernel.setTask, Function.update_apply]
  split
  · rfl
  · rfl

theorem timing_replace {struct : TaskStruct} : (k.setTask task struct).timing =
    { k.timing with
      state := Function.update k.timing.state task struct.state
      resume := Function.update k.timing.resume task struct.kernelEsp
      quantum := Function.update k.timing.quantum task struct.quantum
      st := Function.update k.timing.st task struct.st } := by
  simp only [Kernel.timing, read_setTask (·.state), read_setTask (·.kernelEsp),
    read_setTask (·.quantum), read_setTask (·.st)]
  rfl

theorem timing_setTask {struct : TaskStruct} (state : struct.state = (k.tasks task).state)
    (resume : struct.kernelEsp = (k.tasks task).kernelEsp)
    (quantum : struct.quantum = (k.tasks task).quantum) (st : struct.st = (k.tasks task).st) :
    (k.setTask task struct).timing = k.timing := by
  rw [timing_replace, state, resume, quantum, st]
  simp only [Kernel.timing, Function.update_eq_self_iff.mpr]

@[simp] theorem timing_hang : k.hang.timing = k.timing := rfl

@[simp] theorem timing_mm {mm : Mm} : Kernel.timing { k with mm := mm } = k.timing := rfl

@[simp] theorem timing_text {message : String} : (k.text message).timing = k.timing := rfl

@[simp] theorem timing_note {entry : Note} : (k.note entry).timing = k.timing := rfl

theorem timing_setState {state : TaskState} :
    (k.setState task state).timing = k.timing.setState task state := by
  rw [Kernel.setState, timing_replace]
  simp only [Kernel.timing, Timing.setState, Function.update_eq_self_iff.mpr]

theorem timing_setStats {st : Stats} : (k.setStats task st).timing =
    { k.timing with st := Function.update k.timing.st task st } := by
  rw [Kernel.setStats, timing_replace]
  simp only [Kernel.timing, Function.update_eq_self_iff.mpr]

/-! ### The statistics -/

/-- The two events that only compute the remaining ticks again. -/
theorem timing_ticksUpdated : (k.updateStats task .currentTicksUpdated).timing =
    k.timing.refreshTicks task :=
  timing_setStats

theorem creditStats_timing {e : Event} {incr : DWord} :
    Kernel.creditStats (k.tasks task) e incr = k.timing.credit task e incr := by
  cases e <;> rfl

/-- Every other event is a reading of the clock. -/
theorem timing_updateStats {e : Event} (reads : e ≠ .quantumUpdated ∧ e ≠ .currentTicksUpdated)
    (waits : e = .refresh → (k.tasks task).state = .ready ∨ (k.tasks task).state = .blocked) :
    (k.updateStats task e).timing = k.timing.stamp task e := by
  unfold Kernel.updateStats
  rw [if_neg (by
    intro either
    rcases either with quantum | ticks
    · exact reads.1 quantum
    · exact reads.2 ticks)]
  dsimp only
  rw [if_neg fun all => (waits all.1).elim all.2.1 all.2.2]
  have stats : { Kernel.creditStats (k.tasks task) e
      (k.clock k.clockReads - (k.tasks task).st.elapsedTotalTicks) with
      elapsedTotalTicks := k.clock k.clockReads } = k.timing.stamped task e := by
    rw [creditStats_timing]
    rfl
  rw [stats]
  have set := @timing_setStats { k with clockReads := k.clockReads + 1 } task
    (k.timing.stamped task e)
  have marked : ∀ (k : Kernel) (marks : List Mark),
      Kernel.timing { k with marks := marks } = { k.timing with marks := marks } :=
    fun _ _ => rfl
  rw [marked, set]
  rfl

/-- The entry into a handler. -/
theorem timing_enter : k.updateEnteringSys.timing = k.timing.enter :=
  timing_updateStats (k := { k with handling := true }) (by simp) (by simp)

/-- The end of a handler. -/
theorem timing_leave : k.leave.timing = k.timing.close := by
  unfold Kernel.leave Timing.close
  split
  · rename_i switching
    rw [if_pos (show k.timing.mode = .switching from switching)]
  · rename_i notSwitching
    have user : k.mode = .user := by
      cases mode : k.mode with
      | user => rfl
      | switching => exact absurd mode notSwitching
    have left : k.updateLeavingSys.timing =
        { k.timing with handling := false }.stamp k.current .sysToUser :=
      timing_updateStats (k := { k with handling := false }) (by simp) (by simp)
    rw [if_neg (show ¬ k.timing.mode = .switching from notSwitching)]
    have moded : ∀ (k : Kernel) (mode : Mode),
        Kernel.timing { k with mode := mode } = { k.timing with mode := mode } := fun _ _ => rfl
    rw [moded, left, ← user]
    rfl

/-! ### The queues -/

theorem timing_updateProcessState {dest : Option Node} {first : Bool} :
    (k.updateProcessState task dest first).timing =
      k.timing.setState task (stateOn dest) := by
  rw [updateProcessState_eq, timing_setState]
  rfl

/-- A task joins `readyqueue`. -/
theorem timing_addProcess {e : Event} {first : Bool}
    (reads : e ≠ .quantumUpdated ∧ e ≠ .currentTicksUpdated) (other : e ≠ .refresh) :
    (k.addProcessToScheduling task e first).timing =
      (k.timing.setState task .ready).stamp task e := by
  unfold Kernel.addProcessToScheduling
  rw [timing_updateStats reads fun same => absurd same other, timing_updateProcessState]
  rfl

theorem timing_taskSwitch {next : TaskId} {saved : Resume} : (k.taskSwitch next saved).timing =
    { k.timing with
      resume := Function.update k.timing.resume k.current saved
      current := next
      mode := .switching } := by
  have kept : (k.setTask k.current { k.currentTask with kernelEsp := saved }).timing =
      { k.timing with resume := Function.update k.timing.resume k.current saved } := by
    rw [timing_replace]
    simp only [Kernel.timing, Kernel.currentTask, Function.update_eq_self_iff.mpr]
  have moded : ∀ (k : Kernel) (next : TaskId),
      Kernel.timing { k with current := next, mode := .switching } =
        { k.timing with current := next, mode := .switching } := fun _ _ => rfl
  unfold Kernel.taskSwitch
  dsimp only
  split
  · rw [moded, timing_mm, kept]
  · rw [moded, kept]

/-- The task that `sched_next_rr` chooses gets the CPU. -/
theorem timing_schedNext {next : TaskId} {saved : Resume}
    (chosen : (if listEmpty k.links .readyqueue then some k.idleTask
      else Kernel.listHeadToTaskStruct (listFirst k.links .readyqueue)) = some next) :
    (k.schedNextRr saved).timing = k.timing.dispatch next saved := by
  unfold Kernel.schedNextRr
  rw [chosen]
  dsimp only
  have ran : ((k.updateProcessStateRr next none).updateStats next .readyToSys).timing =
      (k.timing.setState next .run).stamp next .readyToSys := by
    rw [timing_updateStats (by simp) (by simp)]
    exact congrArg (·.stamp next .readyToSys) timing_updateProcessState
  have reset : ∀ (k : Kernel) (ticks : Int),
      Kernel.timing { k with currentTicks := ticks } = { k.timing with ticks := ticks } :=
    fun _ _ => rfl
  generalize (k.updateProcessStateRr next none).updateStats next .readyToSys = k₁ at ran ⊢
  have current : k₁.current = k.current := congrArg Timing.current ran
  have refreshed : (Kernel.updateStats { k₁ with currentTicks := 0 } next
      .currentTicksUpdated).timing =
      Timing.refreshTicks { k₁.timing with ticks := 0 } next := by
    rw [timing_ticksUpdated, reset]
  rw [timing_taskSwitch, refreshed, ran]
  have kept : (Kernel.updateStats { k₁ with currentTicks := 0 } next .currentTicksUpdated).current =
      k.current := current
  rw [kept]
  rfl

/-! ### Memory -/

theorem timing_pfRsi : (k.pfRsi addr).timing = k.timing := by
  unfold Kernel.pfRsi
  split
  · rfl
  · dsimp only
    split
    · exact timing_mm
    · split
      · split
        · rfl
        · exact timing_mm
      · rfl

theorem timing_withFault {allowed : Mm → Bool} : (k.withFault addr allowed).timing = k.timing := by
  unfold Kernel.withFault
  split
  · rfl
  · dsimp only
    split
    · exact timing_pfRsi
    · exact timing_pfRsi

theorem timing_storeWith {allowed : Mm → Bool} :
    (k.storeWith addr value allowed).timing = k.timing := by
  unfold Kernel.storeWith
  dsimp only
  split
  · exact timing_withFault
  · exact timing_mm.trans timing_withFault

theorem timing_kernelStore : (k.kernelStore addr value).timing = k.timing :=
  timing_storeWith (k := { k with stores := (k.current, addr) :: k.stores })

theorem timing_kernelLoad : (k.kernelLoad addr).timing = k.timing :=
  timing_withFault (k := { k with loads := (k.current, addr) :: k.loads })

theorem timing_kernelStores (values : List Byte) : ∀ (k : Kernel) (addr : DWord),
    (k.kernelStores addr values).timing = k.timing := by
  induction values with
  | nil => exact fun _ _ => rfl
  | cons value rest ih => exact fun k addr => (ih _ _).trans timing_kernelStore

theorem timing_kernelLoads (size : Nat) : ∀ (k : Kernel) (addr : DWord),
    (Kernel.kernelLoads size k addr).1.timing = k.timing := by
  induction size with
  | zero => exact fun _ _ => rfl
  | succ size ih => exact fun k addr => (ih _ _).trans timing_kernelLoad

theorem timing_copyFromUser (size : Nat) : ∀ (k : Kernel) (start : DWord),
    (Kernel.copyFromUser size k start).1.timing = k.timing := by
  induction size using Nat.strongRecOn with
  | ind size ih =>
      intro k start
      match size with
      | 0 | 1 | 2 | 3 | 4 => exact timing_kernelLoads _ k start
      | size + 5 => exact (ih (size + 1) (by omega) _ _).trans (timing_kernelLoads 4 k start)

theorem timing_writeLoop (fuel : Nat) : ∀ (k : Kernel) (buffer : DWord) (size offset : Nat),
    (Kernel.writeLoop fuel k buffer size offset).timing = k.timing := by
  induction fuel with
  | zero => exact fun _ _ _ _ => rfl
  | succ fuel ih =>
      intro k buffer size offset
      unfold Kernel.writeLoop
      split
      · have copied := timing_copyFromUser (min size chunkSize) k (buffer + BitVec.ofNat 32 offset)
        apply (ih _ _ _ _).trans
        split
        · exact copied
        · exact copied
      · rfl

theorem timing_sysWrite {fd size : Int} {buffer : DWord} :
    (k.sysWrite fd buffer size).1.timing = k.timing := by
  unfold Kernel.sysWrite
  split
  · rfl
  · split
    · rfl
    · split
      · rfl
      · exact timing_writeLoop _ k buffer _ 0

theorem timing_sysSbrk {increment : DWord} : (k.sysSbrk increment).1.timing = k.timing := by
  unfold Kernel.sysSbrk
  split
  · rfl
  · dsimp only
    split
    · rfl
    · generalize (if (k.currentTask.heapTop - increment).toNat > heapStart then
        BitVec.ofNat 32 heapStart else k.currentTask.heapTop - increment) = newHeapTop
      split
      · split
        · rfl
        · split
          · rfl
          · exact timing_setTask rfl rfl rfl rfl
      · exact timing_setTask rfl rfl rfl rfl

theorem timing_readFromKeyboardBuffer (size : Nat) : ∀ (k : Kernel) (buffer : DWord) (count : Nat),
    (k.readFromKeyboardBuffer size buffer count).1.timing = k.timing := by
  induction size with
  | zero => exact fun _ _ _ => rfl
  | succ size ih =>
      intro k buffer count
      rw [Kernel.readFromKeyboardBuffer]
      split
      · rfl
      · exact (ih _ _ _).trans timing_kernelStore

end Zeos
