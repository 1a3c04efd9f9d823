import Zeos.Simulation
import Zeos.Timing.Calls

set_option autoImplicit false

/-! Every step of the kernel spends time as the steps of `Timing` say. -/

namespace Zeos

open CircularList (Heap)

variable {k k' k₁ k₂ : Kernel} {r : Roster} {task : TaskId} {sem : SemId}

/-! ### Switches -/

theorem state_timing (ref : Refines k r) (t : TaskId) : k.timing.state t = (r.task t).state := by
  rw [← ref.core t]
  rfl

/-- A task on a queue has the state of the queue. -/
theorem state_queued (ref : Refines k r) (queues : r.QueueSound) {q : Queue}
    (inside : task ∈ r.queue q) : k.timing.state task = q.state :=
  (state_timing ref task).trans (queues.tagged inside)

theorem Refines.eligible (ref : Refines k r) (queues : r.QueueSound) :
    k.timing.Eligible r.nextTask := by
  cases ready : r.queue .ready with
  | nil =>
      right
      rw [Roster.nextTask, ready]
      exact ref.idle.symm
  | cons first rest =>
      left
      have inside : first ∈ r.queue .ready := by simp [ready]
      rw [Roster.nextTask, ready]
      exact state_queued ref queues inside

/-- `sched_next_rr` dispatches a task that can get the CPU. -/
theorem Refines.timing_next (ref : Refines k r) (saved : Resume) :
    (k.schedNextRr saved).timing = k.timing.dispatch r.nextTask saved :=
  timing_schedNext (nextTask_eq ref)

/-- The running task blocks, and the next one gets the CPU. -/
theorem Refines.blocks (ref : Refines k r) (running : r.Running) (queues : r.QueueSound)
    (busy : r.current ≠ r.idle) {q : Queue} (started : Started r q) (waits : q.state = .blocked)
    (first : Bool) {saved : Resume} (returns : saved.returns = true)
    (moved : k₁ = k.updateProcessState k.current (some q.head) first) :
    k.timing.Serves ((k₁.updateStats k₁.current .sysToBlocked).schedNextRr saved).timing := by
  have placed := ref.place started running.out first
  rw [← ref.current, ← moved] at placed
  have current : k₁.current = k.current := placed.current.trans ref.current.symm
  have after : Refines (k₁.updateStats k₁.current .sysToBlocked) (r.place k.current q first) :=
    placed.of_view view_updateStats
  have blocked : (k₁.updateStats k₁.current .sysToBlocked).timing = k.timing.block := by
    have state : stateOn (some q.head) = .blocked := by
      cases q with
      | free => cases waits
      | ready => cases waits
      | readers => rfl
      | waiters s => rfl
    rw [timing_updateStats (by simp) (by simp), current, moved, timing_updateProcessState, state]
    rfl
  have sound : (r.place k.current q first).QueueSound := by
    rw [ref.current]
    exact (running.place queues busy).1
  rw [after.timing_next saved, blocked]
  apply Timing.Serves.block _ _ ?_ returns
  · rw [← blocked]
    exact after.eligible sound
  · show k.current ≠ k.idleTask
    rw [ref.current, ref.idle]
    exact busy

/-! ### Calls -/

theorem Timing.Serves.quiet {c : Timing} : c.Serves c := .grants .none

/-- A call that leaves time alone. -/
theorem serves_of_eq {c : Timing} (same : k.timing = c) : c.Serves k.timing := by
  rw [same]
  exact .quiet

theorem serves_sysSemInit {nSem : Int} {value : DWord} :
    k.timing.Serves (k.sysSemInit nSem value).1.timing := by
  apply serves_of_eq
  unfold Kernel.sysSemInit
  split
  · rfl
  · split
    · rfl
    · split
      · rfl
      · rfl

theorem Refines.serves_semWait (ref : Refines k r) (sound : Roster.Sound r)
    (busy : r.current ≠ r.idle) {nSem : Int} : k.timing.Serves (k.sysSemWait nSem).1.timing := by
  unfold Kernel.sysSemWait
  cases index : semAt nSem with
  | none => exact .quiet
  | some sem =>
      dsimp only
      split
      · exact .quiet
      · rename_i notUnused
        have used : (r.sem sem).used = true := by
          rw [← ref.sems]
          simpa using notUnused
        split
        · have noted := ref.note (.semBlocked sem k.current)
          have running : (r.note (.semBlocked sem k.current)).Running :=
            sound.running.congr rfl (fun _ => rfl) rfl rfl
          have queues : (r.note (.semBlocked sem k.current)).QueueSound :=
            sound.queues.congr rfl (fun _ => rfl) rfl
          have started : Started (r.note (.semBlocked sem k.current)) (.waiters sem) := by
            intro s same
            cases same
            exact sound.owners.started sem used
          have returns : (Resume.semWait sem).returns = true := rfl
          exact noted.blocks running queues busy started rfl false returns rfl
        · exact .quiet

theorem Refines.serves_semSignal (ref : Refines k r) (sound : Roster.Sound r) {nSem : Int} :
    k.timing.Serves (k.sysSemSignal nSem).1.timing := by
  unfold Kernel.sysSemSignal
  cases index : semAt nSem with
  | none => exact .quiet
  | some sem =>
      dsimp only
      split
      · exact .quiet
      · rename_i notUnused
        have used : (r.sem sem).used = true := by
          rw [← ref.sems]
          simpa using notUnused
        have started : Started r (.waiters sem) := by
          intro s same
          cases same
          exact sound.owners.started sem used
        split
        · exact .quiet
        · rename_i some
          have empty : listEmpty k.links (.blocked sem) = true ↔ r.queue (.waiters sem) = [] :=
            listEmpty_queue ref started
          obtain ⟨task, rest, waiting⟩ := List.exists_cons_of_ne_nil (mt empty.mpr some)
          have head : Kernel.listHeadToTaskStruct (listFirst k.links (.blocked sem)) =
              Option.some task := first_queue ref started waiting
          have inside : task ∈ r.queue (.waiters sem) := by simp [waiting]
          rw [head]
          apply Timing.Serves.grants
          have granted : ((k.addProcessToScheduling task .blockedToReady false).note
              (.semGranted sem task)).timing = k.timing.grant task :=
            timing_addProcess (by simp) (by simp)
          rw [granted]
          exact .more task .none (state_queued ref sound.queues inside)

/-- Semaphores only make waiting tasks ready. -/
theorem outlasts_grants {c : Timing} : Outlasts fun k => c.Grants k.timing := by
  refine ⟨fun _ granted => granted, fun _ granted => granted, ?_⟩
  intro k r sem task ref queues inside granted
  have aborted : (Kernel.abortWaiter sem (.anchor task) k).timing = k.timing.grant task := by
    have set : ((k.addProcessToScheduling task .blockedToReady false).setTask task
        { (k.addProcessToScheduling task .blockedToReady false).tasks task with
          semDeleted := true }).timing =
        (k.addProcessToScheduling task .blockedToReady false).timing :=
      timing_setTask rfl rfl rfl rfl
    exact set.trans (timing_addProcess (by simp) (by simp))
  rw [aborted]
  exact .more task granted (state_queued ref queues inside)

theorem Refines.serves_semDestroy (ref : Refines k r) (sound : Roster.Sound r) {nSem : Int} :
    k.timing.Serves (k.sysSemDestroy nSem).1.timing := by
  unfold Kernel.sysSemDestroy
  cases index : semAt nSem with
  | none => exact .quiet
  | some sem =>
      dsimp only
      split
      · exact .quiet
      · rename_i notUnused
        have used : (r.sem sem).used = true := by
          rw [← ref.sems]
          simpa using notUnused
        split
        · exact .quiet
        · obtain ⟨owner, owned, fine, _⟩ := sound.owners.owner sem used
          apply Timing.Serves.grants
          exact (ref.destroy sound.queues sound.owners (sound.identity.born owner fine.1)
            ((sound.owners.listed sem owner).mpr ⟨used, owned⟩) outlasts_grants .none).2

theorem timing_freeDIR : (k.freeDIR task).timing = k.timing := by
  unfold Kernel.freeDIR
  dsimp only
  split
  · exact timing_setTask rfl rfl rfl rfl
  · exact timing_setTask rfl rfl rfl rfl

theorem Refines.serves_exit (ref : Refines k r) (sound : Roster.Sound r) (user : r.mode = .user)
    (busy : r.current ≠ r.idle) : k.timing.Serves k.sysExit.1.timing := by
  have retired : ((k.updateProcessStateRr k.current (some .freeQueue)).freeDIR k.current).timing =
      k.timing.retire := timing_freeDIR.trans timing_updateProcessState
  obtain ⟨r', freed, queues, _, granted⟩ := ref.freeProcess sound user busy
    (@outlasts_grants k.timing.retire) (by rw [retired]; exact .none)
  have switched : k.sysExit.1.timing =
      (k.freeProcess k.current).timing.dispatch r'.nextTask .exited := freed.timing_next .exited
  rw [switched]
  apply Timing.Serves.exit _ ?_ granted (freed.eligible queues)
  show k.current ≠ k.idleTask
  rw [ref.current, ref.idle]
  exact busy

/-! ### Creation -/

/-- A struct just taken from the pool. -/
def Timing.reset (c : Timing) (task : TaskId) : Timing :=
  { c with
    quantum := Function.update c.quantum task defaultQuantum
    st := Function.update c.st task ⟨0, 0, 0, 0, 0, 0, 0⟩ }

theorem timing_initProcess : (k.initProcess task).timing = k.timing.reset task := by
  have read : ∀ {α : Type} (read : TaskStruct → α), (fun t => read ((k.initProcess task).tasks t)) =
      Function.update (fun t => read (k.tasks t)) task
        (read { k.tasks task with
          pid := k.lastPid, heapTop := BitVec.ofNat 32 heapStart, semDeleted := false,
          quantum := defaultQuantum, st := ⟨0, 0, 0, 0, 0, 0, 0⟩ }) := by
    intro α read
    funext t
    simp only [Kernel.initProcess, Kernel.resetStats, Kernel.setStats, Kernel.setTask,
      Function.update_apply]
    split
    · rfl
    · rfl
  simp only [Kernel.timing, read (·.state), read (·.kernelEsp), read (·.quantum), read (·.st),
    Function.update_eq_self_iff.mpr]
  rfl

theorem timing_allocateDIR (got : k.allocateDIR task = (k₁, true)) : k₁.timing = k.timing := by
  unfold Kernel.allocateDIR at got
  split at got
  · cases got
  · split at got
    · rename_i pos _
      cases got
      exact @timing_setTask { k with links := listDel k.links (.dirAnchor pos) } task
        { k.tasks task with dirPagesBaseAddr := some pos } rfl rfl rfl rfl
    · cases got

/-- `allocate_process` sets the quantum of the new task and resets its statistics. -/
theorem timing_allocate {dir : Option DirId} (got : k.allocateProcess dir = (k₁, some task)) :
    k₁.timing = k.timing.reset task := by
  have made : ∀ k₂ : Kernel, k₂.timing = k.timing →
      (k₂.initProcess task).timing = k.timing.reset task := by
    intro k₂ same
    rw [timing_initProcess, same]
  unfold Kernel.allocateProcess at got
  split at got
  · cases got
  · split at got
    · cases got
    · rename_i other _
      cases dir with
      | none =>
          dsimp only at got
          split at got
          · cases got
          · rename_i k₂ chosen
            have same : other = task := Option.some.inj (congrArg Prod.snd got)
            subst same
            rw [← made k₂ (timing_allocateDIR chosen)]
            exact congrArg Kernel.timing (congrArg Prod.fst got).symm
      | some dir =>
          dsimp only at got
          have same : other = task := Option.some.inj (congrArg Prod.snd got)
          subst same
          have placed : (k.reuseDIR dir other).timing = k.timing :=
            @timing_setTask k other { k.tasks other with dirPagesBaseAddr := some dir } rfl rfl rfl rfl
          rw [← made (k.reuseDIR dir other) placed]
          exact congrArg Kernel.timing (congrArg Prod.fst got).symm

/-- The end of `sys_fork` and `sys_clone`. -/
theorem timing_spawn {start : Resume} (struct : TaskStruct)
    (reset : k₁.timing = k.timing.reset task) (apart : k.current ≠ task) (saved : k₂.timing = (k₁.setTask task struct).timing)
    (state : struct.state = (k₁.tasks task).state) (st : struct.st = (k₁.tasks task).st)
    (quantum : struct.quantum = k₁.currentTask.quantum) (resume : struct.kernelEsp = start) :
    (k₂.addProcessToScheduling task .freeToReady false).timing = k.timing.spawn task start := by
  have share : struct.quantum = k.timing.quantum k.current := by
    have current : k₁.current = k.current := congrArg Timing.current reset
    have same : k₁.timing.quantum k.current = k.timing.quantum k.current := by
      rw [reset]
      exact Function.update_of_ne apart ..
    rw [quantum, ← same, ← current]
    rfl
  have set : k₂.timing = { k.timing with
      quantum := Function.update k.timing.quantum task (k.timing.quantum k.current)
      st := Function.update k.timing.st task ⟨0, 0, 0, 0, 0, 0, 0⟩
      resume := Function.update k.timing.resume task start } := by
    have state' : struct.state = k₁.timing.state task := state
    have st' : struct.st = k₁.timing.st task := st
    rw [saved, timing_replace, share, resume, state', st', reset]
    simp only [Timing.reset, Function.update_idem, Function.update_self,
      Function.update_eq_self]
  rw [timing_addProcess (by simp) (by simp), set]
  rfl

theorem Refines.apart_free (ref : Refines k r) (running : r.Running) {others : List TaskId}
    (pool : r.queue .free = task :: others) : k.current ≠ task := by
  intro same
  apply running.out
  rw [← ref.current, same]
  exact ⟨.free, by simp [pool]⟩

theorem Refines.serves_fork (ref : Refines k r) (sound : Roster.Sound r) :
    k.timing.Serves k.sysFork.1.timing := by
  unfold Kernel.sysFork
  rcases ref.allocateNew sound with ⟨_, same⟩ | ⟨task, others, dir, dirs, pool, _, taken, _⟩
  · rw [same]
    exact .quiet
  · have inside : task ∈ r.queue .free := by simp [pool]
    generalize allocated : k.allocateProcess none = result at taken ⊢
    obtain ⟨k₁, chosen⟩ := result
    dsimp only at taken
    subst taken
    have free : k.timing.state task = .invalid := state_queued ref sound.queues inside
    have spawned : k.timing.Serves (k.timing.spawn task .retFromFork) := .spawn task _ free rfl
    dsimp only
    rw [timing_spawn { k₁.tasks task with
        quantum := k₁.currentTask.quantum
        heapTop := k₁.currentTask.heapTop
        kernelEsp := .retFromFork }
      (timing_allocate allocated) (ref.apart_free sound.running pool) ?_ rfl rfl rfl rfl]
    · exact spawned
    · have twice : ∀ struct struct' : TaskStruct, struct' = { struct with kernelEsp := .retFromFork } →
          (k₁.setTask task struct).setTask task { (k₁.setTask task struct).tasks task with
            kernelEsp := .retFromFork } = k₁.setTask task struct' := by
        intro struct struct' same
        rw [same]
        simp [Kernel.setTask]
      rw [timing_mm, timing_mm, twice _ _ rfl]

theorem Refines.serves_clone (ref : Refines k r) (sound : Roster.Sound r)
    {function stack exitFunc : DWord} :
    k.timing.Serves (k.sysClone function stack exitFunc).1.timing := by
  unfold Kernel.sysClone
  split
  · exact .quiet
  · obtain ⟨home, own⟩ : ∃ home, k.currentTask.dirPagesBaseAddr = some home := by
      obtain ⟨dir, housed⟩ := Option.ne_none_iff_exists'.mp
        ((sound.identity.housed r.current).mp (Roster.live_of_running sound.running))
      refine ⟨dir, ?_⟩
      rw [← housed, ← ref.core, Kernel.currentTask, ref.current]
      rfl
    rw [own]
    rcases ref.allocateShared sound home with ⟨_, same⟩ | ⟨task, others, pool, taken, _⟩
    · rw [same]
      exact .quiet
    · have inside : task ∈ r.queue .free := by simp [pool]
      generalize allocated : k.allocateProcess (some home) = result at taken ⊢
      obtain ⟨k₁, chosen⟩ := result
      dsimp only at taken
      subst taken
      have free : k.timing.state task = .invalid := state_queued ref sound.queues inside
      have spawned : k.timing.Serves (k.timing.spawn task .cloned) := .spawn task _ free rfl
      dsimp only
      rw [timing_spawn { k₁.tasks task with
          quantum := k₁.currentTask.quantum
          kernelEsp := .cloned }
        (timing_allocate allocated) (ref.apart_free sound.running pool)
        (timing_kernelStores ..) rfl rfl rfl rfl]
      exact spawned

/-! ### Statistics and reading -/

theorem serves_getStats {pid : Int} {st : DWord} :
    k.timing.Serves (k.sysGetStats pid st).1.timing := by
  unfold Kernel.sysGetStats
  split
  · exact .quiet
  · split
    · exact .quiet
    · split
      · exact .quiet
      · rename_i task _
        split
        · exact .quiet
        · dsimp only
          rw [timing_kernelStores]
          split
          · rename_i waits
            rw [timing_updateStats (by simp) fun _ => waits]
            exact .refresh task waits
          · exact .quiet

theorem Refines.serves_blockInRead (ref : Refines k r) (poised : Roster.Poised r)
    (busy : r.current ≠ r.idle) (first : Bool) {saved : Resume} (returns : saved.returns = true) :
    k.timing.Serves (k.blockInRead first saved).timing :=
  ref.blocks poised.running poised.queues busy (q := .readers) (by simp [Started]) rfl first returns
    rfl

/-- One round of the loop of `sys_read_keyboard`. -/
theorem Refines.serves_round (ref : Refines k r) (poised : Roster.Poised r)
    (busy : r.current ≠ r.idle) (start buffer : DWord) (totalSize size : Int) :
    k.timing.Serves ((k.readFromKeyboardBuffer size.toNat start 0).1.readKeyboardLoop buffer
      totalSize (size - (k.readFromKeyboardBuffer size.toNat start 0).2)).1.timing := by
  obtain ⟨popped, _⟩ := ref.popKeys size.toNat start 0
  have after := poised.popKeys size.toNat 0 start
  have busy' : (r.popKeys size.toNat start 0).1.current ≠ (r.popKeys size.toNat start 0).1.idle := by
    obtain ⟨pending, trace, shape, _⟩ := Roster.popKeys_shape size.toNat start 0 r
    rw [shape]
    exact busy
  have same := timing_readFromKeyboardBuffer size.toNat k start 0
  generalize (k.readFromKeyboardBuffer size.toNat start 0).1 = k₁ at popped same ⊢
  rw [← same]
  unfold Kernel.readKeyboardLoop
  split
  · have set : Refines { k₁ with keyboard := { k₁.keyboard with
        remainingToRead := size - (k.readFromKeyboardBuffer size.toNat start 0).2 } } _ :=
      popped.of_view rfl
    exact set.serves_blockInRead after busy' true rfl
  · exact .quiet

theorem Refines.serves_read (ref : Refines k r) (poised : Roster.Poised r)
    (busy : r.current ≠ r.idle) {fd : Int} {buffer size : DWord} :
    k.timing.Serves (k.sysRead fd buffer size).1.timing := by
  cases checked : k.readChecked fd buffer size with
  | false =>
      rw [sysRead_refused checked]
      exact .quiet
  | true =>
      rw [(sysRead_checked checked).2]
      have noted := ref.note (.readCalled k.current buffer size.toInt.toNat)
      have after : Roster.Poised (r.note (.readCalled k.current buffer size.toInt.toNat)) := by
        rw [ref.current]
        exact poised.note_read buffer size.toInt.toNat
      unfold Kernel.sysReadKeyboard
      dsimp only
      split
      · exact noted.serves_blockInRead after busy false rfl
      · exact noted.serves_round after busy buffer buffer size.toInt size.toInt

theorem Refines.serves (ref : Refines k r) (sound : Roster.Sound r) (user : r.mode = .user)
    (busy : r.current ≠ r.idle) (request : Syscall) :
    k.timing.Serves (k.syscall request).1.timing := by
  cases request with
  | niSyscall => exact .quiet
  | gettime => exact .quiet
  | getpid => exact .quiet
  | write fd buffer size => exact serves_of_eq timing_sysWrite
  | sbrk increment => exact serves_of_eq timing_sysSbrk
  | getStats pid st => exact serves_getStats
  | exit => exact ref.serves_exit sound user busy
  | fork => exact ref.serves_fork sound
  | clone function stack exitFunc => exact ref.serves_clone sound
  | semInit nSem value => exact serves_sysSemInit
  | semWait nSem => exact ref.serves_semWait sound busy
  | semSignal nSem => exact ref.serves_semSignal sound
  | semDestroy nSem => exact ref.serves_semDestroy sound
  | read fd buffer size => exact ref.serves_read sound.toPoised busy

/-! ### Interrupts -/

/-- The wake-up of the first reader. -/
theorem Refines.wakes (ref : Refines k r) (sound : Roster.Sound r) {reader : TaskId}
    {rest : List TaskId} (waiting : r.queue .readers = reader :: rest) {c : Timing}
    (same : k.timing = c) : c.Wakes k.wakeReader.timing := by
  obtain ⟨queues, _⟩ := sound.running.yield sound.queues
  have yielded : Refines (if k.current ≠ k.idleTask then
      k.addProcessToScheduling k.current .sysToReady false else k) r.yield := by
    apply Refines.of_view (ref.yield sound.running)
    split
    · exact view_addProcess
    · rfl
  have left : (if k.current ≠ k.idleTask then
      k.addProcessToScheduling k.current .sysToReady false else k).timing =
      if c.current ≠ c.idle then c.requeue else c := by
    rw [← same]
    show Kernel.timing (if k.current ≠ k.idleTask then _ else _) =
      if k.current ≠ k.idleTask then _ else _
    split
    · exact timing_addProcess (by simp) (by simp)
    · rfl
  have readers : r.yield.queue .readers = reader :: rest := Roster.yield_readers.trans waiting
  have inside : reader ∈ r.yield.queue .readers := by simp [readers]
  have blocked : c.state reader = .blocked := by
    rw [← same]
    exact state_queued (q := .readers) ref sound.queues (by simp [waiting])
  unfold Kernel.wakeReader
  generalize (if k.current ≠ k.idleTask then
      k.addProcessToScheduling k.current .sysToReady false else k) = k₁ at yielded left ⊢
  have head : Kernel.listHeadToTaskStruct (listFirst k₁.links .keyboardqueue) = some reader :=
    first_queue (q := .readers) yielded (by simp [Started]) readers
  have moved : Refines (k₁.addProcessToScheduling reader .blockedToReady true) _ :=
    Refines.of_view (yielded.move (q := .ready) queues (by simp [Started]) inside
      (by simp [Started]) true) view_addProcess
  have next : ((r.yield.take reader .readers).place reader .ready true).nextTask = reader := by
    simp [Roster.nextTask, Roster.place, Roster.setState, Roster.setTask, Roster.setQueue]
  have granted : (k₁.addProcessToScheduling reader .blockedToReady true).timing =
      k₁.timing.grant reader := timing_addProcess (by simp) (by simp)
  dsimp only
  rw [head]
  dsimp only
  rw [moved.timing_next .handler, next, granted, left]
  split
  · rename_i busy
    exact .busy reader busy blocked
  · rename_i idle
    exact .idle reader (not_not.mp idle) blocked

theorem Refines.wakes_keyboard (ref : Refines k r) (sound : Roster.Sound r) (value : Byte) :
    k.timing.Wakes (k.keyboardRoutine value).timing := by
  unfold Kernel.keyboardRoutine
  cases pressed : Kernel.pressedKey value with
  | none => exact .quiet
  | some key =>
      dsimp only
      split
      · exact .quiet
      · rename_i notFull
        have bounded := sound.reads.bounded
        have room : r.pending.length + 1 < keyboardBufferSize := by
          have := mt ref.full_iff.mpr notFull
          omega
        have stored := ref.put room key
        have accepted : Roster.Sound (r.accept key) := sound.accept room
        have empty : listEmpty k.links .keyboardqueue = true ↔ r.queue .readers = [] :=
          listEmpty_queue (q := .readers) ref (by simp [Started])
        split
        · exact .quiet
        · rename_i nonempty
          obtain ⟨reader, rest, waiting⟩ := List.exists_cons_of_ne_nil (mt empty.mpr nonempty)
          split
          · refine Refines.wakes (Refines.of_view stored ?_) accepted waiting ?_
            · rfl
            · rfl
          · exact .quiet

theorem Refines.ticks (ref : Refines k r) (sound : Roster.Sound r) :
    k.timing.Ticks k.clockRoutine.timing := by
  have running : k.currentTask.state = .run := by
    rw [← sound.running.state, ← ref.core, Kernel.currentTask, ref.current]
    rfl
  unfold Kernel.clockRoutine Kernel.executeScheduling
  rw [if_pos running]
  have ticked : Refines ({ k with zeosTicks := k.zeosTicks + 1 }.updateSchedDataRr) r := by
    apply ref.of_view
    unfold Kernel.updateSchedDataRr
    dsimp only
    rw [view_updateStats]
    rfl
  have timed : ({ k with zeosTicks := k.zeosTicks + 1 }.updateSchedDataRr).timing =
      k.timing.tick := by
    unfold Kernel.updateSchedDataRr
    exact timing_ticksUpdated
  generalize { k with zeosTicks := k.zeosTicks + 1 }.updateSchedDataRr = k₁ at ticked timed ⊢
  have needs : k₁.needsSchedRr = true ↔
      k.timing.tick.NeedsSched (listEmpty k₁.links .readyqueue = false) := by
    rw [← timed]
    simp only [Kernel.needsSchedRr, Timing.NeedsSched, Bool.or_eq_true, Bool.and_eq_true,
      beq_iff_eq, Bool.not_eq_true']
    rfl
  dsimp only
  split
  · rename_i expired
    obtain ⟨queues, _⟩ := sound.running.yield sound.queues
    have yielded := ticked.yield sound.running
    have current : k₁.current = k.current := ticked.current.trans ref.current.symm
    have idle : k₁.idleTask = k.idleTask := ticked.idle.trans ref.idle.symm
    have moved : (if k₁.current ≠ k₁.idleTask then
        k₁.updateProcessStateRr k₁.current (some .readyqueue) else k₁).timing =
        if k.current ≠ k.idleTask then k.timing.tick.setState k.current .ready
        else k.timing.tick := by
      rw [current, idle, ← timed]
      split
      · exact timing_updateProcessState
      · rfl
    generalize (if k₁.current ≠ k₁.idleTask then
        k₁.updateProcessStateRr k₁.current (some .readyqueue) else k₁) = k₂ at yielded moved ⊢
    have current₂ : k₂.current = k.current := yielded.current.trans
      (Roster.yield_current.trans ref.current.symm)
    have after : Refines (k₂.updateStats k₂.current .sysToReady) r.yield :=
      yielded.of_view view_updateStats
    have stamped : (k₂.updateStats k₂.current .sysToReady).timing =
        k₂.timing.stamp k.current .sysToReady := by
      rw [timing_updateStats (by simp) (by simp), current₂]
    have eligible := after.eligible queues
    rw [stamped, moved] at eligible
    rw [after.timing_next .handler, stamped, moved]
    by_cases busy : k.current = k.idleTask
    · rw [if_neg (not_not.mpr busy)] at eligible ⊢
      exact .idleOver _ _ busy (needs.mp expired) eligible
    · rw [if_pos busy] at eligible ⊢
      exact .preempt _ _ busy (needs.mp expired) eligible
  · rename_i more
    rw [timed]
    exact .stay _ (mt needs.mpr more)

/-! ### Steps -/

theorem timing_semWaitResumed : k.semWaitResumed.1.timing = k.timing := by
  unfold Kernel.semWaitResumed
  split
  · exact @timing_setTask k k.current { k.currentTask with semDeleted := false } rfl rfl rfl rfl
  · rfl

/-- The rest of a handler that was left half way. -/
theorem Refines.serves_resume (ref : Refines k r) (sound : Roster.Sound r)
    (switching : r.mode = .switching) : Timing.Step k.timing none k.resume.timing := by
  have moded : k.timing.mode = .switching := ref.mode.trans switching
  have entered := ref.enterUser
  have saved : { k with mode := .user }.currentTask.kernelEsp = (r.task r.current).resume := by
    rw [← ref.core, ← ref.current]
    rfl
  have same : k.timing.resume k.timing.current = (r.task r.current).resume := by
    rw [← saved]
    rfl
  have continues : ∀ k₁ : Kernel, (r.task r.current).resume.returns = true →
      k.timing.goOn.Serves k₁.timing → Timing.Step k.timing none k₁.leave.timing := by
    intro k₁ returns served
    rw [timing_leave]
    exact .resume moded (by rw [same]; exact returns) served
  have leaves : (r.task r.current).resume.returns = true →
      Timing.Step k.timing none ({ k with mode := .user }.leave).timing :=
    fun returns => continues { k with mode := .user } returns .quiet
  have rests : (r.task r.current).resume.returns = false →
      Timing.Step k.timing none k.timing.goOn :=
    fun rests => .resumeIdle moded (by rw [same]; exact rests)
  unfold Kernel.resume
  dsimp only
  rw [saved]
  cases resume : (r.task r.current).resume with
  | cpuIdle => exact rests (by rw [resume]; rfl)
  | exited => exact rests (by rw [resume]; rfl)
  | handler => exact leaves (by rw [resume]; rfl)
  | retFromFork => exact leaves (by rw [resume]; rfl)
  | cloned => exact leaves (by rw [resume]; rfl)
  | semWait sem =>
      apply continues _ (by rw [resume]; rfl)
      rw [timing_semWaitResumed]
      exact .quiet
  | readFirst buffer size =>
      apply continues _ (by rw [resume]; rfl)
      exact entered.serves_round (sound.toPoised.resumed (by simp [resume]))
        (sound.toPoised.reader_busy (by rw [resume]; rfl)) buffer buffer size size
  | readLoop buffer totalSize size =>
      apply continues _ (by rw [resume]; rfl)
      exact entered.serves_round (sound.toPoised.resumed (by simp [resume]))
        (sound.toPoised.reader_busy (by rw [resume]; rfl)) _ buffer totalSize size

theorem Refines.step_timing (ref : Refines k r) (sound : Roster.Sound r) {label : Option Action}
    (stepped : k.step label = some k') : Timing.Step k.timing label k'.timing := by
  cases label with
  | some action =>
      obtain ⟨mode, enabled, same⟩ := step_action stepped
      have user : r.mode = .user := ref.mode.symm.trans mode
      have entered : Refines k.updateEnteringSys r := ref.of_view view_updateEnteringSys
      rw [same]
      cases action with
      | call request =>
          have busy : r.current ≠ r.idle := by
            rw [← ref.current, ← ref.idle]
            simpa [Kernel.enabled] using enabled
          have served := entered.serves sound user busy request
          rw [timing_enter] at served
          have step := Timing.Step.call request mode served
          rw [← timing_leave] at step
          exact step
      | badCall => exact .access _ mode (by simp)
      | clock =>
          have ticked := entered.ticks sound
          rw [timing_enter] at ticked
          have step := Timing.Step.clock mode ticked
          rw [← timing_leave] at step
          exact step
      | keyboard value =>
          have woken := entered.wakes_keyboard sound value
          rw [timing_enter] at woken
          have step := Timing.Step.keyboard value mode woken
          rw [← timing_leave] at step
          exact step
      | load addr =>
          have kept : (k.deliver (.load addr)).timing = k.timing := timing_withFault
          rw [kept]
          exact .access _ mode (by simp)
      | store addr value =>
          have kept : (k.deliver (.store addr value)).timing = k.timing := timing_storeWith
          rw [kept]
          exact .access _ mode (by simp)
  | none =>
      obtain ⟨mode, same⟩ := step_none stepped
      rw [same]
      exact ref.serves_resume sound (ref.mode.symm.trans mode)

end Zeos
